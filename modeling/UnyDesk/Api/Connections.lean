import UnyDesk.Api.Registration

/-!
# The connections of an agent

A heartbeat leaves the list of connections out when it is empty, and the server then keeps the list that it has. A round
that uploads sends the list that it read before. The server shows the connections of an agent that nobody interferes with
where no heartbeat with an empty list follows one with connections, and where none opens or closes during an upload.
-/

namespace UnyDesk.Api

open Lib DeviceServer Option DeviceTable

namespace Sync

/-- Once the `UPDATE` of a heartbeat has run, the row of an agent that counts as uploaded is there, and the column is the list
that the agent had when it sent the heartbeat. -/
def Displays (c : Sync) : Prop :=
  ∀ n id modifiedAt, c.agent.phase = .heartbeat n id modifiedAt →
    (∀ body, c.server.tasks n ≠ some (.heartbeatUpdate body)) →
    (c.agent.infoUploaded.uploaded = true → (c.server.devices.byId id).isSome = true) ∧
      ∀ row ∈ c.server.devices.byId id, row.columns.conns = connNumbers c.agent.sentConns

/-- Nobody else sends requests. -/
def Alone : SyncEvent → Prop
  | .request _ => False
  | _ => True

/-- A statement without a list finds an empty column. -/
def ListsTask (c : Sync) : DeviceTask → Prop
  | .heartbeatUpdate body => body.conns = none → ∀ row ∈ c.server.devices.byId body.id, row.columns.conns = []
  | _ => True

/-- The connections are still those that the round has read. -/
def ListsPhase (c : Sync) : SyncPhase → Prop
  | .sysinfo n _ _ conns => c.server.answers n ≠ none → c.agent.skips conns = false → c.agent.aliveConns = conns
  | _ => True

/-- A heartbeat without a list finds an empty column, and no connection opens or closes during an upload. -/
def Lists (c : Sync) : SyncEvent → Prop
  | .advance n => ∀ task ∈ c.server.tasks n, c.ListsTask task
  | .resume => c.ListsPhase c.agent.phase
  | _ => True

instance (e : SyncEvent) : Decidable (Alone e) :=
  match e with
  | .configure _ _ _ _ | .connections _ | .pass _ | .tick | .resume | .request _ | .advance _ => by
    unfold Alone; infer_instance

instance (c : Sync) (task : DeviceTask) : Decidable (c.ListsTask task) :=
  match task with
  | .deployCheck _ _ _ | .deployUpsert _ _ _ | .cliUpsert _ _ _ _ | .sysinfoSelect _ | .sysinfoInsert _ | .sysinfoUpdate _
  | .heartbeatUpdate _ | .heartbeatDelete _ | .heartbeatSelect _ _ | .delete _ | .disconnectSelect _ _
  | .disconnectInsert _ _ _ => by unfold ListsTask; infer_instance

instance (c : Sync) (phase : SyncPhase) : Decidable (c.ListsPhase phase) :=
  match phase with
  | .idle | .sysinfo _ _ _ _ | .heartbeat _ _ _ => by unfold ListsPhase; infer_instance

instance (c : Sync) (e : SyncEvent) : Decidable (c.Lists e) :=
  match e with
  | .configure _ _ _ _ | .connections _ | .pass _ | .tick | .resume | .request _ | .advance _ => by
    unfold Lists; infer_instance

/-- The id of a round. -/
def roundId : SyncPhase → Option String
  | .idle => none
  | .sysinfo _ id _ _ | .heartbeat _ id _ => some id

/-- What the statement of a heartbeat is about to show, or has shown. -/
def Showing (c : Sync) (id : String) : Option DeviceTask → Prop
  | some (.heartbeatUpdate body) =>
    body.id = id ∧ body.conns = if c.agent.sentConns = [] then none else some (connNumbers c.agent.sentConns)
  | _ => ∀ row ∈ c.server.devices.byId id, row.columns.conns = connNumbers c.agent.sentConns

/-- What a run of an agent that nobody interferes with keeps. -/
structure Shown (c : Sync) : Prop where
  registered : c.Registered
  alone : ∀ n task, c.server.tasks n = some task → c.agent.phase.awaits = some n
  inserts : ∀ n body, c.server.tasks n = some (.sysinfoInsert body) → c.server.devices.byId body.id = none
  round : c.agent.infoUploaded.uploaded = true → ∀ id ∈ roundId c.agent.phase, c.agent.infoUploaded.id = id
  showing : ∀ n id modifiedAt, c.agent.phase = .heartbeat n id modifiedAt → c.Showing id (c.server.tasks n)

section Steps

variable {c : Sync} {n : ℕ} {task : DeviceTask} {id : String}

theorem Shown.displays (h : c.Shown) : c.Displays := by
  intro n id modifiedAt hphase hupdated
  have hshowing := h.showing n id modifiedAt hphase
  constructor
  · intro huploaded
    rw [← h.round huploaded id (by rw [hphase]; rfl)]
    exact h.registered.uploaded huploaded
  · cases htask : c.server.tasks n with
    | none =>
      rw [htask] at hshowing
      exact hshowing
    | some task =>
      rw [htask] at hshowing
      cases task with
      | heartbeatUpdate body => exact absurd htask (hupdated body)
      | _ => exact hshowing

theorem byId_update {devices : DeviceTable} {f : DeviceColumns → DeviceColumns} {row : DeviceRow}
    (hrow : row ∈ (devices.update id f).byId id) :
    ∃ old ∈ devices.byId id, row = { old with columns := f old.columns } := by
  obtain ⟨hmem, hid⟩ := mem_of_byId hrow
  rcases mem_update.mp hmem with ⟨-, hne⟩ | ⟨old, hold, rfl, rfl⟩
  · exact absurd hid hne
  · exact ⟨old, byId_eq_some hold, rfl⟩

/-- The statements of an agent that is alone register it. -/
theorem Shown.registers (h : c.Shown) {e : SyncEvent} (halone : Alone e) : c.Registers e := by
  cases e with
  | advance n =>
    intro task htask
    have hawaits := h.alone n task htask
    cases task with
    | sysinfoInsert body => exact fun _ => h.inserts n body htask
    | delete guid =>
      cases hphase : c.agent.phase with
      | idle =>
        rw [hphase] at hawaits
        exact nomatch hawaits
      | sysinfo m id username conns =>
        rw [hphase] at hawaits
        obtain rfl := some.inj hawaits
        exact nomatch (h.registered.sysinfo m id username conns hphase).2.1 _ htask
      | heartbeat m id modifiedAt =>
        rw [hphase] at hawaits
        obtain rfl := some.inj hawaits
        exact nomatch (h.registered.heartbeat m id modifiedAt hphase).2 _ htask
    | _ => trivial
  | _ => trivial

/-- A heartbeat shows its list. -/
theorem showing_advance (hbeat : BeatTask task) (hshowing : c.Showing id (some task)) (hlists : c.ListsTask task) :
    Showing { c with server := c.server.advance n task } id ((c.server.advance n task).tasks n) := by
  cases task with
  | heartbeatUpdate body =>
    obtain ⟨rfl, hconns⟩ := hshowing
    have hparked : (c.server.advance n (.heartbeatUpdate body)).tasks n = some (.heartbeatDelete body) :=
      park_tasks
    rw [hparked]
    intro row hrow
    obtain ⟨old, hold, rfl⟩ := byId_update hrow
    change body.conns.getD old.columns.conns = _
    by_cases hempty : c.agent.sentConns = []
    · rw [if_pos hempty] at hconns
      rw [hconns, getD_none, hlists hconns old hold]
      change [] = connNumbers c.agent.sentConns
      rw [hempty]
      rfl
    · rw [if_neg hempty] at hconns
      rw [hconns, getD_some]
  | heartbeatDelete body =>
    have hparked : (c.server.advance n (.heartbeatDelete body)).tasks n =
        some (.heartbeatSelect body (c.server.queue.filter (·.deviceId = body.id))) := park_tasks
    rw [hparked]
    exact hshowing
  | heartbeatSelect body orders =>
    have hanswered : (c.server.advance n (.heartbeatSelect body orders)).tasks n = none := answer_tasks
    rw [hanswered]
    exact hshowing
  | _ => exact nomatch hbeat

/-- A row is inserted when none was found. -/
theorem byId_of_sysinfoInsert {s : DeviceServer} {body : SysinfoBody}
    (hnext : (s.advance n task).tasks n = some (.sysinfoInsert body)) :
    (s.advance n task).devices.byId body.id = none := by
  cases advance_follows hnext with
  | sysinfoInsert =>
    rw [advance] at hnext ⊢
    split_ifs at hnext ⊢ with hnone
    · exact isNone_iff_eq_none.mp hnone
    · cases some.inj (park_tasks.symm.trans hnext)

section Shown

variable (h : c.Shown)
include h

namespace Shown

theorem advance (htask : c.server.tasks n = some task)
    (hlists : c.ListsTask task) : Shown { c with server := c.server.advance n task } := by
  have hawaits := h.alone n task htask
  have honly {m : ℕ} {next : DeviceTask} (hnext : (c.server.advance n task).tasks m = some next) : m = n := by
    by_contra hne
    rw [(c.server.advance_of_ne hne task).1] at hnext
    exact hne (some.inj ((h.alone m next hnext).symm.trans hawaits))
  refine ⟨h.registered.advance htask (h.registers (e := .advance n) trivial task htask), fun m next hnext => ?_,
    fun m body hnext => ?_, h.round, fun m id modifiedAt hphase => ?_⟩
  · obtain rfl := honly hnext
    exact hawaits
  · obtain rfl := honly hnext
    exact byId_of_sysinfoInsert hnext
  · have hm : some m = some n := (congrArg SyncPhase.awaits hphase).symm.trans hawaits
    obtain rfl := some.inj hm
    have hshowing := h.showing m id modifiedAt hphase
    rw [htask] at hshowing
    exact showing_advance ((h.registered.heartbeat m id modifiedAt hphase).2 task htask) hshowing hlists

/-- What a change of the agent keeps that begins no request. -/
theorem agent {agent : SyncLoop} (hregistered : Registered { c with agent })
    (hphase : agent.phase = c.agent.phase ∧ agent.sentConns = c.agent.sentConns ∨ c.Free ∧ agent.phase = .idle)
    (hround : agent.infoUploaded.uploaded = true → ∀ id ∈ roundId agent.phase, agent.infoUploaded.id = id) :
    Shown { c with agent } := by
  refine ⟨hregistered, fun m task htask => ?_, h.inserts, hround, fun m id modifiedAt hheartbeat => ?_⟩
  · have hawaits := h.alone m task htask
    rcases hphase with ⟨hsame, -⟩ | ⟨hfree, -⟩
    · exact (congrArg SyncPhase.awaits hsame).trans hawaits
    · exact nomatch (hfree m hawaits).symm.trans htask
  · rcases hphase with ⟨hsame, hsent⟩ | ⟨-, hidle⟩
    · have hshowing := h.showing m id modifiedAt (hsame.symm.trans hheartbeat)
      unfold Showing at hshowing ⊢
      rw [hsent]
      exact hshowing
    · exact nomatch hidle.symm.trans hheartbeat

/-- What a request of the agent keeps. -/
theorem post (hfree : c.Free) {r : DeviceRequest} {agent : SyncLoop}
    (hregistered : (c.post r agent).Registered) (hawaits : agent.phase.awaits = some c.server.arrived)
    (hround : agent.infoUploaded.uploaded = true → ∀ id ∈ roundId agent.phase, agent.infoUploaded.id = id)
    (hshowing : ∀ n id modifiedAt, agent.phase = .heartbeat n id modifiedAt →
      (c.post r agent).Showing id ((c.server.receive r).tasks n)) : (c.post r agent).Shown := by
  have hnone (m : ℕ) : c.server.tasks m = none := by
    by_contra hsome
    obtain ⟨task, htask⟩ := ne_none_iff_exists'.mp hsome
    exact hsome (hfree m (h.alone m task htask))
  have honly {m : ℕ} {task : DeviceTask} (htask : (c.server.receive r).tasks m = some task) : m = c.server.arrived := by
    by_contra hne
    rw [(c.server.receive_of_ne hne r).1] at htask
    exact nomatch (hnone m).symm.trans htask
  refine ⟨hregistered, fun m task htask => ?_, fun m body htask => ?_, hround, hshowing⟩
  · exact honly htask ▸ hawaits
  · obtain rfl := honly htask
    have hparked : (c.server.receive r).tasks c.server.arrived = some (.sysinfoInsert body) := htask
    exact nomatch first_of_receive hparked

theorem upload (hfree : c.Free)
    (hround : c.agent.infoUploaded.uploaded = true → c.agent.infoUploaded.id = c.agent.id) : c.upload.Shown := by
  refine h.post hfree (h.registered.upload hfree) rfl (fun huploaded id hid => ?_) fun _ _ _ hphase => nomatch hphase
  obtain rfl := some.inj hid
  exact hround huploaded

theorem beat (hfree : c.Free) {conns : List Int}
    (hround : c.agent.infoUploaded.uploaded = true → c.agent.infoUploaded.id = id)
    (hconns : c.agent.skips conns = false → c.agent.aliveConns = conns) : (c.beat id conns).Shown := by
  have hregistered := h.registered.beat hfree id conns
  unfold Sync.beat at hregistered ⊢
  split_ifs at hregistered ⊢ with hskips
  · exact h.agent hregistered (.inr ⟨hfree, rfl⟩) fun _ _ hid => nomatch hid
  · refine h.post hfree hregistered rfl (fun huploaded id' hid => ?_) ?_
    · obtain rfl := some.inj hid
      exact hround huploaded
    · rintro n id' modifiedAt hphase
      obtain ⟨rfl, rfl, -⟩ := SyncPhase.heartbeat.inj hphase
      have hparked (body : HeartbeatBody) : (c.server.receive (.heartbeat (some body))).tasks c.server.arrived =
          some (.heartbeatUpdate body) := park_tasks
      rw [hparked]
      refine ⟨rfl, ?_⟩
      rw [← hconns (Bool.eq_false_iff.mpr hskips)]
      rfl

theorem tick : c.tick.Shown := by
  unfold Sync.tick
  split_ifs with hskip
  · exact h
  have hidle : c.agent.phase = .idle := not_not.mp (not_or.mp hskip).1
  have hfree : c.Free := free_of_idle hidle
  have hinfo (huploaded : (c.agent.checkId c.agent.infoUploaded).uploaded = true) :
      (c.agent.checkId c.agent.infoUploaded).id = c.agent.id := by
    obtain ⟨hsame, -, hid⟩ := uploaded_of_checkId huploaded
    rw [hsame, hid]
  have hcheck : Shown { c with agent := { c.agent with infoUploaded := c.agent.checkId c.agent.infoUploaded } } := by
    refine h.agent (h.registered.agent rfl (fun huploaded => ?_) (.inl rfl)) (.inl ⟨rfl, rfl⟩) fun _ id hid => ?_
    · obtain ⟨hsame, hbefore, -⟩ := uploaded_of_checkId huploaded
      exact hsame.symm ▸ h.registered.uploaded hbefore
    · rw [hidle] at hid
      exact nomatch hid
  dsimp only
  split_ifs
  · exact hcheck.upload hfree hinfo
  · exact hcheck.beat hfree hinfo fun _ => rfl

theorem resume (hlists : c.ListsPhase c.agent.phase) : c.resume.Shown := by
  have hregistered := h.registered.resume
  unfold Sync.resume at hregistered ⊢
  cases hphase : c.agent.phase with
  | idle => exact h
  | sysinfo n id username conns =>
    rw [hphase] at hlists
    dsimp only
    cases ha : c.server.answers n with
    | none => exact h
    | some a =>
      have hfree : c.Free := h.registered.free fun m hm => by
        rw [hphase] at hm
        exact some.inj hm ▸ ha
      let infoUploaded := c.agent.infoUploaded.answered a id username c.agent.now
      let heartbeats := if a = .text "SYSINFO_UPDATED" then [] else c.agent.heartbeats
      have hid : infoUploaded.uploaded = true → infoUploaded.id = id := by
        intro huploaded
        have hround (hbefore : c.agent.infoUploaded.uploaded = true) : c.agent.infoUploaded.id = id :=
          h.round hbefore id (by rw [hphase]; rfl)
        unfold infoUploaded InfoUploaded.answered at huploaded ⊢
        split_ifs at huploaded ⊢
        · rfl
        · exact hround huploaded
        · exact hround huploaded
      have hinfo : Shown { c with agent := { c.agent with infoUploaded, heartbeats } } := by
        refine h.agent (h.registered.answered hphase ha) (.inl ⟨rfl, rfl⟩) fun huploaded id' hid' => ?_
        rw [hphase] at hid'
        obtain rfl := some.inj hid'
        exact hid huploaded
      refine hinfo.beat hfree hid fun hskips => ?_
      exact hlists (by rw [ha]; exact some_ne_none a) hskips
  | heartbeat n id modifiedAt =>
    rw [hphase] at hregistered
    dsimp only at hregistered ⊢
    cases ha : c.server.answers n with
    | none => exact h
    | some a =>
      rw [ha] at hregistered
      have hfree : c.Free := h.registered.free fun m hm => by
        rw [hphase] at hm
        exact some.inj hm ▸ ha
      cases a with
      | heartbeat answer => exact h.agent hregistered (.inr ⟨hfree, rfl⟩) fun _ _ hid => nomatch hid
      | result text => exact h.agent hregistered (.inr ⟨hfree, rfl⟩) fun _ _ hid => nomatch hid
      | text text => exact h.agent hregistered (.inr ⟨hfree, rfl⟩) fun _ _ hid => nomatch hid
      | error code text => exact h.agent hregistered (.inr ⟨hfree, rfl⟩) fun _ _ hid => nomatch hid

theorem step {e : SyncEvent} (halone : Alone e) (hlists : c.Lists e) : (c.step e).Shown := by
  have hregistered := h.registered.step (h.registers halone)
  cases e with
  | configure id sysUsername details stopped => exact h.agent hregistered (.inl ⟨rfl, rfl⟩) h.round
  | connections conns => exact h.agent hregistered (.inl ⟨rfl, rfl⟩) h.round
  | pass millis => exact h.agent hregistered (.inl ⟨rfl, rfl⟩) h.round
  | tick => exact h.tick
  | resume => exact h.resume hlists
  | request r => exact nomatch halone
  | advance n =>
    cases htask : c.server.tasks n with
    | none =>
      rw [Sync.step, (step_idle htask).1]
      exact h
    | some task =>
      rw [Sync.step, step_advance htask]
      exact h.advance htask (hlists task htask)

end Shown

end Shown

end Steps

/-- After each heartbeat of an agent that nobody interferes with, the server shows the connections that the agent had when it
sent it, in every state of every run in which no list is withheld or outdated. -/
theorem connections_displayed {uuid : String} {events : List SyncEvent}
    (h : RunMeets step (fun c e => Alone e ∧ c.Lists e) (start uuid) events) :
    (runEvents step (start uuid) events).Displays := by
  have hstart : (start uuid).Shown :=
    { registered := registered_start uuid
      alone := fun _ _ htask => nomatch htask
      inserts := fun _ _ htask => nomatch htask
      round := fun huploaded => nomatch huploaded
      showing := fun _ _ _ hphase => nomatch hphase }
  exact (runEvents_invariant (I := Shown) (fun _ _ hshown hmeets => hshown.step hmeets.1 hmeets.2) hstart h).displays

/-- An agent with a connection uploads its sysinfo, and its heartbeat is answered. -/
def sampleConnection : List SyncEvent := .connections [7] :: sampleRegistration

theorem connections_displayed_sample : (runEvents step (start "uuid") sampleConnection).Displays :=
  connections_displayed (by decide)

/-- The last connection closes before the next heartbeat. -/
def sampleClosed : List SyncEvent :=
  sampleConnection ++ [.resume, .connections [], .pass 15000, .tick, .advance 2, .advance 2, .advance 2]

/-- The server keeps showing the last connections of an agent that has none any more. -/
theorem connections_withheld : ¬ (runEvents step (start "uuid") sampleClosed).Displays := by
  intro h
  have hrow := (h 2 "id" 0 (by decide) fun body htask => ?_).2
    ⟨0, "id", { (SyncLoop.sysinfoBody { uuid := "uuid" } "id").columns with conns := [7] }⟩ (by decide)
  · exact absurd hrow (by decide)
  · have hnone : (runEvents step (start "uuid") sampleClosed).server.tasks 2 = none := by decide
    exact nomatch hnone.symm.trans htask

end Sync

end UnyDesk.Api
