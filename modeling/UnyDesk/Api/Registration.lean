import UnyDesk.Api.Sync

/-!
# The registration of an agent

The server looks for the row of an id in one statement and inserts or updates it in another, and an answer to a heartbeat
never tells an agent that its row is gone. An agent that counts itself as uploaded has a row, and none of its requests fails,
where nobody else registers its id between these two statements and nobody deletes the row that it counts on.
-/

namespace UnyDesk.Api

open Lib DeviceServer DeviceTable List Option

namespace Sync

/-- The statement that found the row, or the answer, with which an upload succeeds. -/
def confirms (task : Option DeviceTask) (answer : Option DeviceAnswer) : Bool :=
  match task with
  | some (.sysinfoUpdate _) => true
  | _ => decide (answer = some (.text "SYSINFO_UPDATED"))

/-- The ids whose rows the agent counts on. -/
def claims (c : Sync) : List String :=
  (if c.agent.infoUploaded.uploaded = true then [c.agent.infoUploaded.id] else []) ++ match c.agent.phase with
    | .sysinfo n id _ _ => if confirms (c.server.tasks n) (c.server.answers n) = true then [id] else []
    | _ => []

/-- No request of the agent has failed, and an agent that counts as uploaded has a row or was told to upload again. -/
def Agrees (c : Sync) : Prop :=
  (∀ n ∈ c.agent.requests, ∀ code text, c.server.answers n = some (.error code text) → code < 500) ∧
    (c.agent.infoUploaded.uploaded = true → ∀ n ∈ c.agent.heartbeats, ∀ answer,
      c.server.answers n = some (.heartbeat answer) →
      (c.server.devices.byId c.agent.infoUploaded.id).isSome = true ∨ answer.sysinfo = true)

/-- What a statement finds. -/
def RegistersTask (c : Sync) (n : ℕ) : DeviceTask → Prop
  | .sysinfoInsert body => c.agent.phase.awaits = some n → c.server.devices.byId body.id = none
  | .delete guid => ∀ row ∈ c.server.devices.rows, row.guid = guid → row.id ∉ c.claims
  | _ => True

/-- No row is there when the agent inserts its own, and no deletion takes a row that the agent counts on. -/
def Registers (c : Sync) : SyncEvent → Prop
  | .advance n => ∀ task ∈ c.server.tasks n, c.RegistersTask n task
  | _ => True

instance (c : Sync) (n : ℕ) (task : DeviceTask) : Decidable (c.RegistersTask n task) :=
  match task with
  | .deployCheck _ _ _ | .deployUpsert _ _ _ | .cliUpsert _ _ _ _ | .sysinfoSelect _ | .sysinfoInsert _ | .sysinfoUpdate _
  | .heartbeatUpdate _ | .heartbeatDelete _ | .heartbeatSelect _ _ | .delete _ | .disconnectSelect _ _
  | .disconnectInsert _ _ _ => by unfold RegistersTask; infer_instance

instance (c : Sync) (e : SyncEvent) : Decidable (c.Registers e) :=
  match e with
  | .configure _ _ _ _ | .connections _ | .pass _ | .tick | .resume | .request _ | .advance _ => by
    unfold Registers; infer_instance

/-- The statements of an upload, with the row that its last one has found. -/
def UploadTask (devices : DeviceTable) (id : String) : DeviceTask → Prop
  | .sysinfoSelect body | .sysinfoInsert body => body.id = id
  | .sysinfoUpdate _ => (devices.byId id).isSome = true
  | _ => False

def BeatTask : DeviceTask → Prop
  | .heartbeatUpdate _ | .heartbeatDelete _ | .heartbeatSelect _ _ => True
  | _ => False

/-- What a run keeps. -/
structure Registered (c : Sync) : Prop where
  waits : c.server.Waits
  uploaded : c.agent.infoUploaded.uploaded = true → (c.server.devices.byId c.agent.infoUploaded.id).isSome = true
  requests : ∀ n ∈ c.agent.requests, n < c.server.arrived ∧ (c.agent.phase.awaits = some n ∨ c.server.tasks n = none) ∧
    ∀ code text, c.server.answers n = some (.error code text) → code < 500
  sysinfo : ∀ n id username conns, c.agent.phase = .sysinfo n id username conns → n ∈ c.agent.requests ∧
    (∀ task, c.server.tasks n = some task → UploadTask c.server.devices id task) ∧
    (c.server.answers n = some (.text "SYSINFO_UPDATED") → (c.server.devices.byId id).isSome = true)
  heartbeat : ∀ n id modifiedAt, c.agent.phase = .heartbeat n id modifiedAt → n ∈ c.agent.requests ∧
    ∀ task, c.server.tasks n = some task → BeatTask task

section Steps

variable {c : Sync} {n : ℕ} {task : DeviceTask} {id : String} {a : DeviceAnswer}

theorem Registered.agrees (h : c.Registered) : c.Agrees :=
  ⟨fun n hn code text ha => (h.requests n hn).2.2 code text ha, fun huploaded _ _ _ _ => .inl (h.uploaded huploaded)⟩

/-- What the agent counts on is there. -/
theorem Registered.claimed (h : c.Registered) (hid : id ∈ c.claims) : (c.server.devices.byId id).isSome = true := by
  rcases mem_append.mp hid with hmem | hmem
  · by_cases huploaded : c.agent.infoUploaded.uploaded = true
    · rw [if_pos huploaded] at hmem
      rw [mem_singleton.mp hmem]
      exact h.uploaded huploaded
    · rw [if_neg huploaded] at hmem
      exact nomatch hmem
  · cases hphase : c.agent.phase with
    | idle =>
      rw [hphase] at hmem
      exact nomatch hmem
    | heartbeat n id modifiedAt =>
      rw [hphase] at hmem
      exact nomatch hmem
    | sysinfo n id' username conns =>
      rw [hphase] at hmem
      obtain ⟨-, htask, hanswer⟩ := h.sysinfo n id' username conns hphase
      by_cases hconfirms : confirms (c.server.tasks n) (c.server.answers n) = true
      · change id ∈ (if _ then _ else _) at hmem
        rw [if_pos hconfirms] at hmem
        rw [mem_singleton.mp hmem]
        unfold confirms at hconfirms
        split at hconfirms
        · exact htask _ ‹_›
        · exact hanswer (of_decide_eq_true hconfirms)
      · change id ∈ (if _ then _ else _) at hmem
        rw [if_neg hconfirms] at hmem
        exact nomatch hmem

/-- A row that the agent counts on survives a statement. -/
theorem Registered.byId_advance (h : c.Registered) (hregisters : c.RegistersTask n task)
    (hid : id ∈ c.claims) : ((c.server.advance n task).devices.byId id).isSome = true := by
  refine c.server.advance_byId n ?_ (h.claimed hid)
  rintro guid rfl row hrow hguid
  obtain ⟨hmem, rfl⟩ := mem_of_byId hrow
  exact hregisters row hmem hguid hid

/-- What a statement of an upload leaves behind: the next one, or the answer with the row. -/
theorem upload_advance (hwaits : c.server.Waits) (htask : c.server.tasks n = some task)
    (hupload : UploadTask c.server.devices id task) (hawaits : c.agent.phase.awaits = some n)
    (hregisters : c.RegistersTask n task) :
    (∀ next, (c.server.advance n task).tasks n = some next → UploadTask (c.server.advance n task).devices id next) ∧
      ((c.server.advance n task).answers n = some (.text "SYSINFO_UPDATED") →
        ((c.server.advance n task).devices.byId id).isSome = true) ∧
      ∀ code text, (c.server.advance n task).answers n = some (.error code text) → code < 500 := by
  have hanswer := (hwaits.task n task htask).2
  cases task with
  | sysinfoSelect body =>
    have hparked {next : DeviceTask} (hnext : UploadTask c.server.devices id next) :
        (∀ next', (c.server.park n next).tasks n = some next' → UploadTask (c.server.park n next).devices id next') ∧
          ((c.server.park n next).answers n = some (.text "SYSINFO_UPDATED") →
            ((c.server.park n next).devices.byId id).isSome = true) ∧
          ∀ code text, (c.server.park n next).answers n = some (.error code text) → code < 500 := by
      refine ⟨fun next' heq => ?_, fun ha => ?_, fun code text ha => ?_⟩
      · obtain rfl := some.inj (park_tasks.symm.trans heq)
        exact hnext
      · cases hanswer.symm.trans ha
      · cases hanswer.symm.trans ha
    rw [advance]
    split_ifs with hrow
    · exact hparked hupload
    · refine hparked ?_
      obtain rfl : body.id = id := hupload
      simpa [UploadTask, isSome_iff_ne_none] using hrow
  | sysinfoInsert body =>
    obtain rfl : body.id = id := hupload
    rw [advance]
    cases hinsert : c.server.devices.insert body.id body.columns with
    | none =>
      have htaken := insert_eq_none.mp hinsert
      rw [hregisters hawaits] at htaken
      cases htaken
    | some devices =>
      refine ⟨fun next hnext => ?_, fun _ => ?_, fun code text ha => ?_⟩
      · cases answer_tasks.symm.trans hnext
      · have hmem := (mem_insert hinsert).mpr (.inl rfl)
        have hrow := byId_eq_some hmem
        exact isSome_iff_exists.mpr ⟨_, hrow⟩
      · cases answer_answers.symm.trans ha
  | sysinfoUpdate body =>
    refine ⟨fun next hnext => ?_, fun _ => ?_, fun code text ha => ?_⟩
    · cases answer_tasks.symm.trans hnext
    · exact (keepsIds_update c.server.devices body.id body.coalesce).byId hupload
    · cases answer_answers.symm.trans ha
  | _ => cases hupload

/-- What a statement of a heartbeat leaves behind. -/
theorem beat_advance (hwaits : c.server.Waits) (htask : c.server.tasks n = some task) (hbeat : BeatTask task) :
    (∀ next, (c.server.advance n task).tasks n = some next → BeatTask next) ∧
      ∀ code text, (c.server.advance n task).answers n = some (.error code text) → code < 500 := by
  have hanswer := (hwaits.task n task htask).2
  cases task with
  | heartbeatUpdate body =>
    refine ⟨fun next hnext => ?_, fun code text ha => nomatch hanswer.symm.trans ha⟩
    obtain rfl := some.inj (park_tasks.symm.trans hnext)
    trivial
  | heartbeatDelete body =>
    refine ⟨fun next hnext => ?_, fun code text ha => nomatch hanswer.symm.trans ha⟩
    obtain rfl := some.inj (park_tasks.symm.trans hnext)
    trivial
  | heartbeatSelect body orders =>
    refine ⟨fun next hnext => ?_, fun code text ha => ?_⟩
    · exact nomatch answer_tasks.symm.trans hnext
    · exact nomatch answer_answers.symm.trans ha
  | _ => exact nomatch hbeat

/-- What a statement keeps. -/
theorem Registered.advance (h : c.Registered) (htask : c.server.tasks n = some task)
    (hregisters : c.RegistersTask n task) : Registered { c with server := c.server.advance n task } := by
  have hothers {m : ℕ} (hne : m ≠ n) := c.server.advance_of_ne hne task
  have harrived := (c.server.advance_requests n task).2
  have hrow {id : String} (hid : id ∈ c.claims) := h.byId_advance hregisters hid
  have hsysinfo {id username : String} {conns : List Int} (hphase : c.agent.phase = .sysinfo n id username conns) :=
    upload_advance h.waits htask ((h.sysinfo n id username conns hphase).2.1 task htask)
      (by rw [hphase]; rfl) hregisters
  have hheartbeat {id : String} {modifiedAt : Int} (hphase : c.agent.phase = .heartbeat n id modifiedAt) :=
    beat_advance h.waits htask ((h.heartbeat n id modifiedAt hphase).2 task htask)
  refine ⟨h.waits.advance htask, fun huploaded => ?_, fun m hm => ?_, fun m id username conns hphase => ?_,
    fun m id modifiedAt hphase => ?_⟩
  · refine hrow ?_
    rw [claims, if_pos huploaded]
    exact mem_cons_self
  · obtain ⟨hlt, hphase, herror⟩ := h.requests m hm
    refine ⟨harrived.symm ▸ hlt, ?_, ?_⟩
    · by_cases hne : m = n
      · subst hne
        rw [htask] at hphase
        exact .inl (hphase.resolve_right fun heq => nomatch heq)
      · change _ ∨ (c.server.advance n task).tasks m = none
        rw [(hothers hne).1]
        exact hphase
    · by_cases hne : m = n
      · subst hne
        rw [htask] at hphase
        have hawaits := hphase.resolve_right fun heq => nomatch heq
        cases hcase : c.agent.phase with
        | idle =>
          rw [hcase] at hawaits
          exact nomatch hawaits
        | sysinfo m' id username conns =>
          rw [hcase] at hawaits
          obtain rfl := some.inj hawaits
          exact (hsysinfo hcase).2.2
        | heartbeat m' id modifiedAt =>
          rw [hcase] at hawaits
          obtain rfl := some.inj hawaits
          exact (hheartbeat hcase).2
      · change ∀ code text, (c.server.advance n task).answers m = _ → _
        rw [(hothers hne).2]
        exact herror
  · obtain ⟨hmem, htasks, hanswers⟩ := h.sysinfo m id username conns hphase
    refine ⟨hmem, ?_⟩
    change (∀ next, (c.server.advance n task).tasks m = some next → _) ∧ ((c.server.advance n task).answers m = _ → _)
    by_cases hne : m = n
    · subst hne
      exact ⟨(hsysinfo hphase).1, (hsysinfo hphase).2.1⟩
    · rw [(hothers hne).1, (hothers hne).2]
      -- The row that the upload has found is one that the agent counts on.
      have hclaimed (hconfirms : confirms (c.server.tasks m) (c.server.answers m) = true) : id ∈ c.claims := by
        refine mem_append_right _ ?_
        rw [hphase]
        change id ∈ (if _ then _ else _)
        rw [if_pos hconfirms]
        exact mem_cons_self
      refine ⟨fun next hnext => ?_, fun ha => hrow (hclaimed ?_)⟩
      · cases next with
        | sysinfoSelect body => exact htasks _ hnext
        | sysinfoInsert body => exact htasks _ hnext
        | sysinfoUpdate body => exact hrow (hclaimed (by rw [hnext]; rfl))
        | _ => exact nomatch htasks _ hnext
      · have hnone : c.server.tasks m = none := by
          by_contra hsome
          obtain ⟨next, hnext⟩ := ne_none_iff_exists'.mp hsome
          exact nomatch (h.waits.task m next hnext).2.symm.trans ha
        rw [hnone, ha]
        rfl
  · obtain ⟨hmem, htasks⟩ := h.heartbeat m id modifiedAt hphase
    refine ⟨hmem, ?_⟩
    change ∀ next, (c.server.advance n task).tasks m = some next → _
    by_cases hne : m = n
    · subst hne
      exact (hheartbeat hphase).1
    · rw [(hothers hne).1]
      exact htasks

/-- What a request of another client keeps. -/
theorem Registered.receive (h : c.Registered) (r : DeviceRequest) :
    Registered { c with server := c.server.step (.request r) } := by
  have hothers {m : ℕ} (hm : m ∈ c.agent.requests) :=
    c.server.receive_of_ne (Nat.ne_of_lt (h.requests m hm).1) r
  have hdevices : (c.server.step (.request r)).devices = c.server.devices := (c.server.receive_arrived r).2
  have harrived : (c.server.step (.request r)).arrived = c.server.arrived + 1 := (c.server.receive_arrived r).1
  refine ⟨h.waits.step (.request r), ?_, fun m hm => ?_, fun m id username conns hphase => ?_, fun m id modifiedAt hphase => ?_⟩
  · exact hdevices.symm ▸ h.uploaded
  · obtain ⟨hlt, hphase, herror⟩ := h.requests m hm
    refine ⟨harrived.symm ▸ Nat.lt_succ_of_lt hlt, ?_, ?_⟩
    · change _ ∨ (c.server.receive r).tasks m = none
      rw [(hothers hm).1]
      exact hphase
    · change ∀ code text, (c.server.receive r).answers m = _ → _
      rw [(hothers hm).2]
      exact herror
  · obtain ⟨hmem, htasks, hanswers⟩ := h.sysinfo m id username conns hphase
    refine ⟨hmem, ?_⟩
    change (∀ next, (c.server.receive r).tasks m = some next → UploadTask (c.server.step (.request r)).devices id next) ∧
      ((c.server.receive r).answers m = _ → ((c.server.step (.request r)).devices.byId id).isSome = true)
    rw [hdevices, (hothers hmem).1, (hothers hmem).2]
    exact ⟨htasks, hanswers⟩
  · obtain ⟨hmem, htasks⟩ := h.heartbeat m id modifiedAt hphase
    refine ⟨hmem, ?_⟩
    change ∀ next, (c.server.receive r).tasks m = some next → _
    rw [(hothers hmem).1]
    exact htasks

/-- The agent waits for nothing that is still on its way. -/
def Free (c : Sync) : Prop := ∀ m, c.agent.phase.awaits = some m → c.server.tasks m = none

section

variable (h : c.Registered)
include h

namespace Registered

/-- What the change of an agent keeps that begins no request. -/
theorem agent {agent : SyncLoop} (hrequests : agent.requests = c.agent.requests)
    (huploaded : agent.infoUploaded.uploaded = true → (c.server.devices.byId agent.infoUploaded.id).isSome = true)
    (hphase : agent.phase = c.agent.phase ∨ c.Free ∧ agent.phase = .idle) : Registered { c with agent } := by
  refine ⟨h.waits, huploaded, fun m hm => ?_, fun m id username conns hsysinfo => ?_, fun m id modifiedAt hheartbeat => ?_⟩
  · obtain ⟨hlt, hawaits, herror⟩ := h.requests m (hrequests ▸ hm)
    refine ⟨hlt, ?_, herror⟩
    rcases hphase with hsame | ⟨hfree, hidle⟩
    · exact hsame.symm ▸ hawaits
    · exact .inr (hawaits.elim (hfree m) id)
  · rcases hphase with hsame | ⟨hfree, hidle⟩
    · exact hrequests.symm ▸ h.sysinfo m id username conns (hsame.symm.trans hsysinfo)
    · exact nomatch hidle.symm.trans hsysinfo
  · rcases hphase with hsame | ⟨hfree, hidle⟩
    · exact hrequests.symm ▸ h.heartbeat m id modifiedAt (hsame.symm.trans hheartbeat)
    · exact nomatch hidle.symm.trans hheartbeat

/-- What a request of the agent keeps. -/
theorem post (hfree : c.Free) {r : DeviceRequest} {agent : SyncLoop}
    (hrequests : agent.requests = c.agent.requests) (hinfo : agent.infoUploaded = c.agent.infoUploaded)
    (hawaits : agent.phase.awaits = some c.server.arrived)
    (herror : ∀ code text, (c.server.receive r).answers c.server.arrived = some (.error code text) → code < 500)
    (hsysinfo : ∀ n id username conns, agent.phase = .sysinfo n id username conns →
      (∀ task, (c.server.receive r).tasks n = some task → UploadTask c.server.devices id task) ∧
        (c.server.receive r).answers n ≠ some (.text "SYSINFO_UPDATED"))
    (hheartbeat : ∀ n id modifiedAt, agent.phase = .heartbeat n id modifiedAt →
      ∀ task, (c.server.receive r).tasks n = some task → BeatTask task) : (c.post r agent).Registered := by
  have hdevices : (c.server.step (.request r)).devices = c.server.devices := (c.server.receive_arrived r).2
  have hidle : Registered { c with agent := { c.agent with phase := .idle } } :=
    h.agent rfl h.uploaded (.inr ⟨hfree, rfl⟩)
  have hreceive := hidle.receive r
  have hself {n : ℕ} (hn : agent.phase.awaits = some n) : n = c.server.arrived := some.inj (hn.symm.trans hawaits)
  refine ⟨hreceive.waits, fun huploaded => ?_, fun m hm => ?_, fun m id username conns hphase => ?_,
    fun m id modifiedAt hphase => ?_⟩
  · have hrow := hreceive.uploaded (hinfo ▸ huploaded)
    exact hinfo.symm ▸ hrow
  · rcases mem_cons.mp hm with rfl | hold
    · refine ⟨?_, .inl hawaits, herror⟩
      exact (c.server.receive_arrived r).1.symm ▸ Nat.lt_succ_self _
    · obtain ⟨hlt, hphase, hold⟩ := hreceive.requests m (hrequests ▸ hold)
      exact ⟨hlt, .inr (hphase.resolve_left fun heq => nomatch heq), hold⟩
  · have hn := hself (congrArg SyncPhase.awaits hphase)
    obtain ⟨htasks, hanswers⟩ := hsysinfo m id username conns hphase
    refine ⟨hn ▸ mem_cons_self, fun task htask => ?_, fun ha => absurd ha hanswers⟩
    exact hdevices.symm ▸ htasks task htask
  · have hn := hself (congrArg SyncPhase.awaits hphase)
    exact ⟨hn ▸ mem_cons_self, hheartbeat m id modifiedAt hphase⟩

theorem upload (hfree : c.Free) : c.upload.Registered := by
  refine h.post hfree rfl rfl rfl (fun code text ha => ?_) ?_ fun _ _ _ hphase => nomatch hphase
  · rw [DeviceServer.receive] at ha
    split_ifs at ha
    · obtain ⟨rfl, -⟩ := DeviceAnswer.error.inj (some.inj (DeviceServer.answer_answers.symm.trans ha))
      decide
    · exact nomatch h.waits.fresh.2.symm.trans ha
  · rintro n id username conns hphase
    obtain ⟨rfl, rfl, -, -⟩ := SyncPhase.sysinfo.inj hphase
    rw [DeviceServer.receive]
    split_ifs
    · refine ⟨fun task htask => ?_, fun ha => ?_⟩
      · exact nomatch DeviceServer.answer_tasks.symm.trans htask
      · exact nomatch DeviceServer.answer_answers.symm.trans ha
    · refine ⟨fun task htask => ?_, fun ha => ?_⟩
      · obtain rfl := some.inj (DeviceServer.park_tasks.symm.trans htask)
        rfl
      · exact nomatch h.waits.fresh.2.symm.trans ha

theorem beat (hfree : c.Free) (id : String) (conns : List Int) : (c.beat id conns).Registered := by
  unfold Sync.beat
  split_ifs
  · exact h.agent rfl h.uploaded (.inr ⟨hfree, rfl⟩)
  · refine h.post hfree rfl rfl rfl (fun code text ha => ?_) (fun _ _ _ _ hphase => nomatch hphase) ?_
    · exact nomatch h.waits.fresh.2.symm.trans ha
    · rintro n id' modifiedAt hphase task htask
      obtain ⟨rfl, -, -⟩ := SyncPhase.heartbeat.inj hphase
      obtain rfl := some.inj (park_tasks.symm.trans htask)
      trivial

/-- An answered request does not wait for a statement. -/
theorem free (ha : ∀ m, c.agent.phase.awaits = some m → c.server.answers m = some a) : c.Free := by
  intro m hm
  by_contra hsome
  obtain ⟨task, htask⟩ := ne_none_iff_exists'.mp hsome
  exact nomatch (h.waits.task m task htask).2.symm.trans (ha m hm)

end Registered

end

theorem free_of_idle (hidle : c.agent.phase = .idle) : c.Free := by
  intro m hm
  rw [hidle] at hm
  exact nomatch hm

/-- An upload that counts after the check of a round is one for the id of the agent, and counted before. -/
theorem uploaded_of_checkId {agent : SyncLoop} {info : InfoUploaded} (h : (agent.checkId info).uploaded = true) :
    agent.checkId info = info ∧ info.uploaded = true ∧ info.id = agent.id := by
  unfold SyncLoop.checkId at h ⊢
  split_ifs at h ⊢ with hother
  refine ⟨rfl, h, ?_⟩
  by_contra hne
  exact hother ⟨h, Ne.symm hne⟩

section

variable (h : c.Registered)
include h

theorem Registered.tick : c.tick.Registered := by
  unfold Sync.tick
  split_ifs with hskip
  · exact h
  have hidle : c.agent.phase = .idle := not_not.mp (not_or.mp hskip).1
  have hfree : c.Free := free_of_idle hidle
  have hcheck : Registered
      { c with agent := { c.agent with infoUploaded := c.agent.checkId c.agent.infoUploaded } } := by
    refine h.agent rfl (fun huploaded => ?_) (.inl rfl)
    obtain ⟨hsame, hbefore, -⟩ := uploaded_of_checkId huploaded
    exact hsame.symm ▸ h.uploaded hbefore
  dsimp only
  split_ifs
  · exact hcheck.upload hfree
  · exact hcheck.beat hfree _ _

/-- What the answer to an upload leaves of the agent. -/
theorem Registered.answered {id username : String} {conns : List Int}
    (hphase : c.agent.phase = .sysinfo n id username conns) (ha : c.server.answers n = some a)
    {heartbeats : List ℕ} :
    Registered { c with agent := { c.agent with
      infoUploaded := c.agent.infoUploaded.answered a id username c.agent.now, heartbeats } } := by
  obtain ⟨-, -, hrow⟩ := h.sysinfo n id username conns hphase
  refine h.agent rfl (fun huploaded => ?_) (.inl rfl)
  unfold InfoUploaded.answered at huploaded ⊢
  split_ifs at huploaded ⊢ with hupdated hunknown
  · exact hrow (ha.trans (congrArg some hupdated))
  · exact h.uploaded huploaded
  · exact h.uploaded huploaded

theorem Registered.resume : c.resume.Registered := by
  unfold Sync.resume
  cases hphase : c.agent.phase with
  | idle => exact h
  | sysinfo n id username conns =>
    dsimp only
    cases ha : c.server.answers n with
    | none => exact h
    | some a =>
      have hfree : c.Free := h.free fun m hm => by
        rw [hphase] at hm
        exact some.inj hm ▸ ha
      exact (h.answered hphase ha).beat hfree id conns
  | heartbeat n id modifiedAt =>
    dsimp only
    cases ha : c.server.answers n with
    | none => exact h
    | some a =>
      have hfree : c.Free := h.free fun m hm => by
        rw [hphase] at hm
        exact some.inj hm ▸ ha
      cases a with
      | heartbeat answer =>
        refine h.agent rfl (fun huploaded => h.uploaded ?_) (.inr ⟨hfree, rfl⟩)
        exact (Bool.and_eq_true_iff.mp huploaded).1
      | result text => exact h.agent rfl h.uploaded (.inr ⟨hfree, rfl⟩)
      | text text => exact h.agent rfl h.uploaded (.inr ⟨hfree, rfl⟩)
      | error code text => exact h.agent rfl h.uploaded (.inr ⟨hfree, rfl⟩)

theorem Registered.step {e : SyncEvent} (hregisters : c.Registers e) : (c.step e).Registered := by
  cases e with
  | configure id sysUsername details stopped => exact h.agent rfl h.uploaded (.inl rfl)
  | connections conns => exact h.agent rfl h.uploaded (.inl rfl)
  | pass millis => exact h.agent rfl h.uploaded (.inl rfl)
  | tick => exact h.tick
  | resume => exact h.resume
  | request r => exact h.receive r
  | advance n =>
    cases htask : c.server.tasks n with
    | none =>
      rw [Sync.step, (step_idle htask).1]
      exact h
    | some task =>
      rw [Sync.step, step_advance htask]
      exact h.advance htask (hregisters task htask)

end

end Steps

/-- An agent and a server that have not met. -/
def start (uuid : String) : Sync := { agent := { uuid } }

theorem registered_start (uuid : String) : (start uuid).Registered where
  waits := ⟨fun _ _ htask => (nomatch htask), fun _ _ ha => nomatch ha⟩
  uploaded huploaded := nomatch huploaded
  requests _ hmem := nomatch hmem
  sysinfo _ _ _ _ hphase := nomatch hphase
  heartbeat _ _ _ hphase := nomatch hphase

/-- No request of the agent fails, and an agent that counts as uploaded after a heartbeat was answered has a row or was told
to upload again, in every state of every run in which its rows are left to it. -/
theorem registration_agrees {uuid : String} {events : List SyncEvent}
    (h : RunMeets step Registers (start uuid) events) : (runEvents step (start uuid) events).Agrees :=
  (runEvents_invariant (I := Registered) (fun _ _ hregistered hregisters => hregistered.step hregisters)
    (registered_start uuid) h).agrees

/-- An agent uploads its sysinfo and sends a heartbeat. -/
def sampleRegistration : List SyncEvent :=
  [.configure "id" "user" { id := "" } false, .tick, .advance 0, .advance 0, .resume, .advance 1, .advance 1, .advance 1]

theorem registration_agrees_sample : (runEvents step (start "uuid") (sampleRegistration ++ [.resume])).Agrees :=
  registration_agrees (by decide)

/-- Another client registers the id between the two statements of the upload. -/
def sampleRace : List SyncEvent :=
  [.configure "id" "user" { id := "" } false, .tick, .advance 0, .request (.sysinfo { id := "id" }), .advance 1,
    .advance 1, .advance 0]

/-- An upload that another client overtakes fails, and an agent whose row was deleted is not told so. -/
theorem registration_disagrees : ¬ (runEvents step (start "uuid") sampleRace).Agrees ∧
      ¬ (runEvents step (start "uuid") (sampleRegistration ++ [.resume, .request (.delete 0), .advance 2, .pass 15000,
        .tick, .advance 3, .advance 3, .advance 3])).Agrees := by
  constructor
  · intro h
    have hcode := h.1 0 (by decide) 500 "duplicate key value violates unique constraint" (by decide)
    exact absurd hcode (by decide)
  · intro h
    rcases h.2 (by decide) 3 (by decide) {} (by decide) with hrow | htold
    · exact absurd hrow (by decide)
    · exact nomatch htold

end Sync

end UnyDesk.Api
