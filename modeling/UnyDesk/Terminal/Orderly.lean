import Mathlib.Data.List.Nodup
import UnyDesk.Terminal.Streams

/-!
# Orderly runs of a terminal service

A run is orderly where a terminal is opened when nothing about it is on its way to the client any more, and a session is
read only for the client that opened it last, under the id that it has there. In such a run a terminal that is said to
have closed stays silent until it is opened again.
-/

namespace UnyDesk

open Lib Function TerminalResponse TerminalSession TerminalStreams List Prod
open Prod (fst snd)

namespace TerminalResponse

def opens (terminalId : Int) : TerminalResponse → Bool
  | .opened message => message.terminalId = terminalId
  | _ => false

def closes (terminalId : Int) : TerminalResponse → Bool
  | .closed message => message.terminalId = terminalId
  | _ => false

/-- What a data response writes to the terminal. -/
def dataFor (codec : Codec) (terminalId : Int) : TerminalResponse → Option Bytes
  | .data message => if message.terminalId = terminalId then some (message.payload codec) else none
  | _ => none

def isDataFor (terminalId : Int) : TerminalResponse → Bool
  | .data message => message.terminalId = terminalId
  | _ => false

end TerminalResponse

/-- The responses since the terminal was opened last. -/
def sinceOpened (terminalId : Int) (responses : List TerminalResponse) : List TerminalResponse :=
  responses.rtakeWhile fun response => !response.opens terminalId

/-- The data for a terminal, one entry for each response. -/
def payloads (codec : Codec) (terminalId : Int) (responses : List TerminalResponse) : List Bytes :=
  responses.filterMap (·.dataFor codec terminalId)

/-- No data response for the terminal follows one that says that it has closed. -/
def SilentAfterClosed (terminalId : Int) (responses : List TerminalResponse) : Prop :=
  responses.Pairwise fun response later => response.closes terminalId = true → later.isDataFor terminalId = false

namespace TerminalStreams

/-- The responses that are on their way to the client. -/
def inFlight (s : TerminalStreams) (connection : ℕ) : List TerminalResponse :=
  s.queues connection ++ (s.polls connection).responses

/-- A terminal is opened when nothing about it is on its way and no run loop is about to remove it, a session is read
for the client that opened it last, and a terminal is said to be closed when no data for it are on their way and the
session that the client opened last under the id is not still to be read. -/
def Orderly (s : TerminalStreams) : TerminalEvent → Prop
  | .openTerminal connection request spawned =>
    (s.target request.terminalId).isSome ∨ spawned.isOk →
      (∀ response ∈ s.inFlight connection, response.closes request.terminalId = false ∧
        response.isDataFor request.terminalId = false) ∧
      ∀ connection', request.terminalId ∉ (s.polls connection').closedTerminals
  | .closeTerminal connection terminalId killed =>
    ∀ object, sessionAt s.sessions terminalId = some object → ((s.objects object).child.isSome → killed.isOk) →
      (∀ response ∈ s.inFlight connection, response.isDataFor terminalId = false) ∧
        ∀ object', s.opened object' = some (connection, terminalId) → (terminalId, object') ∉ (s.polls connection).todo
  | .read connection _ _ => ∀ terminalId object, (s.polls connection).todo.head? = some (terminalId, object) →
      ((s.objects object).state ≠ .closed → s.opened object = some (connection, terminalId)) ∧
      ((s.objects object).shouldSendClosed = true →
        ∀ object', s.opened object' = some (connection, terminalId) → object' = object)
  | _ => True

end TerminalStreams

section Responses

variable {codec : Codec} {terminalId terminalId' : Int} {responses responses' : List TerminalResponse}
  {response : TerminalResponse}

theorem sinceOpened_concat (h : response.opens terminalId = false) :
    sinceOpened terminalId (responses ++ [response]) = sinceOpened terminalId responses ++ [response] := by
  simp [sinceOpened, h]

theorem sinceOpened_concat_of_opens (h : response.opens terminalId = true) :
    sinceOpened terminalId (responses ++ [response]) = [] := by
  simp [sinceOpened, h]

@[simp] theorem payloads_append : payloads codec terminalId (responses ++ responses') =
    payloads codec terminalId responses ++ payloads codec terminalId responses' :=
  filterMap_append

theorem dataFor_eq_none (h : response.isDataFor terminalId = false) : response.dataFor codec terminalId = none := by
  cases response with
  | data data => simpa [dataFor, isDataFor] using h
  | _ => rfl

theorem payloads_eq_nil (h : ∀ response ∈ responses, response.isDataFor terminalId = false) :
    payloads codec terminalId responses = [] := by
  rw [payloads, filterMap_eq_nil_iff]
  exact fun response hmem => dataFor_eq_none (h response hmem)

theorem payload_createTerminalDataResponse (hcodec : ∀ bytes, codec.decompress (codec.compress bytes) = bytes)
    (data : Bytes) : (createTerminalDataResponse codec terminalId data).dataFor codec terminalId = some data := by
  simp only [createTerminalDataResponse, dataFor, if_pos, Option.some.injEq, TerminalData.payload, TransferJob.packed]
  split <;> simp [hcodec]

theorem payloads_create (hcodec : ∀ bytes, codec.decompress (codec.compress bytes) = bytes) (chunks : List Bytes) :
    payloads codec terminalId (chunks.map (createTerminalDataResponse codec terminalId)) = chunks := by
  rw [payloads, filterMap_map]
  simp [payload_createTerminalDataResponse hcodec]

theorem SilentAfterClosed.append_data {added : List TerminalResponse} (h : SilentAfterClosed terminalId responses)
    (hadded : ∀ response ∈ added, response.closes terminalId = false)
    (hdata : (∃ response ∈ added, response.isDataFor terminalId = true) →
      ∀ response ∈ responses, response.closes terminalId = false) :
    SilentAfterClosed terminalId (responses ++ added) := by
  refine pairwise_append.mpr ⟨h, ?_, ?_⟩
  · exact pairwise_of_forall_mem_list fun response hmem later _ hcloses =>
      absurd hcloses (by simp [hadded response hmem])
  · intro response hmem later hlater hcloses
    by_contra hnot
    have hsome : ∃ response ∈ added, response.isDataFor terminalId = true := ⟨later, hlater, by simpa using hnot⟩
    rw [hdata hsome response hmem] at hcloses
    exact absurd hcloses (by simp)

theorem SilentAfterClosed.insert (h : SilentAfterClosed terminalId (responses ++ responses'))
    (hdata : response.isDataFor terminalId = false)
    (hcloses : response.closes terminalId = true → ∀ later ∈ responses', later.isDataFor terminalId = false) :
    SilentAfterClosed terminalId (responses ++ [response] ++ responses') := by
  obtain ⟨hbefore, hafter, hacross⟩ := pairwise_append.mp h
  rw [append_assoc]
  refine pairwise_append.mpr ⟨hbefore, pairwise_cons.mpr ⟨fun later hlater hc => hcloses hc later hlater, hafter⟩, ?_⟩
  intro earlier hearlier later hlater hc
  rcases mem_cons.mp hlater with rfl | hlater
  · exact hdata
  · exact hacross earlier hearlier later hlater hc

end Responses

section SessionMap

variable {sessions : List (Int × ℕ)} {terminalId terminalId' : Int} {object : ℕ}

theorem mem_of_sessionAt (h : sessionAt sessions terminalId = some object) : (terminalId, object) ∈ sessions := by
  obtain ⟨x, hfind, rfl⟩ := Option.map_eq_some_iff.mp h
  have hid : x.1 = terminalId := by simpa using find?_some hfind
  rw [← hid]
  exact mem_of_find?_eq_some hfind

theorem sessionAt_eq_none : sessionAt sessions terminalId = none ↔ terminalId ∉ sessions.map fst := by
  rw [sessionAt, Option.map_eq_none_iff, find?_eq_none, mem_map]
  exact ⟨fun h hin => by
    obtain ⟨x, hx, hid⟩ := hin
    exact h x hx (by simpa using hid), fun h x hx hid => h ⟨x, hx, by simpa using hid⟩⟩

theorem sessionAt_of_mem (hids : (sessions.map fst).Nodup) (h : (terminalId, object) ∈ sessions) :
    sessionAt sessions terminalId = some object := by
  cases hat : sessionAt sessions terminalId with
  | none => exact absurd (mem_map_of_mem h) (sessionAt_eq_none.mp hat)
  | some object' =>
    have heq := inj_on_of_nodup_map hids (mem_of_sessionAt hat) h rfl
    rw [(mk.inj heq).2]

theorem mem_withoutSession {x : Int × ℕ} :
    x ∈ withoutSession sessions terminalId ↔ x ∈ sessions ∧ x.1 ≠ terminalId := by
  simp [withoutSession]

theorem withoutSession_sublist : (withoutSession sessions terminalId).Sublist sessions := filter_sublist

theorem sessionAt_withoutSession_of_ne (h : terminalId' ≠ terminalId) :
    sessionAt (withoutSession sessions terminalId) terminalId' = sessionAt sessions terminalId' := by
  rw [sessionAt, withoutSession, find?_filter, sessionAt]
  congr 2
  funext x
  by_cases hx : x.1 = terminalId' <;> simp [hx, h]

end SessionMap

namespace TerminalStreams

/-- What is known of the session map: ids and sessions occur once, and a session that a client has opened is only
there under the id that it has for this client. -/
structure Mapped (s : TerminalStreams) : Prop where
  ids : (s.sessions.map fst).Nodup
  objects : (s.sessions.map snd).Nodup
  allocated : ∀ x ∈ s.sessions, x.2 < s.nextObject
  created : ∀ k owner, s.opened k = some owner → k < s.nextObject
  unique : ∀ k k' owner, s.opened k = some owner → s.opened k' = some owner → k = k'
  named : ∀ k c terminalId, s.opened k = some (c, terminalId) → ∀ x ∈ s.sessions, x.2 = k → x.1 = terminalId

section Mapped

variable {s s' : TerminalStreams} {terminalId : Int} {k c : ℕ}

/-- The session map and what is opened lose entries only. -/
theorem Mapped.shrink (h : Mapped s) (hsessions : s'.sessions.Sublist s.sessions) (hnext : s'.nextObject = s.nextObject)
    (hopened : ∀ k owner, s'.opened k = some owner → s.opened k = some owner) : Mapped s' where
  ids := h.ids.sublist (hsessions.map _)
  objects := h.objects.sublist (hsessions.map _)
  allocated x hx := by
    rw [hnext]
    exact h.allocated x (hsessions.subset hx)
  created k owner hk := by
    rw [hnext]
    exact h.created k owner (hopened k owner hk)
  unique k k' owner hk hk' := h.unique k k' owner (hopened k owner hk) (hopened k' owner hk')
  named k c terminalId hk x hx := h.named k c terminalId (hopened k _ hk) x (hsessions.subset hx)

theorem Mapped.mem_of_live (h : Mapped s) (hk : s.opened k = some (c, terminalId))
    (hlive : k ∈ s.sessions.map snd) : (terminalId, k) ∈ s.sessions := by
  obtain ⟨x, hx, rfl⟩ := mem_map.mp hlive
  rw [← h.named x.2 c terminalId hk x hx rfl]
  exact hx

/-- The session map is kept, or the first open after an attach renames the session with the lowest id. -/
theorem remapped_cases (s : TerminalStreams) (terminalId : Int) :
    s.remapped terminalId = s.sessions ∨ ∃ lowestId object, s.needsSessionSync = true ∧
      sessionAt s.sessions terminalId = none ∧ sessionAt s.sessions lowestId = some object ∧
        s.remapped terminalId = (terminalId, object) :: withoutSession s.sessions lowestId := by
  unfold remapped
  split
  next hneeded =>
    split
    · exact .inl rfl
    next lowestId _ =>
      split
      · exact .inl rfl
      next object hobject =>
        simp only [Bool.and_eq_true, Option.isNone_iff_eq_none] at hneeded
        exact .inr ⟨lowestId, object, hneeded.2, hneeded.1, hobject, rfl⟩
  · exact .inl rfl

/-- The session map after a possible renaming is the one before but for the session that is asked for. -/
theorem Mapped.remapped (h : Mapped s) (terminalId : Int) :
    ((s.remapped terminalId).map fst).Nodup ∧ ((s.remapped terminalId).map snd).Nodup ∧
      (∀ x ∈ s.remapped terminalId, x ∈ s.sessions ∨ x.1 = terminalId ∧ s.target terminalId = some x.2) ∧
      ∀ k ∈ (s.remapped terminalId).map snd, k ∈ s.sessions.map snd := by
  obtain hsame | ⟨lowestId, object, -, hfree, hlowest, hsame⟩ := remapped_cases s terminalId
  · rw [hsame]
    exact ⟨h.ids, h.objects, fun x hx => .inl hx, fun k hk => hk⟩
  have hmem : (lowestId, object) ∈ s.sessions := mem_of_sessionAt hlowest
  have htarget : s.target terminalId = some object := by
    rw [target, hsame]
    simp [sessionAt]
  rw [hsame]
  refine ⟨?_, ?_, ?_, ?_⟩
  · rw [map_cons, nodup_cons]
    refine ⟨fun hin => sessionAt_eq_none.mp hfree ?_, h.ids.sublist (withoutSession_sublist.map _)⟩
    exact (withoutSession_sublist.map fst).subset hin
  · rw [map_cons, nodup_cons]
    refine ⟨fun hin => ?_, h.objects.sublist (withoutSession_sublist.map _)⟩
    obtain ⟨x, hx, hobject⟩ := mem_map.mp hin
    obtain ⟨hx, hne⟩ := mem_withoutSession.mp hx
    exact hne (congrArg fst (inj_on_of_nodup_map h.objects hx hmem hobject))
  · intro x hx
    rcases mem_cons.mp hx with rfl | hx
    · exact .inr ⟨rfl, htarget⟩
    · exact .inl (mem_withoutSession.mp hx).1
  · intro k hk
    rw [map_cons, mem_cons] at hk
    rcases hk with rfl | hk
    · exact mem_map_of_mem hmem
    · exact (withoutSession_sublist.map snd).subset hk

end Mapped

/-- The responses of a connection in the order in which the client gets them, since the terminal was opened. -/
def trace (s : TerminalStreams) (c : ℕ) (terminalId : Int) : List TerminalResponse :=
  sinceOpened terminalId (s.wires c) ++ s.inFlight c

/-- What is known of a connection: once a terminal is said to have closed, the session that the client had opened under
this id cannot be read for it again. -/
structure Quiet (s : TerminalStreams) (c : ℕ) : Prop where
  unopened : ∀ response ∈ s.inFlight c, ∀ terminalId, response.opens terminalId = false
  listed : ((s.polls c).todo.map fst).Nodup
  done : ∀ terminalId ∈ (s.polls c).closedTerminals, terminalId ∉ (s.polls c).todo.map fst
  closing : ∀ k terminalId, s.opened k = some (c, terminalId) → terminalId ∈ (s.polls c).closedTerminals →
    (s.objects k).closedMessageSent = true ∧ ∀ sessions, (s.polls c).snapshot = some sessions → k ∈ s.sessions.map snd →
        sessionAt sessions terminalId = some k
  closed : ∀ k terminalId, s.opened k = some (c, terminalId) →
    (∃ response ∈ s.trace c terminalId, response.closes terminalId = true) →
      k ∉ s.sessions.map snd ∧ (terminalId, k) ∉ (s.polls c).todo
  silent : ∀ terminalId, SilentAfterClosed terminalId (s.trace c terminalId)

section Quiet

variable {s s' : TerminalStreams} {terminalId : Int} {k c : ℕ}

theorem trace_congr (hpoll : s'.polls c = s.polls c) (hqueue : s'.queues c = s.queues c)
    (hwire : s'.wires c = s.wires c) : s'.trace c terminalId = s.trace c terminalId := by
  rw [trace, trace, inFlight, inFlight, hpoll, hqueue, hwire]

/-- Another connection is not concerned. -/
theorem Quiet.frame (h : Quiet s c) (hpoll : s'.polls c = s.polls c) (hqueue : s'.queues c = s.queues c)
    (hwire : s'.wires c = s.wires c)
    (hopened : ∀ k terminalId, s'.opened k = some (c, terminalId) → s.opened k = some (c, terminalId) ∧
      (k ∈ s'.sessions.map snd → k ∈ s.sessions.map snd) ∧
      ((s.objects k).closedMessageSent = true → (s'.objects k).closedMessageSent = true)) : Quiet s' c where
  unopened response hmem := by
    rw [inFlight, hpoll, hqueue] at hmem
    exact h.unopened response hmem
  listed := by
    rw [hpoll]
    exact h.listed
  done := by
    rw [hpoll]
    exact h.done
  closing k terminalId hk hclosing := by
    obtain ⟨hk, hlive, hmarked⟩ := hopened k terminalId hk
    rw [hpoll] at hclosing ⊢
    obtain ⟨hsent, hsnapshot⟩ := h.closing k terminalId hk hclosing
    exact ⟨hmarked hsent, fun sessions hsessions hin => hsnapshot sessions hsessions (hlive hin)⟩
  closed k terminalId hk hclosed := by
    obtain ⟨hk, hlive, -⟩ := hopened k terminalId hk
    rw [trace_congr hpoll hqueue hwire] at hclosed
    rw [hpoll]
    obtain ⟨hgone, htodo⟩ := h.closed k terminalId hk hclosed
    exact ⟨fun hin => hgone (hlive hin), htodo⟩
  silent terminalId := by
    rw [trace_congr hpoll hqueue hwire]
    exact h.silent terminalId

/-- The connection goes on without reading a session. -/
theorem Quiet.repoll (h : Quiet s c) (hmapped : Mapped s) (hsessions : s'.sessions = s.sessions)
    (hopened : s'.opened = s.opened) (hobjects : s'.objects = s.objects)
    (hflight : ∀ response ∈ s'.inFlight c, response ∈ s.inFlight c)
    (htrace : ∀ terminalId, s'.trace c terminalId = s.trace c terminalId)
    (hlisted : ((s'.polls c).todo.map fst).Nodup)
    (htodo : ∀ x ∈ (s'.polls c).todo, x ∈ (s.polls c).todo ∨ x ∈ s.sessions)
    (hdone : ∀ terminalId ∈ (s'.polls c).closedTerminals,
      terminalId ∈ (s.polls c).closedTerminals ∧ terminalId ∉ (s'.polls c).todo.map fst)
    (hsnapshot : ∀ sessions, (s'.polls c).snapshot = some sessions →
      sessions = s.sessions ∨ (s.polls c).snapshot = some sessions) : Quiet s' c := by
  refine ⟨fun response hmem => h.unopened response (hflight response hmem), hlisted,
    fun terminalId hmem => (hdone terminalId hmem).2, ?_, ?_, ?_⟩
  · intro k terminalId hk hclosing
    rw [hopened] at hk
    obtain ⟨hsent, hold⟩ := h.closing k terminalId hk (hdone terminalId hclosing).1
    rw [hobjects, hsessions]
    refine ⟨hsent, fun sessions hsome hlive => ?_⟩
    rcases hsnapshot sessions hsome with rfl | hsome
    · exact sessionAt_of_mem hmapped.ids (hmapped.mem_of_live hk hlive)
    · exact hold sessions hsome hlive
  · intro k terminalId hk hclosed
    rw [hopened] at hk
    rw [htrace] at hclosed
    obtain ⟨hgone, hnot⟩ := h.closed k terminalId hk hclosed
    rw [hsessions]
    refine ⟨hgone, fun hin => ?_⟩
    rcases htodo _ hin with hin | hin
    · exact hnot hin
    · exact hgone (mem_map_of_mem hin)
  · intro terminalId
    rw [htrace]
    exact h.silent terminalId

end Quiet

/-- The invariant of an orderly run. -/
structure Steady (s : TerminalStreams) : Prop where
  mapped : Mapped s
  quiet : ∀ c, Quiet s c

section Steps

variable {codec : Codec} {s s' : TerminalStreams} {terminalId : Int} {k c : ℕ} {responses : List TerminalResponse}
  {sessions : List (Int × ℕ)} {object : ℕ} {request : OpenTerminal} {isPersistent : Bool}
  {response : TerminalResponse} {closedTerminals : List Int} {session : TerminalSession} {late : List Bytes}
  {message : TerminalOpened} {resizeOk : Bool}

/-- What a step does to one connection only. -/
theorem Steady.of_connection (h : Steady s) (hmapped : Mapped s')
    (hother : ∀ c' ≠ c, s'.polls c' = s.polls c' ∧ s'.queues c' = s.queues c' ∧ s'.wires c' = s.wires c')
    (hopened : ∀ k c' terminalId, c' ≠ c → s'.opened k = some (c', terminalId) → s.opened k = some (c', terminalId) ∧
      (k ∈ s'.sessions.map snd → k ∈ s.sessions.map snd) ∧
      ((s.objects k).closedMessageSent = true → (s'.objects k).closedMessageSent = true))
    (hquiet : Quiet s' c) : Steady s' where
  mapped := hmapped
  quiet c' := by
    by_cases hc : c' = c
    · rw [hc]
      exact hquiet
    · obtain ⟨hpoll, hqueue, hwire⟩ := hother c' hc
      exact (h.quiet c').frame hpoll hqueue hwire fun k terminalId hk => hopened k c' terminalId hc hk

theorem closedMessageSent_update
    (hsent : (s.objects object).closedMessageSent = true → session.closedMessageSent = true) (k : ℕ)
    (hk : (s.objects k).closedMessageSent = true) :
    (update s.objects object session k).closedMessageSent = true := by
  by_cases heq : k = object
  · rw [heq] at hk ⊢
    rw [update_self]
    exact hsent hk
  · rw [update_of_ne heq]
    exact hk

theorem update_release (s : TerminalStreams) (object k : ℕ) :
    ∃ child, update s.objects object (s.objects object).release k = { s.objects k with child } := by
  by_cases hk : k = object
  · rw [hk, update_self]
    exact ⟨none, rfl⟩
  · rw [update_of_ne hk]
    exact ⟨_, rfl⟩

theorem Steady.setObject (h : Steady s)
    (hsent : (s.objects object).closedMessageSent = true → session.closedMessageSent = true) :
    Steady (s.setObject object session) where
  mapped := h.mapped.shrink (List.Sublist.refl _) rfl fun _ _ => id
  quiet c := (h.quiet c).frame rfl rfl rfl fun k _ hk => ⟨hk, id, closedMessageSent_update hsent k⟩

theorem polls_setPoll (s : TerminalStreams) (c : ℕ) (poll : Poll) : (s.setPoll c poll).polls c = poll :=
  update_self ..

theorem inFlight_setPoll {poll : Poll} (hresponses : poll.responses = (s.polls c).responses) (c' : ℕ) :
    (s.setPoll c poll).inFlight c' = s.inFlight c' := by
  by_cases hc : c' = c
  · rw [hc, inFlight, polls_setPoll, hresponses]
    rfl
  · rw [inFlight, show (s.setPoll c poll).polls c' = s.polls c' from update_of_ne hc ..]
    rfl

theorem inFlight_queue (hresponses : (s.polls c).responses = responses) (c' : ℕ) :
    (s.queue c responses).inFlight c' = s.inFlight c' := by
  by_cases hc : c' = c
  · rw [hc, inFlight, show (s.queue c responses).polls c = .waiting from polls_setPoll s c _, inFlight, hresponses]
    simp [TerminalStreams.queue, Poll.responses]
  · rw [inFlight, show (s.queue c responses).polls c' = s.polls c' from Function.update_of_ne hc ..,
      show (s.queue c responses).queues c' = s.queues c' from Function.update_of_ne hc ..]
    rfl

theorem trace_of_inFlight (hflight : s'.inFlight c = s.inFlight c) (hwire : s'.wires c = s.wires c)
    (terminalId : Int) : s'.trace c terminalId = s.trace c terminalId := by
  rw [trace, hflight, hwire, trace]

/-- The run loop goes on without reading a session and without queueing. -/
theorem Steady.setPoll (h : Steady s) {poll : Poll} (hresponses : poll.responses = (s.polls c).responses)
    (hlisted : (poll.todo.map fst).Nodup) (htodo : ∀ x ∈ poll.todo, x ∈ (s.polls c).todo ∨ x ∈ s.sessions)
    (hdone : ∀ terminalId ∈ poll.closedTerminals,
      terminalId ∈ (s.polls c).closedTerminals ∧ terminalId ∉ poll.todo.map fst)
    (hsnapshot : ∀ sessions, poll.snapshot = some sessions → sessions = s.sessions) : Steady (s.setPoll c poll) := by
  have hflight := inFlight_setPoll hresponses c
  refine h.of_connection (h.mapped.shrink (List.Sublist.refl _) rfl fun _ _ => id)
    (fun c' hc => ⟨update_of_ne hc .., rfl, rfl⟩) (fun k c' terminalId _ hk => ⟨hk, id, id⟩)
    ((h.quiet c).repoll h.mapped rfl rfl rfl ?_ ?_ ?_ ?_ ?_ ?_)
  · rw [hflight]
    exact fun _ => id
  · exact trace_of_inFlight hflight rfl
  · rwa [polls_setPoll]
  · rwa [polls_setPoll]
  · rwa [polls_setPoll]
  · rw [polls_setPoll]
    exact fun sessions hsome => .inl (hsnapshot sessions hsome)

/-- The run loop queues what it has. -/
theorem Steady.queue (h : Steady s)
    (hresponses : (s.polls c).responses = responses) : Steady (s.queue c responses) := by
  have hpoll : (s.queue c responses).polls c = .waiting := polls_setPoll s c _
  have hflight := inFlight_queue hresponses c
  refine h.of_connection (h.mapped.shrink (List.Sublist.refl _) rfl fun _ _ => id)
    (fun c' hc => ⟨update_of_ne hc .., update_of_ne hc .., rfl⟩)
    (fun k c' terminalId _ hk => ⟨hk, id, id⟩) ((h.quiet c).repoll h.mapped rfl rfl rfl ?_ ?_ ?_ ?_ ?_ ?_)
  · rw [hflight]
    exact fun _ => id
  · exact trace_of_inFlight hflight rfl
  all_goals rw [hpoll]
  · exact nodup_nil
  · exact fun x hx => nomatch hx
  · exact fun terminalId hmem => nomatch hmem
  · exact fun sessions hsome => nomatch hsome

/-- Sending does not change what the client gets in the end. -/
theorem sendNext_spec {queued : List TerminalResponse} (hqueue : s.queues c = response :: queued) :
    ∃ s', s.sendNext c = s' ∧ s' = { s.answer c response with queues := update s.queues c queued } ∧
      s.inFlight c = response :: s'.inFlight c ∧
      ∀ terminalId, response.opens terminalId = false → s'.trace c terminalId = s.trace c terminalId := by
  have hflight : s.inFlight c =
      response :: inFlight { s.answer c response with queues := update s.queues c queued } c := by
    simp [inFlight, hqueue, answer]
  refine ⟨_, by simp only [sendNext, hqueue], rfl, hflight, fun terminalId hopens => ?_⟩
  rw [trace, trace, hflight, show (mk ..).wires c = _ from update_self .., sinceOpened_concat hopens, append_assoc]
  rfl

theorem Steady.sendNext (h : Steady s) : Steady (s.sendNext c) := by
  cases hqueue : s.queues c with
  | nil =>
    simp only [TerminalStreams.sendNext, hqueue]
    exact h
  | cons response queued =>
    obtain ⟨s', hsend, hs', hflight, htrace⟩ := sendNext_spec hqueue
    have hunopened := (h.quiet c).unopened response (by rw [hflight]; exact mem_cons_self)
    rw [hsend]
    subst hs'
    refine h.of_connection (h.mapped.shrink (List.Sublist.refl _) rfl fun _ _ => id)
      (fun _ hc => ⟨rfl, Function.update_of_ne hc .., Function.update_of_ne hc ..⟩) (fun _ _ _ _ hk => ⟨hk, id, id⟩)
      ((h.quiet c).repoll h.mapped rfl rfl rfl ?_ (fun terminalId => htrace terminalId (hunopened terminalId))
        (h.quiet c).listed (fun _ => .inl) (fun terminalId hmem => ⟨hmem, (h.quiet c).done terminalId hmem⟩)
        fun _ => .inr)
    rw [hflight]
    exact fun _ => mem_cons_of_mem _

/-- What a session sends is data for the terminal. -/
theorem mem_readOutputs (h : response ∈ (session.readOutputs codec terminalId late resizeOk).2) :
    session.state ≠ .closed ∧ ∃ data, response = createTerminalDataResponse codec terminalId data := by
  cases hstate : session.state with
  | closed =>
    rw [readOutputs_of_closed codec terminalId late resizeOk hstate] at h
    exact nomatch h
  | active pendingBuffer sigwinch =>
    obtain ⟨ptySize, sigwinch', hread⟩ := readOutputs_of_active codec terminalId late resizeOk hstate
    rw [hread] at h
    obtain ⟨data, -, rfl⟩ := mem_map.mp h
    exact ⟨by simp, data, rfl⟩

theorem isDataFor_create (codec : Codec) (terminalId terminalId' : Int) (data : Bytes) :
    (createTerminalDataResponse codec terminalId' data).isDataFor terminalId = decide (terminalId' = terminalId) := rfl

/-- The run loop has a session to read, or nothing happens. -/
theorem readNext_cases (codec : Codec) (s : TerminalStreams) (c : ℕ) (late : List Bytes) (resizeOk : Bool) :
    s.readNext codec c late resizeOk = s ∨ ∃ isPersistent terminalId object sessions responses closedTerminals,
      s.polls c = .reading isPersistent ((terminalId, object) :: sessions) responses closedTerminals := by
  unfold readNext
  split
  next hpoll => exact .inr ⟨_, _, _, _, _, _, hpoll⟩
  · exact .inl rfl

theorem readNext_of_reading {resizeOk isPersistent : Bool}
    (hpoll : s.polls c = .reading isPersistent ((terminalId, object) :: sessions) responses closedTerminals) :
    s.readNext codec c late resizeOk =
      (s.setObject object ((s.objects object).readOutputs codec terminalId late resizeOk).1).setPoll c
        (.reading isPersistent sessions (responses ++ ((s.objects object).readOutputs codec terminalId late resizeOk).2)
          (if (s.objects object).shouldSendClosed then closedTerminals ++ [terminalId] else closedTerminals)) := by
  rw [readNext, hpoll]

/-- The connection after one session was read for it. -/
theorem Quiet.read (codec : Codec) (h : Quiet s c)
    {responses added : List TerminalResponse} {closedTerminals closedTerminals' : List Int}
    (hpoll : s.polls c = .reading isPersistent ((terminalId, object) :: sessions) responses closedTerminals)
    (hpoll' : s'.polls c = .reading isPersistent sessions (responses ++ added) closedTerminals')
    (hqueue : s'.queues c = s.queues c) (hwire : s'.wires c = s.wires c) (hsessions : s'.sessions = s.sessions)
    (hopened : s'.opened = s.opened)
    (hsent : ∀ k, (s.objects k).closedMessageSent = true → (s'.objects k).closedMessageSent = true)
    (hadded : ∀ response ∈ added, s.opened object = some (c, terminalId) ∧
      ∃ data, response = createTerminalDataResponse codec terminalId data)
    (hclosing : ∀ id ∈ closedTerminals', id ∈ closedTerminals ∨
      id = terminalId ∧ ∀ k, s.opened k = some (c, id) → (s'.objects k).closedMessageSent = true) : Quiet s' c := by
  have hflight : s'.inFlight c = s.inFlight c ++ added := by
    rw [inFlight, hpoll', inFlight, hpoll, hqueue, Poll.responses, Poll.responses, append_assoc]
  have htrace (id : Int) : s'.trace c id = s.trace c id ++ added := by
    rw [trace, trace, hflight, hwire, append_assoc]
  have hcloses (response) (hmem : response ∈ added) (id : Int) : response.closes id = false := by
    obtain ⟨-, data, rfl⟩ := hadded response hmem
    rfl
  have hnodup := h.listed
  rw [hpoll, Poll.todo, map_cons, nodup_cons] at hnodup
  have hdone (id : Int) (hmem : id ∈ closedTerminals) : id ∉ sessions.map fst := by
    have hdone := h.done id (by rw [hpoll]; exact hmem)
    rw [hpoll, Poll.todo, map_cons, mem_cons, not_or] at hdone
    exact hdone.2
  refine ⟨?_, ?_, ?_, ?_, ?_, ?_⟩
  · intro response hmem id
    rw [hflight, mem_append] at hmem
    rcases hmem with hmem | hmem
    · exact h.unopened response hmem id
    · obtain ⟨-, data, rfl⟩ := hadded response hmem
      rfl
  · rw [hpoll']
    exact hnodup.2
  · intro id hmem
    rw [hpoll'] at hmem ⊢
    rcases hclosing id hmem with hold | ⟨rfl, -⟩
    · exact hdone id hold
    · exact hnodup.1
  · intro k id hk hmem
    rw [hopened] at hk
    rw [hpoll'] at hmem ⊢
    refine ⟨?_, fun sessions hsome => nomatch hsome⟩
    rcases hclosing id hmem with hold | ⟨-, hmarked⟩
    · exact hsent k (h.closing k id hk (by rw [hpoll]; exact hold)).1
    · exact hmarked k hk
  · intro k id hk hclosed
    rw [hopened] at hk
    rw [htrace] at hclosed
    obtain ⟨response, hmem, hcloses'⟩ := hclosed
    rcases mem_append.mp hmem with hmem | hmem
    · obtain ⟨hgone, htodo⟩ := h.closed k id hk ⟨response, hmem, hcloses'⟩
      rw [hpoll, Poll.todo, mem_cons, not_or] at htodo
      rw [hsessions, hpoll']
      exact ⟨hgone, htodo.2⟩
    · rw [hcloses response hmem] at hcloses'
      exact absurd hcloses' (by simp)
  · intro id
    rw [htrace]
    refine (h.silent id).append_data (fun response hmem => hcloses response hmem id) ?_
    -- the session is still to be read, so its terminal was not said to have closed
    rintro ⟨response, hmem, hfor⟩ earlier hearlier
    obtain ⟨howner, data, rfl⟩ := hadded response hmem
    rw [isDataFor_create, decide_eq_true_eq] at hfor
    subst hfor
    by_contra hnot
    refine (h.closed object terminalId howner ⟨earlier, hearlier, by simpa using hnot⟩).2 ?_
    rw [hpoll]
    exact mem_cons_self

theorem Steady.readNext (h : Steady s) (hok : s.Orderly (.read c late resizeOk)) :
    Steady (s.readNext codec c late resizeOk) := by
  obtain hsame | ⟨isPersistent, terminalId, object, sessions, responses, closedTerminals, hpoll⟩ :=
    readNext_cases codec s c late resizeOk
  · rw [hsame]
    exact h
  obtain ⟨howner, hclosing⟩ := hok terminalId object (by rw [hpoll]; rfl)
  obtain ⟨ptySize, state, hdrained⟩ := (s.objects object).readOutputs_drains codec terminalId late resizeOk
  have hsent (hmarked : (s.objects object).closedMessageSent = true) :
      ((s.objects object).readOutputs codec terminalId late resizeOk).1.closedMessageSent = true := by
    rw [hdrained]
    simp [drain, hmarked]
  rw [readNext_of_reading hpoll]
  refine h.of_connection (h.mapped.shrink (List.Sublist.refl _) rfl fun _ _ => id)
    (fun c' hc => ⟨update_of_ne hc .., rfl, rfl⟩)
    (fun k c' terminalId _ hk => ⟨hk, id, closedMessageSent_update hsent k⟩)
    ((h.quiet c).read codec hpoll (polls_setPoll ..) rfl rfl rfl rfl (closedMessageSent_update hsent) ?_ ?_)
  · intro response hmem
    obtain ⟨hactive, hdata⟩ := mem_readOutputs hmem
    exact ⟨howner hactive, hdata⟩
  · intro id hmem
    split at hmem
    next hshould =>
      rcases mem_append.mp hmem with hold | hnew
      · exact .inl hold
      · refine .inr ⟨mem_singleton.mp hnew, fun k hk => ?_⟩
        rw [mem_singleton.mp hnew] at hk
        rw [hclosing hshould k hk]
        change (update s.objects object _ object).closedMessageSent = true
        rw [update_self, hdrained]
        simp [drain, hshould]
    · exact .inl hmem

/-- What the removal of one session does. -/
theorem cleanupNext_spec
    (hpoll : s.polls c = .cleaning isPersistent sessions responses (terminalId :: closedTerminals)) :
    ∃ s' sessions' exitCode, s.cleanupNext c = s' ∧ s'.polls = update s.polls c (.cleaning isPersistent sessions'
        (responses ++ [.closed { terminalId, exitCode }]) closedTerminals) ∧
      s'.queues = s.queues ∧ s'.wires = s.wires ∧ s'.opened = s.opened ∧ s'.nextObject = s.nextObject ∧
      s'.sessions.Sublist s.sessions ∧
      (∀ k, ∃ child, s'.objects k = { s.objects k with child }) ∧
      (∀ terminalId', terminalId' ≠ terminalId → sessionAt sessions' terminalId' = sessionAt sessions terminalId') ∧
      ∀ k, (s.objects k).closedMessageSent = true → sessionAt sessions terminalId = some k →
        s'.sessions = withoutSession s.sessions terminalId := by
  cases hat : sessionAt sessions terminalId with
  | none =>
    refine ⟨_, sessions, 0, by simp only [cleanupNext, hpoll, hat]; rfl, ?_⟩
    exact ⟨rfl, rfl, rfl, rfl, rfl, List.Sublist.refl _, fun _ => ⟨_, rfl⟩, fun _ _ => rfl, nofun⟩
  | some object =>
    by_cases hremoved : (!isPersistent || (s.objects object).closedMessageSent) = true
    · refine ⟨_, withoutSession sessions terminalId, (s.objects object).child.join.getD 0,
        by simp only [cleanupNext, hpoll, hat, if_pos hremoved]; rfl, ?_⟩
      exact ⟨rfl, rfl, rfl, rfl, rfl, withoutSession_sublist, update_release s object,
        fun _ => sessionAt_withoutSession_of_ne, fun _ _ _ => rfl⟩
    · refine ⟨_, sessions, (s.objects object).child.join.getD 0,
        by simp only [cleanupNext, hpoll, hat, if_neg hremoved]; rfl, ?_⟩
      refine ⟨rfl, rfl, rfl, rfl, rfl, List.Sublist.refl _, update_release s object, fun _ _ => rfl, fun k hk heq => ?_⟩
      rw [← Option.some.inj heq] at hk
      rw [hk, Bool.or_true] at hremoved
      exact absurd rfl hremoved

/-- The run loop has a session to remove, or nothing happens. -/
theorem cleanupNext_cases (s : TerminalStreams) (c : ℕ) :
    s.cleanupNext c = s ∨ ∃ isPersistent sessions responses terminalId closedTerminals,
      s.polls c = .cleaning isPersistent sessions responses (terminalId :: closedTerminals) := by
  unfold cleanupNext
  split
  next hpoll => exact .inr ⟨_, _, _, _, _, hpoll⟩
  · exact .inl rfl

/-- The connection after it was told that a terminal has closed. -/
theorem Quiet.cleanup (h : Quiet s c) {sessions sessions' : List (Int × ℕ)} {exitCode : Int}
    (hpoll : s.polls c = .cleaning isPersistent sessions responses (terminalId :: closedTerminals))
    (hpoll' : s'.polls c = .cleaning isPersistent sessions' (responses ++ [.closed { terminalId, exitCode }])
      closedTerminals)
    (hqueue : s'.queues c = s.queues c) (hwire : s'.wires c = s.wires c) (hopened : s'.opened = s.opened)
    (hlive : ∀ k ∈ s'.sessions.map snd, k ∈ s.sessions.map snd)
    (hsent : ∀ k, (s.objects k).closedMessageSent = true → (s'.objects k).closedMessageSent = true)
    (hother : ∀ terminalId', terminalId' ≠ terminalId → sessionAt sessions' terminalId' = sessionAt sessions terminalId')
    (hgone : ∀ k, s.opened k = some (c, terminalId) → k ∉ s'.sessions.map snd) : Quiet s' c := by
  have hflight : s'.inFlight c = s.inFlight c ++ [.closed { terminalId, exitCode }] := by
    rw [inFlight, inFlight, hpoll', hpoll, hqueue, Poll.responses, Poll.responses, append_assoc]
  have htrace (id : Int) : s'.trace c id = s.trace c id ++ [.closed { terminalId, exitCode }] := by
    rw [trace, trace, hflight, hwire, append_assoc]
  refine ⟨?_, ?_, ?_, ?_, ?_, ?_⟩
  · intro response hmem id
    rw [hflight, mem_append, mem_singleton] at hmem
    rcases hmem with hmem | rfl
    · exact h.unopened response hmem id
    · rfl
  · rw [hpoll']
    exact nodup_nil
  · rw [hpoll']
    exact fun _ _ hmem => nomatch hmem
  · intro k id hk hmem
    rw [hopened] at hk
    rw [hpoll'] at hmem ⊢
    obtain ⟨hmarked, hsnapshot⟩ := h.closing k id hk (by rw [hpoll]; exact mem_cons_of_mem _ hmem)
    refine ⟨hsent k hmarked, fun l hl hin => ?_⟩
    obtain rfl := Option.some.inj hl
    have hne : id ≠ terminalId := by
      rintro rfl
      exact hgone k hk hin
    rw [hother id hne]
    exact hsnapshot sessions (by rw [hpoll]; rfl) (hlive k hin)
  · intro k id hk hclosed
    rw [hopened] at hk
    rw [htrace] at hclosed
    rw [hpoll']
    refine ⟨fun hin => ?_, nofun⟩
    obtain ⟨response, hmem, hcloses⟩ := hclosed
    rw [mem_append, mem_singleton] at hmem
    rcases hmem with hmem | rfl
    · exact (h.closed k id hk ⟨response, hmem, hcloses⟩).1 (hlive k hin)
    · have hid : terminalId = id := by simpa [TerminalResponse.closes] using hcloses
      subst hid
      exact hgone k hk hin
  · intro id
    rw [htrace]
    refine pairwise_append.mpr ⟨h.silent id, pairwise_singleton _ _, ?_⟩
    intro response _ later hlater _
    rw [mem_singleton.mp hlater]
    rfl

theorem Steady.cleanupNext (h : Steady s) : Steady (s.cleanupNext c) := by
  obtain hsame | ⟨isPersistent, sessions, responses, terminalId, closedTerminals, hpoll⟩ := cleanupNext_cases s c
  · rw [hsame]
    exact h
  obtain ⟨s', sessions', exitCode, hstep, hpolls, hqueues, hwires, hopened, hnext, hsub, hobjects, hother, hremoved⟩ :=
    cleanupNext_spec hpoll
  have hsent (k : ℕ) (hk : (s.objects k).closedMessageSent = true) : (s'.objects k).closedMessageSent = true := by
    obtain ⟨child, hobject⟩ := hobjects k
    rw [hobject]
    exact hk
  have hlive (k : ℕ) (hin : k ∈ s'.sessions.map snd) : k ∈ s.sessions.map snd :=
    (hsub.map snd).subset hin
  -- the session that the client has under the id is not in the session map any more
  have hgone (k : ℕ) (hk : s.opened k = some (c, terminalId)) : k ∉ s'.sessions.map snd := by
    intro hin
    obtain ⟨hmarked, hsnapshot⟩ := (h.quiet c).closing k terminalId hk (by rw [hpoll]; exact mem_cons_self)
    have hsessions := hremoved k hmarked (hsnapshot sessions (by rw [hpoll]; rfl) (hlive k hin))
    rw [hsessions] at hin
    obtain ⟨x, hx, rfl⟩ := mem_map.mp hin
    obtain ⟨hx, hne⟩ := mem_withoutSession.mp hx
    exact hne (h.mapped.named x.2 c terminalId hk x hx rfl)
  rw [hstep]
  exact h.of_connection (h.mapped.shrink hsub hnext fun k owner hk => by rwa [hopened] at hk)
    (fun c' hc => ⟨(congrFun hpolls c').trans (update_of_ne hc ..), congrFun hqueues c', congrFun hwires c'⟩)
    (fun k c' id _ hk => ⟨by rwa [hopened] at hk, hlive k, hsent k⟩)
    ((h.quiet c).cleanup hpoll ((congrFun hpolls c).trans (update_self ..)) (congrFun hqueues c)
      (congrFun hwires c) hopened hlive hsent hother hgone)

/-- The connection after an answer that opens no terminal. -/
theorem Quiet.answer (h : Quiet s c) (hpoll : s'.polls c = s.polls c)
    (hqueue : s'.queues c = s.queues c) (hwire : s'.wires c = s.wires c ++ [response]) (hopened : s'.opened = s.opened)
    (hlive : ∀ k ∈ s'.sessions.map snd, k ∈ s.sessions.map snd)
    (hsent : ∀ k, (s.objects k).closedMessageSent = true → (s'.objects k).closedMessageSent = true)
    (hopens : ∀ terminalId, response.opens terminalId = false)
    (hdata : ∀ terminalId, response.isDataFor terminalId = false)
    (hcloses : ∀ terminalId, response.closes terminalId = true →
      (∀ response ∈ s.inFlight c, response.isDataFor terminalId = false) ∧
        ∀ k, s.opened k = some (c, terminalId) → k ∉ s'.sessions.map snd ∧ (terminalId, k) ∉ (s.polls c).todo) :
    Quiet s' c := by
  have hflight : s'.inFlight c = s.inFlight c := by rw [inFlight, hpoll, hqueue, inFlight]
  have htrace (id : Int) : s'.trace c id = sinceOpened id (s.wires c) ++ [response] ++ s.inFlight c := by
    rw [trace, hflight, hwire, sinceOpened_concat (hopens id)]
  refine ⟨?_, ?_, ?_, ?_, ?_, ?_⟩
  · rw [hflight]
    exact h.unopened
  · rw [hpoll]
    exact h.listed
  · rw [hpoll]
    exact h.done
  · intro k id hk hmem
    rw [hopened] at hk
    rw [hpoll] at hmem ⊢
    obtain ⟨hmarked, hsnapshot⟩ := h.closing k id hk hmem
    exact ⟨hsent k hmarked, fun sessions hsome hin => hsnapshot sessions hsome (hlive k hin)⟩
  · intro k id hk hclosed
    rw [hopened] at hk
    rw [htrace] at hclosed
    rw [hpoll]
    obtain ⟨earlier, hmem, hearlier⟩ := hclosed
    rw [append_assoc, mem_append, singleton_append, mem_cons] at hmem
    rcases hmem with hmem | rfl | hmem
    · obtain ⟨hgone, htodo⟩ := h.closed k id hk ⟨earlier, mem_append_left _ hmem, hearlier⟩
      exact ⟨fun hin => hgone (hlive k hin), htodo⟩
    · exact (hcloses id hearlier).2 k hk
    · obtain ⟨hgone, htodo⟩ := h.closed k id hk ⟨earlier, mem_append_right _ hmem, hearlier⟩
      exact ⟨fun hin => hgone (hlive k hin), htodo⟩
  · intro id
    rw [htrace]
    exact (h.silent id).insert (hdata id) fun hc => (hcloses id hc).1

theorem Steady.answerError (h : Steady s) (message : String) : Steady (s.answer c (.error message)) :=
  h.of_connection (h.mapped.shrink (List.Sublist.refl _) rfl fun _ _ => id)
    (fun _ hc => ⟨rfl, rfl, update_of_ne hc ..⟩) (fun _ _ _ _ hk => ⟨hk, id, id⟩)
    ((h.quiet c).answer rfl rfl (update_self ..) rfl (fun _ => id) (fun _ => id) (fun _ => rfl) (fun _ => rfl) nofun)

/-- What closing a terminal does if it exists. -/
theorem handleClose_spec (killed : Except String Unit) (c : ℕ) (hat : sessionAt s.sessions terminalId = some object) :
    ∃ response, s.handleClose c terminalId killed =
        (({ s with sessions := withoutSession s.sessions terminalId }).setObject object
          (s.objects object).release).answer c response ∧
      ((∃ message, response = .error message) ∨
        ((s.objects object).child.isSome → killed.isOk) ∧ ∃ exitCode, response = .closed { terminalId, exitCode }) := by
  simp only [handleClose, hat]
  refine ⟨_, rfl, ?_⟩
  split
  · cases killed with
    | error err => exact .inl ⟨_, rfl⟩
    | ok => exact .inr ⟨fun _ => rfl, -1, rfl⟩
  next hnone => exact .inr ⟨fun hsome => absurd hsome hnone, 0, rfl⟩

theorem Steady.handleClose (h : Steady s) {killed : Except String Unit}
    (hok : s.Orderly (.closeTerminal c terminalId killed)) : Steady (s.handleClose c terminalId killed) := by
  cases hat : sessionAt s.sessions terminalId with
  | none =>
    simp only [TerminalStreams.handleClose, hat]
    exact h
  | some object =>
    obtain ⟨response, hclose, hresponse⟩ := handleClose_spec killed c hat
    have hcloses (id : Int) (hc : response.closes id = true) :
        id = terminalId ∧ ((s.objects object).child.isSome → killed.isOk) := by
      obtain ⟨message, rfl⟩ | ⟨hkilled, exitCode, rfl⟩ := hresponse
      · exact nomatch hc
      · exact ⟨(by simpa [TerminalResponse.closes] using hc : terminalId = id).symm, hkilled⟩
    have hneutral (id : Int) : response.opens id = false ∧ response.isDataFor id = false := by
      obtain ⟨message, rfl⟩ | ⟨-, exitCode, rfl⟩ := hresponse <;> exact ⟨rfl, rfl⟩
    have hlive (k : ℕ) (hin : k ∈ (withoutSession s.sessions terminalId).map snd) : k ∈ s.sessions.map snd :=
      (withoutSession_sublist.map snd).subset hin
    have hsent (k : ℕ) (hk : (s.objects k).closedMessageSent = true) :
        (Function.update s.objects object (s.objects object).release k).closedMessageSent = true := by
      obtain ⟨child, hobject⟩ := update_release s object k
      rw [hobject]
      exact hk
    rw [hclose]
    refine h.of_connection (h.mapped.shrink withoutSession_sublist rfl fun _ _ => id)
      (fun c' hc => ⟨rfl, rfl, Function.update_of_ne hc ..⟩) (fun k c' id _ hk => ⟨hk, hlive k, hsent k⟩)
      ((h.quiet c).answer rfl rfl (Function.update_self ..) rfl hlive hsent (fun id => (hneutral id).1)
        (fun id => (hneutral id).2) ?_)
    intro id hc
    obtain ⟨rfl, hkilled⟩ := hcloses id hc
    obtain ⟨hdata, htodo⟩ := hok object hat hkilled
    refine ⟨hdata, fun k hk => ⟨fun hin => ?_, htodo k hk⟩⟩
    obtain ⟨x, hx, rfl⟩ := mem_map.mp hin
    obtain ⟨hx, hne⟩ := mem_withoutSession.mp hx
    exact hne (h.mapped.named x.2 c id hk x hx rfl)

theorem Steady.resetStatus (h : Steady s) (isPersistent : Bool) : Steady (s.resetStatus isPersistent) where
  mapped := h.mapped.shrink (List.Sublist.refl _) rfl fun _ _ hk => nomatch hk
  quiet c := (h.quiet c).frame rfl rfl rfl fun _ _ hk => nomatch hk

theorem opened_markOpened {object k' : ℕ} {owner : ℕ × Int} :
    (s.markOpened c terminalId object).opened k' = some owner ↔
      k' = object ∧ owner = (c, terminalId) ∨ k' ≠ object ∧ s.opened k' = some owner ∧ owner ≠ (c, terminalId) := by
  unfold markOpened
  by_cases hk : k' = object
  · subst hk
    simp [eq_comm]
  · simp only [update_of_ne hk, hk, false_and, false_or, ne_eq, not_false_eq_true, true_and]
    split
    next heq =>
      rw [heq]
      simp only [reduceCtorEq, Option.some.injEq, false_iff, not_and, not_not]
      exact fun h => h.symm
    next hne =>
      refine ⟨fun h => ⟨h, ?_⟩, fun h => h.1⟩
      rintro rfl
      exact hne h

theorem Mapped.opens (h : Mapped s) (hopened : s'.opened = (s.markOpened c terminalId object).opened)
    (hids : (s'.sessions.map fst).Nodup) (hobjects : (s'.sessions.map snd).Nodup)
    (hallocated : ∀ x ∈ s'.sessions, x.2 < s'.nextObject) (hcreated : object < s'.nextObject)
    (hnext : s.nextObject ≤ s'.nextObject) (hold : ∀ x ∈ s'.sessions, x.2 ≠ object → x ∈ s.sessions)
    (hnew : ∀ x ∈ s'.sessions, x.2 = object → x.1 = terminalId) : Mapped s' := by
  refine ⟨hids, hobjects, hallocated, ?_, ?_, ?_⟩ <;> rw [hopened]
  · intro k owner hk
    rcases opened_markOpened.mp hk with ⟨rfl, -⟩ | ⟨-, hk, -⟩
    · exact hcreated
    · exact lt_of_lt_of_le (h.created k owner hk) hnext
  · intro k k' owner hk hk'
    rcases opened_markOpened.mp hk with ⟨rfl, rfl⟩ | ⟨-, hk, hne⟩ <;>
      rcases opened_markOpened.mp hk' with ⟨rfl, howner⟩ | ⟨-, hk', hne'⟩
    · rfl
    · exact absurd rfl hne'
    · exact absurd howner hne
    · exact h.unique k k' owner hk hk'
  · intro k c' id hk x hx hxk
    rcases opened_markOpened.mp hk with ⟨rfl, howner⟩ | ⟨hne, hk, -⟩
    · rw [(Prod.mk.inj howner).2]
      exact hnew x hx hxk
    · exact h.named k c' id hk x (hold x hx (by rwa [hxk])) hxk

/-- The client that opens a terminal. -/
theorem Quiet.opens (h : Quiet s c) (hmessage : message.terminalId = terminalId)
    (hpoll : s'.polls c = s.polls c) (hqueue : s'.queues c = s.queues c)
    (hwire : s'.wires c = s.wires c ++ [.opened message])
    (hopened : s'.opened = (s.markOpened c terminalId object).opened)
    (hlive : ∀ k, k ≠ object → k ∈ s'.sessions.map snd → k ∈ s.sessions.map snd)
    (hkept : ∀ k, k ≠ object → s'.objects k = s.objects k)
    (hclear : ∀ response ∈ s.inFlight c, response.closes terminalId = false ∧ response.isDataFor terminalId = false)
    (hclosing : terminalId ∉ (s.polls c).closedTerminals) : Quiet s' c := by
  have hflight : s'.inFlight c = s.inFlight c := by rw [inFlight, hpoll, hqueue, inFlight]
  have htrace : s'.trace c terminalId = s.inFlight c := by
    rw [trace, hflight, hwire, sinceOpened_concat_of_opens (by simpa [TerminalResponse.opens] using hmessage)]
    rfl
  have htrace' (id : Int) (hne : id ≠ terminalId) :
      s'.trace c id = sinceOpened id (s.wires c) ++ [.opened message] ++ s.inFlight c := by
    rw [trace, hflight, hwire, sinceOpened_concat]
    rw [← hmessage] at hne
    simpa [TerminalResponse.opens] using Ne.symm hne
  refine ⟨?_, ?_, ?_, ?_, ?_, ?_⟩
  · rw [hflight]
    exact h.unopened
  · rw [hpoll]
    exact h.listed
  · rw [hpoll]
    exact h.done
  · intro k id hk hmem
    rw [hopened] at hk
    rw [hpoll] at hmem ⊢
    rcases opened_markOpened.mp hk with ⟨-, howner⟩ | ⟨hne, hk, -⟩
    · rw [(Prod.mk.inj howner).2] at hmem
      exact absurd hmem hclosing
    · obtain ⟨hmarked, hsnapshot⟩ := h.closing k id hk hmem
      rw [hkept k hne]
      exact ⟨hmarked, fun sessions hsome hin => hsnapshot sessions hsome (hlive k hne hin)⟩
  · intro k id hk hclosed
    rw [hopened] at hk
    obtain ⟨response, hmem, hcloses⟩ := hclosed
    rcases opened_markOpened.mp hk with ⟨-, howner⟩ | ⟨hne, hk, howner⟩
    · rw [(Prod.mk.inj howner).2] at hmem hcloses
      rw [htrace] at hmem
      rw [(hclear response hmem).1] at hcloses
      exact absurd hcloses (by simp)
    · have hid : id ≠ terminalId := fun heq => howner (by rw [heq])
      rw [htrace' id hid, append_assoc, mem_append, singleton_append, mem_cons] at hmem
      have hthere : ∃ response ∈ s.trace c id, response.closes id = true := by
        rcases hmem with hmem | rfl | hmem
        · exact ⟨response, mem_append_left _ hmem, hcloses⟩
        · exact nomatch hcloses
        · exact ⟨response, mem_append_right _ hmem, hcloses⟩
      rw [hpoll]
      obtain ⟨hgone, htodo⟩ := h.closed k id hk hthere
      exact ⟨fun hin => hgone (hlive k hne hin), htodo⟩
  · intro id
    by_cases hid : id = terminalId
    · rw [hid, htrace]
      exact (h.silent terminalId).sublist (sublist_append_right ..)
    · rw [htrace' id hid]
      exact (h.silent id).insert rfl nofun

/-- A client opens a terminal about which nothing is on its way to it. -/
theorem Steady.opens (h : Steady s) (hmessage : message.terminalId = terminalId)
    (hpolls : s'.polls = s.polls) (hqueues : s'.queues = s.queues)
    (hwires : s'.wires = update s.wires c (s.wires c ++ [.opened message]))
    (hopened : s'.opened = (s.markOpened c terminalId object).opened)
    (hids : (s'.sessions.map fst).Nodup) (hobjects : (s'.sessions.map snd).Nodup)
    (hallocated : ∀ x ∈ s'.sessions, x.2 < s'.nextObject) (hcreated : object < s'.nextObject)
    (hnext : s.nextObject ≤ s'.nextObject) (hold : ∀ x ∈ s'.sessions, x.2 ≠ object → x ∈ s.sessions)
    (hnew : ∀ x ∈ s'.sessions, x.2 = object → x.1 = terminalId) (hkept : ∀ k, k ≠ object → s'.objects k = s.objects k)
    (hclear : ∀ response ∈ s.inFlight c, response.closes terminalId = false ∧ response.isDataFor terminalId = false)
    (hclosing : ∀ c', terminalId ∉ (s.polls c').closedTerminals) : Steady s' := by
  have hlive (k : ℕ) (hne : k ≠ object) (hin : k ∈ s'.sessions.map snd) : k ∈ s.sessions.map snd := by
    obtain ⟨x, hx, rfl⟩ := mem_map.mp hin
    exact mem_map_of_mem (hold x hx hne)
  have hmapped := h.mapped.opens hopened hids hobjects hallocated hcreated hnext hold hnew
  have hquiet := (h.quiet c).opens hmessage (congrFun hpolls c) (congrFun hqueues c)
    (by rw [hwires, update_self]) hopened hlive hkept hclear (hclosing c)
  refine h.of_connection hmapped (fun c' hc => ⟨congrFun hpolls c', congrFun hqueues c', ?_⟩) ?_ hquiet
  · rw [hwires, update_of_ne hc]
  · intro k c' id hc hk
    rw [hopened] at hk
    rcases opened_markOpened.mp hk with ⟨-, howner⟩ | ⟨hne, hk, -⟩
    · exact absurd (Prod.mk.inj howner).1 hc
    · refine ⟨hk, hlive k hne, fun hsent => ?_⟩
      rwa [hkept k hne]

theorem handleOpen_of_target (spawned : Except String ℕ) (c : ℕ) (htarget : s.target request.terminalId = some object) :
    ∃ message : TerminalOpened, message.terminalId = request.terminalId ∧ s.handleOpen c request spawned =
        ((({ s with sessions := s.remapped request.terminalId, needsSessionSync := false }.setObject object
          (s.objects object).reconnect).markOpened c request.terminalId object).answer c (.opened message)) := by
  simp only [handleOpen, show sessionAt (s.remapped request.terminalId) request.terminalId = some object from htarget]
  exact ⟨_, rfl, rfl⟩

theorem handleOpen_of_spawned (pid c : ℕ) (htarget : s.target request.terminalId = none) :
    ∃ message : TerminalOpened, message.terminalId = request.terminalId ∧ s.handleOpen c request (.ok pid) = ((({ s with
            sessions := (request.terminalId, s.nextObject) :: s.remapped request.terminalId
            nextObject := s.nextObject + 1
            needsSessionSync := false }.setObject s.nextObject (create request pid)).markOpened c
          request.terminalId s.nextObject).answer c (.opened message)) := by
  simp only [handleOpen, show sessionAt (s.remapped request.terminalId) request.terminalId = none from htarget]
  exact ⟨_, rfl, rfl⟩

theorem handleOpen_of_error (err : String) (c : ℕ) (htarget : s.target request.terminalId = none) :
    s.handleOpen c request (.error err) = s.answer c (.error ("Failed to handle action: " ++ err)) := by
  simp only [handleOpen, show sessionAt (s.remapped request.terminalId) request.terminalId = none from htarget]

theorem Steady.handleOpen (h : Steady s) {spawned : Except String ℕ}
    (hok : s.Orderly (.openTerminal c request spawned)) : Steady (s.handleOpen c request spawned) := by
  obtain ⟨hids, hobjects, hold, hlive⟩ := h.mapped.remapped request.terminalId
  have hallocated (x) (hx : x ∈ s.remapped request.terminalId) : x.2 < s.nextObject := by
    obtain ⟨y, hy, heq⟩ := mem_map.mp (hlive x.2 (mem_map_of_mem hx))
    rw [← heq]
    exact h.mapped.allocated y hy
  cases htarget : s.target request.terminalId with
  | some object =>
    obtain ⟨hclear, hclosing⟩ := hok (.inl (by rw [htarget]; rfl))
    obtain ⟨message, hmessage, hopen⟩ := handleOpen_of_target spawned c htarget
    have hmem : (request.terminalId, object) ∈ s.remapped request.terminalId := mem_of_sessionAt htarget
    rw [hopen]
    refine h.opens hmessage rfl rfl rfl rfl hids hobjects hallocated (hallocated _ hmem) le_rfl ?_ ?_
      (fun k hk => update_of_ne hk ..) hclear hclosing
    · intro x hx hne
      rcases hold x hx with hx | ⟨-, heq⟩
      · exact hx
      · rw [htarget] at heq
        exact absurd (Option.some.inj heq).symm hne
    · intro x hx hxk
      rw [inj_on_of_nodup_map hobjects hx hmem hxk]
  | none =>
    cases spawned with
    | error err =>
      rw [handleOpen_of_error err c htarget]
      exact h.answerError _
    | ok pid =>
      obtain ⟨hclear, hclosing⟩ := hok (.inr rfl)
      obtain ⟨message, hmessage, hopen⟩ := handleOpen_of_spawned pid c htarget
      have hfresh : s.nextObject ∉ (s.remapped request.terminalId).map snd := by
        intro hin
        obtain ⟨x, hx, heq⟩ := mem_map.mp hin
        exact absurd (hallocated x hx) (by omega)
      rw [hopen]
      refine h.opens hmessage rfl rfl rfl rfl ?_ ?_ ?_ (Nat.lt_succ_self _) (Nat.le_succ _) ?_ ?_
        (fun k hk => update_of_ne hk ..) hclear hclosing
      · exact nodup_cons.mpr ⟨sessionAt_eq_none.mp htarget, hids⟩
      · exact nodup_cons.mpr ⟨hfresh, hobjects⟩
      · intro x hx
        rcases mem_cons.mp hx with rfl | hx
        · exact Nat.lt_succ_self _
        · exact Nat.lt_succ_of_lt (hallocated x hx)
      · intro x hx hne
        rcases mem_cons.mp hx with rfl | hx
        · exact absurd rfl hne
        · rcases hold x hx with hx | ⟨-, heq⟩
          · exact hx
          · rw [htarget] at heq
            exact nomatch heq
      · intro x hx hxk
        rcases mem_cons.mp hx with rfl | hx
        · rfl
        · exact absurd (hxk ▸ mem_map_of_mem hx) hfresh

theorem Steady.list (h : Steady s) (hpoll : s.polls c = .started isPersistent) (hperm : sessions.Perm s.sessions) :
    Steady (s.setPoll c (.reading isPersistent sessions [] [])) := by
  refine h.setPoll (by rw [hpoll]; rfl) ?_ (fun x hx => .inr (hperm.subset hx)) nofun nofun
  exact (hperm.map fst).nodup_iff.mpr h.mapped.ids

section Steady

variable (h : Steady s) {isPersistent : Bool} {responses : List TerminalResponse} {closedTerminals : List Int}
include h

theorem Steady.skip {head : Int × ℕ}
    (hpoll : s.polls c = .reading isPersistent (head :: sessions) responses closedTerminals) :
    Steady (s.setPoll c (.reading isPersistent sessions responses closedTerminals)) := by
  have hlisted := (h.quiet c).listed
  have hdone := (h.quiet c).done
  rw [hpoll, Poll.todo, map_cons, nodup_cons] at hlisted
  rw [hpoll, Poll.closedTerminals, Poll.todo, map_cons] at hdone
  refine h.setPoll (by rw [hpoll]; rfl) hlisted.2 (fun x hx => .inl ?_) (fun terminalId hmem => ⟨?_, ?_⟩) nofun
  · rw [hpoll]
    exact mem_cons_of_mem _ hx
  · rw [hpoll]
    exact hmem
  · exact fun hin => hdone terminalId hmem (mem_cons_of_mem _ hin)

theorem Steady.clean (hpoll : s.polls c = .reading isPersistent [] responses closedTerminals) :
    Steady (s.setPoll c (.cleaning isPersistent s.sessions responses closedTerminals)) := by
  refine h.setPoll (by rw [hpoll]; rfl) nodup_nil nofun (fun terminalId hmem => ⟨?_, nofun⟩)
    fun sessions hsome => (Option.some.inj hsome).symm
  rw [hpoll]
  exact hmem

end Steady

/-- An orderly step keeps the invariant. -/
theorem Steady.step (h : Steady s) (e : TerminalEvent) (hok : s.Orderly e) : Steady (s.step codec e) := by
  cases e with
  | output object data =>
    refine h.setObject fun hsent => ?_
    unfold TerminalSession.trySendOutput
    split <;> exact hsent
  | readerEnds object => exact h.setObject fun hsent => hsent
  | exit object code =>
    simp only [TerminalStreams.step]
    split
    · exact h.setObject fun hsent => hsent
    · exact h
  | reset isPersistent => exact h.resetStatus isPersistent
  | openTerminal connection request spawned => exact h.handleOpen hok
  | closeTerminal connection terminalId killed => exact h.handleClose hok
  | poll connection =>
    simp only [TerminalStreams.step]
    split
    next hpoll => exact h.setPoll (by rw [hpoll]; rfl) nodup_nil nofun nofun nofun
    · exact h
  | list connection sessions =>
    simp only [TerminalStreams.step]
    split
    next hpoll =>
      split
      next hperm => exact h.list hpoll (isPerm_iff.mp hperm)
      · exact h
    · exact h
  | read connection late resizeOk => exact h.readNext hok
  | skip connection =>
    simp only [TerminalStreams.step]
    split
    next hpoll => exact h.skip hpoll
    · exact h
  | endReading connection =>
    simp only [TerminalStreams.step]
    split
    next hpoll => exact h.queue (by rw [hpoll]; rfl)
    next hpoll => exact h.clean hpoll
    · exact h
  | cleanup connection => exact h.cleanupNext
  | endCleanup connection =>
    simp only [TerminalStreams.step]
    split
    next hpoll => exact h.queue (by rw [hpoll]; rfl)
    · exact h
  | send connection => exact h.sendNext

theorem steady_start : Steady {} where
  mapped := ⟨nodup_nil, nodup_nil, nofun, nofun, nofun, nofun⟩
  quiet _ := ⟨nofun, nodup_nil, nofun, nofun, nofun, fun _ => List.Pairwise.nil⟩

end Steps

end TerminalStreams

end UnyDesk
