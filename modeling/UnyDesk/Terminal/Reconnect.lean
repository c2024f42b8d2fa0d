import Mathlib.Data.List.Perm.Subperm
import UnyDesk.Terminal.Orderly

/-!
# Terminal sessions across reconnects

A client that comes back asks for terminals by ids of its own. The first that it opens takes over the surviving session
with the lowest id, and is told the ids of the others. Here the calls of a service come one after the other.
-/

namespace UnyDesk

open Lib Function TerminalStreams List Nat Prod List.Subset

/-- What `read_outputs` does with a session that it listed: it is read, if its lock is free. -/
abbrev SessionVisit := (Int × ℕ) × Option (List Bytes × Bool)

/-- A call of the service, or what the processes of a session do in between. -/
inductive ServiceCall
  | output (object : ℕ) (data : Bytes)
  | readerEnds (object : ℕ)
  | exit (object : ℕ) (code : Int)
  | resetStatus (isPersistent : Bool)
  | openTerminal (connection : ℕ) (userToken : Bool) (request : OpenTerminal) (spawned : Except String ℕ)
  | closeTerminal (connection : ℕ) (terminalId : Int) (killed : Except String Unit)
  | readOutputs (connection : ℕ) (isPersistent : Bool) (visits : List SessionVisit)

namespace ServiceCall

def isReset : ServiceCall → Bool
  | .resetStatus _ => true
  | _ => false

def isRead : ServiceCall → Bool
  | .readOutputs .. => true
  | _ => false

def closes (terminalId : Int) : ServiceCall → Bool
  | .closeTerminal _ terminalId' _ => terminalId' = terminalId
  | _ => false

end ServiceCall

/-- The steps of `read_outputs` after the sessions were listed. -/
def TerminalEvent.readsFor (c : ℕ) : TerminalEvent → Bool
  | .read connection _ _ | .skip connection | .endReading connection | .cleanup connection | .endCleanup connection =>
    connection = c
  | _ => false

namespace TerminalSession

section

variable (session : TerminalSession)

def ShellExited : Prop := ∃ code, session.child = some (some code)

/-- What `read_outputs` asks: the reader thread has finished or the shell has exited. -/
def Ended : Prop := session.readerFinished = true ∨ session.ShellExited

theorem processes_readOutputs (codec : Codec) (terminalId : Int) (late : List Bytes) (resizeOk : Bool) :
    (session.readOutputs codec terminalId late resizeOk).1.readerFinished = session.readerFinished ∧
      (session.readOutputs codec terminalId late resizeOk).1.child = session.child := by
  obtain ⟨ptySize, state, hread⟩ := session.readOutputs_drains codec terminalId late resizeOk
  rw [hread]
  exact ⟨rfl, rfl⟩

end

theorem ended_of_shouldSendClosed {session : TerminalSession} (h : session.shouldSendClosed = true) :
    session.Ended := by
  simp only [shouldSendClosed, Bool.and_eq_true, Bool.or_eq_true, Option.any_eq_true] at h
  obtain ⟨-, hreader | ⟨exited, hchild, hexited⟩⟩ := h
  · exact .inl hreader
  · obtain ⟨code, rfl⟩ := Option.isSome_iff_exists.mp hexited
    exact .inr ⟨code, hchild⟩

theorem Ended.congr {session session' : TerminalSession} (h : session.Ended)
    (hreader : session'.readerFinished = session.readerFinished) (hchild : session'.child = session.child) :
    session'.Ended := by
  unfold Ended ShellExited at h ⊢
  rwa [hreader, hchild]

end TerminalSession

namespace TerminalStreams

variable {object : ℕ} {terminalId : Int} {opened : TerminalOpened}

section Calls

variable (codec : Codec) (s : TerminalStreams)

section

variable (connection : ℕ)

/-- The shell runs in a helper process, which owns the PTY and the child. -/
def handleOpenWithHelper (request : OpenTerminal) (spawned : Except String ℕ) : TerminalStreams :=
  let terminalId := request.terminalId
  match spawned with
  | .error err => s.answer connection (.error ("Failed to handle action: " ++ err))
  | .ok pid =>
    let session := { TerminalSession.create request pid with child := none }
    let opened : TerminalOpened :=
      { terminalId, success := true, message := "Terminal opened (helper mode)", pid
        persistentSessions := if s.needsSessionSync then s.sessions.map Prod.fst else [] }
    ({ s with
        sessions := (terminalId, s.nextObject) :: s.sessions
        nextObject := s.nextObject + 1
        needsSessionSync := false }.setObject s.nextObject session).markOpened connection terminalId s.nextObject
      |>.answer connection (.opened opened)

/-- `handle_open`: on Windows the shell of a new session is run as the user if there is a token. -/
def openTerminal (userToken : Bool) (request : OpenTerminal) (spawned : Except String ℕ) : TerminalStreams :=
  if userToken && (s.target request.terminalId).isNone then
    { s with sessions := s.remapped request.terminalId }.handleOpenWithHelper connection request spawned
  else s.handleOpen connection request spawned

def visitEvent (visit : SessionVisit) : TerminalEvent :=
  match visit.2 with
  | some (late, resizeOk) => .read connection late resizeOk
  | none => .skip connection

/-- `read_outputs`: the sessions are visited in the order in which they were listed, and those that have ended are
removed. -/
def readOutputs (isPersistent : Bool) (visits : List SessionVisit) : TerminalStreams :=
  let listed := s.setPoll connection (.reading isPersistent (visits.map Prod.fst) [] [])
  let read := runEvents (step codec) listed (visits.map (visitEvent connection) ++ [.endReading connection])
  let cleanups := (read.polls connection).closedTerminals.map fun _ => TerminalEvent.cleanup connection
  runEvents (step codec) read (cleanups ++ [.endCleanup connection])

end

def serve : ServiceCall → TerminalStreams
  | .output object data => s.step codec (.output object data)
  | .readerEnds object => s.step codec (.readerEnds object)
  | .exit object code => s.step codec (.exit object code)
  | .resetStatus isPersistent => s.resetStatus isPersistent
  | .openTerminal connection userToken request spawned => s.openTerminal connection userToken request spawned
  | .closeTerminal connection terminalId killed => s.handleClose connection terminalId killed
  | .readOutputs connection isPersistent visits =>
    -- the sessions of a hash map are listed in any order
    if (visits.map Prod.fst).isPerm s.sessions then s.readOutputs codec connection isPersistent visits else s

/-- A session map in which ids and sessions occur once. -/
structure Settled : Prop where
  ids : (s.sessions.map Prod.fst).Nodup
  objects : (s.sessions.map Prod.snd).Nodup
  allocated : ∀ x ∈ s.sessions, x.2 < s.nextObject

/-- A session of the map stays there under exactly one id, unless it is closed or read when it is gone. -/
def Keeps (gone : TerminalSession → Prop) (call : ServiceCall) : Prop :=
  ∀ terminalId object, (terminalId, object) ∈ s.sessions →
    (∃! terminalId', (terminalId', object) ∈ (s.serve codec call).sessions) ∨ call.closes terminalId = true ∨
      call.isRead = true ∧ gone (s.objects object)

/-- The number of sessions that a call gives another id. -/
def remaps (call : ServiceCall) : ℕ :=
  (s.sessions.filter fun x => x ∉ (s.serve codec call).sessions ∧
    x.2 ∈ (s.serve codec call).sessions.map Prod.snd).length

/-- The response of a call that opens a terminal. -/
def openedBy (call : ServiceCall) : Option TerminalOpened :=
  match call with
  | .openTerminal connection .. =>
    match ((s.serve codec call).wires connection).getLast? with
    | some (.opened opened) => if opened.success then some opened else none
    | _ => none
  | _ => none

/-- The calls remap at most one session while the status is not reset. -/
def RemapsOnce (calls : List ServiceCall) : Prop :=
  ∀ before later, calls = before ++ later → (∀ call ∈ later, call.isReset = false) →
    runCost (serve codec) (remaps codec) (runEvents (serve codec) s before) later ≤ 1

/-- The first terminal that is opened after a reset and the persistent sessions of its response are the keys of the
session map, each once. -/
def ListsSessions (calls : List ServiceCall) : Prop :=
  ∀ before isPersistent middle call after opened,
    calls = before ++ .resetStatus isPersistent :: middle ++ call :: after →
    let attached := runEvents (serve codec) s (before ++ [.resetStatus isPersistent])
    RunMeets (serve codec) (fun t call => t.openedBy codec call = none) attached middle →
    (runEvents (serve codec) attached middle).openedBy codec call = some opened →
    let sessions := (runEvents (serve codec) attached (middle ++ [call])).sessions
    (opened.terminalId :: opened.persistentSessions).Perm (sessions.map Prod.fst) ∧
      (opened.terminalId :: opened.persistentSessions).Nodup

end Calls

section SessionMap

variable {s s' : TerminalStreams} {terminalId : Int} {c : ℕ}

section Settled

variable (h : s.Settled) {x y : Int × ℕ}
include h

namespace Settled

theorem mapped : Mapped { s with opened := fun _ => none } :=
  ⟨h.ids, h.objects, h.allocated, nofun, nofun, nofun⟩

/-- The session map loses entries only. -/
theorem shrink (hsessions : s'.sessions.Sublist s.sessions) (hnext : s'.nextObject = s.nextObject) : s'.Settled := by
  have hmapped : Mapped { s' with opened := fun _ => none } := h.mapped.shrink hsessions hnext nofun
  exact ⟨hmapped.ids, hmapped.objects, hmapped.allocated⟩

theorem congr (hsessions : s'.sessions = s.sessions) (hnext : s'.nextObject = s.nextObject) : s'.Settled := by
  refine h.shrink ?_ hnext
  rw [hsessions]

/-- An id and a session that are both new are added. -/
theorem insert (hid : terminalId ∉ s.sessions.map Prod.fst)
    (hsessions : s'.sessions = (terminalId, s.nextObject) :: s.sessions) (hnext : s'.nextObject = s.nextObject + 1) :
    s'.Settled where
  ids := by
    rw [hsessions, map_cons, nodup_cons]
    exact ⟨hid, h.ids⟩
  objects := by
    rw [hsessions, map_cons, nodup_cons]
    refine ⟨fun hin => ?_, h.objects⟩
    obtain ⟨x, hx, hobject⟩ := mem_map.mp hin
    exact absurd (h.allocated x hx) (by rw [hobject]; exact lt_irrefl _)
  allocated x hx := by
    rw [hsessions] at hx
    rw [hnext]
    rcases mem_cons.mp hx with rfl | hx
    · exact lt_succ_self _
    · exact lt_succ_of_lt (h.allocated x hx)

theorem eq_of_object (hx : x ∈ s.sessions) (hy : y ∈ s.sessions) (hobject : x.2 = y.2) : x = y :=
  inj_on_of_nodup_map h.objects hx hy hobject

theorem eq_of_id (hx : x ∈ s.sessions) (hy : y ∈ s.sessions) (hid : x.1 = y.1) : x = y :=
  inj_on_of_nodup_map h.ids hx hy hid

/-- A session that is in the map is there under one id. -/
theorem existsUnique (hin : object ∈ s.sessions.map Prod.snd) : ∃! terminalId, (terminalId, object) ∈ s.sessions := by
  obtain ⟨x, hx, rfl⟩ := mem_map.mp hin
  refine ⟨x.1, hx, fun terminalId hmem => ?_⟩
  exact congrArg fst (h.eq_of_object hmem hx rfl)

end Settled

end Settled

/-- Asked for an id that is free, a map that is not empty gives up a session if one may be renamed. -/
theorem sessions_eq_nil_of_target (hsync : s.needsSessionSync = true) (htarget : s.target terminalId = none) :
    s.sessions = [] := by
  by_contra hne
  cases hat : sessionAt s.sessions terminalId with
  | some object =>
    have hsame : s.remapped terminalId = s.sessions := by
      simp [remapped, hat]
    rw [target, hsame, hat] at htarget
    cases htarget
  | none =>
    obtain ⟨lowestId, hlowest⟩ : ∃ lowestId, (s.sessions.map fst).min? = some lowestId := by
      cases hmin : (s.sessions.map fst).min? with
      | some lowestId => exact ⟨lowestId, rfl⟩
      | none => exact absurd (map_eq_nil_iff.mp (min?_eq_none_iff.mp hmin)) hne
    have hin : lowestId ∈ s.sessions.map fst := min?_mem hlowest
    cases hobject : sessionAt s.sessions lowestId with
    | none => exact absurd hin (sessionAt_eq_none.mp hobject)
    | some object =>
      have hrenamed : s.remapped terminalId = (terminalId, object) :: withoutSession s.sessions lowestId := by
        simp [remapped, hat, hsync, hlowest, hobject]
      rw [target, hrenamed] at htarget
      simp [sessionAt] at htarget

theorem remapped_of_target (htarget : s.target terminalId = none) : s.remapped terminalId = s.sessions := by
  obtain hsame | ⟨lowestId, object, -, -, -, hrenamed⟩ := remapped_cases s terminalId
  · exact hsame
  · rw [target, hrenamed] at htarget
    simp [sessionAt] at htarget

theorem Settled.remapped (h : s.Settled) (hsessions : s'.sessions = s.remapped terminalId)
    (hnext : s'.nextObject = s.nextObject) : s'.Settled := by
  obtain ⟨hids, hobjects, -, hlive⟩ := h.mapped.remapped terminalId
  refine ⟨?_, ?_, fun x hx => ?_⟩
  · rw [hsessions]
    exact hids
  · rw [hsessions]
    exact hobjects
  · rw [hsessions] at hx
    obtain ⟨y, hy, hobject⟩ := mem_map.mp (hlive x.2 (mem_map_of_mem hx))
    rw [hnext, ← hobject]
    exact h.allocated y hy

/-- No session is lost when one is renamed. -/
theorem Settled.mem_remapped (h : s.Settled) (hin : object ∈ s.sessions.map Prod.snd) :
    object ∈ (s.remapped terminalId).map Prod.snd := by
  obtain hsame | ⟨lowestId, lowest, -, -, hlowest, hrenamed⟩ := remapped_cases s terminalId
  · rw [hsame]
    exact hin
  rw [hrenamed]
  obtain ⟨x, hx, rfl⟩ := mem_map.mp hin
  by_cases hid : x.1 = lowestId
  · rw [h.eq_of_id hx (mem_of_sessionAt hlowest) hid]
    exact mem_map.mpr ⟨(terminalId, lowest), mem_cons_self, rfl⟩
  · exact mem_map_of_mem (mem_cons_of_mem _ (mem_withoutSession.mpr ⟨hx, hid⟩))

end SessionMap

section Opening

variable {s s' : TerminalStreams} {terminalId : Int} {c : ℕ}

/-- What comes of a request to open a terminal. -/
inductive Opening (s : TerminalStreams) (c : ℕ) (terminalId : Int) (s' : TerminalStreams) : Prop
  | refused (message : String) (sessions : s'.sessions = s.sessions) (nextObject : s'.nextObject = s.nextObject)
      (sync : s'.needsSessionSync = s.needsSessionSync) (wire : s'.wires c = s.wires c ++ [.error message])
  | reconnected (object : ℕ) (opened : TerminalOpened) (target : s.target terminalId = some object)
      (sessions : s'.sessions = s.remapped terminalId) (nextObject : s'.nextObject = s.nextObject)
      (sync : s'.needsSessionSync = false) (wire : s'.wires c = s.wires c ++ [.opened opened])
      (success : opened.success = true) (id : opened.terminalId = terminalId)
      (persistentSessions : opened.persistentSessions =
        if s.needsSessionSync && decide (1 < (s.remapped terminalId).length) then
          ((s.remapped terminalId).map Prod.fst).filter (· ≠ terminalId)
        else [])
  | created (opened : TerminalOpened) (target : s.target terminalId = none)
      (sessions : s'.sessions = (terminalId, s.nextObject) :: s.sessions) (nextObject : s'.nextObject = s.nextObject + 1)
      (sync : s'.needsSessionSync = false) (wire : s'.wires c = s.wires c ++ [.opened opened])
      (success : opened.success = true) (id : opened.terminalId = terminalId)
      (persistentSessions : opened.persistentSessions = if s.needsSessionSync then s.sessions.map Prod.fst else [])

/-- The three ways in which a terminal is opened, and the two in which it is not. -/
theorem openTerminal_opening (s : TerminalStreams) (c : ℕ) (userToken : Bool) (request : OpenTerminal)
    (spawned : Except String ℕ) :
    Opening s c request.terminalId (s.openTerminal c userToken request spawned) := by
  cases htarget : s.target request.terminalId with
  | some object =>
    have hopen : s.openTerminal c userToken request spawned = s.handleOpen c request spawned := by
      simp [openTerminal, htarget]
    rw [hopen]
    simp only [handleOpen, show sessionAt (s.remapped request.terminalId) request.terminalId = some object from htarget]
    exact .reconnected object _ htarget rfl rfl rfl (update_self ..) rfl rfl rfl
  | none =>
    have hsame := remapped_of_target htarget
    unfold openTerminal
    split
    · unfold handleOpenWithHelper
      cases spawned with
      | error err => exact .refused _ hsame rfl rfl (update_self ..)
      | ok pid =>
        refine .created _ htarget ?_ rfl rfl (update_self ..) rfl rfl ?_
        · exact congrArg _ hsame
        · dsimp only
          rw [hsame]
    · simp only [handleOpen, show sessionAt (s.remapped request.terminalId) request.terminalId = none from htarget]
      cases spawned with
      | error err => exact .refused _ rfl rfl rfl (update_self ..)
      | ok pid =>
        refine .created _ htarget ?_ rfl rfl (update_self ..) rfl rfl ?_
        · exact congrArg _ hsame
        · dsimp only
          rw [hsame]

theorem Settled.opening (h : s.Settled) (hopening : Opening s c terminalId s') : s'.Settled := by
  cases hopening with
  | refused message hsessions hnext => exact h.congr hsessions hnext
  | reconnected object opened htarget hsessions hnext => exact h.remapped hsessions hnext
  | created opened htarget hsessions hnext =>
    refine h.insert ?_ hsessions hnext
    rw [← sessionAt_eq_none, ← remapped_of_target htarget]
    exact htarget

/-- No session is lost when a terminal is opened. -/
theorem Settled.mem_opening (h : s.Settled) (hopening : Opening s c terminalId s')
    (hin : object ∈ s.sessions.map Prod.snd) : object ∈ s'.sessions.map Prod.snd := by
  cases hopening with
  | refused message hsessions =>
    rw [hsessions]
    exact hin
  | reconnected object' opened htarget hsessions =>
    rw [hsessions]
    exact h.mem_remapped hin
  | created opened htarget hsessions =>
    rw [hsessions]
    exact mem_cons_of_mem _ hin

/-- A list is one of its entries with the others, of which there are none in a list of one entry. -/
theorem cons_others_perm {α : Type*} [DecidableEq α] {l : List α} {a : α} (hnodup : l.Nodup) (hin : a ∈ l) :
    (a :: if 1 < l.length then l.filter (· ≠ a) else []).Perm l := by
  split
  next hmany =>
    have herase : l.filter (· ≠ a) = l.erase a := by
      rw [hnodup.erase_eq_filter]
      exact filter_congr fun _ _ => decide_not
    rw [herase]
    exact (perm_cons_erase hin).symm
  next hfew =>
    have hone : l.length = 1 := Nat.le_antisymm (Nat.le_of_not_lt hfew) (length_pos_of_mem hin)
    obtain ⟨b, rfl⟩ := length_eq_one_iff.mp hone
    rw [mem_singleton.mp hin]

/-- While the sessions are not synchronised, the answer that opens a terminal lists all others. -/
theorem Settled.listed (h : s.Settled) (hopening : Opening s c terminalId s') (hsync : s.needsSessionSync = true)
    (hwire : (s'.wires c).getLast? = some (.opened opened)) :
    (opened.terminalId :: opened.persistentSessions).Perm (s'.sessions.map Prod.fst) := by
  have hlast {response : TerminalResponse} (hwires : s'.wires c = s.wires c ++ [response]) :
      response = .opened opened := by
    rw [hwires, getLast?_concat] at hwire
    exact Option.some.inj hwire
  cases hopening with
  | refused message _ _ _ hwires => exact nomatch hlast hwires
  | reconnected object opened' htarget hsessions _ _ hwires _ hid hlisted =>
    obtain rfl := TerminalResponse.opened.inj (hlast hwires)
    have hnodup : ((s.remapped terminalId).map fst).Nodup := (h.mapped.remapped terminalId).1
    have hin : terminalId ∈ (s.remapped terminalId).map fst := mem_map_of_mem (mem_of_sessionAt htarget)
    have hothers := cons_others_perm hnodup hin
    rw [length_map] at hothers
    rw [hid, hsessions, hlisted, hsync, Bool.true_and]
    simpa only [decide_eq_true_eq] using hothers
  | created opened' htarget hsessions _ _ hwires _ hid hlisted =>
    obtain rfl := TerminalResponse.opened.inj (hlast hwires)
    have hempty := sessions_eq_nil_of_target hsync htarget
    rw [hid, hsessions, hlisted, hempty, hsync]
    exact List.Perm.refl _

end Opening

/-- What is known of a service while a connection reads its sessions: those that were removed have ended, and so have
those that are to be removed. -/
structure ReadFrom (s : TerminalStreams) (c : ℕ) (t : TerminalStreams) : Prop where
  sessions : t.sessions.Sublist s.sessions
  removed : ∀ x ∈ s.sessions, x ∉ t.sessions → (s.objects x.2).Ended
  nextObject : t.nextObject = s.nextObject
  sync : t.needsSessionSync = s.needsSessionSync
  todo : ∀ x ∈ (t.polls c).todo, x ∈ s.sessions ∧
    (t.objects x.2).readerFinished = (s.objects x.2).readerFinished ∧ (t.objects x.2).child = (s.objects x.2).child
  closing : ∀ terminalId ∈ (t.polls c).closedTerminals, ∃ object, (terminalId, object) ∈ s.sessions ∧
    (s.objects object).Ended

section ReadFrom

variable {codec : Codec} {s t : TerminalStreams} {c : ℕ}

/-- A step that changes the poll only. -/
theorem ReadFrom.setPoll (h : ReadFrom s c t) {poll : Poll} (htodo : poll.todo ⊆ (t.polls c).todo)
    (hclosing : poll.closedTerminals ⊆ (t.polls c).closedTerminals) : ReadFrom s c (t.setPoll c poll) where
  sessions := h.sessions
  removed := h.removed
  nextObject := h.nextObject
  sync := h.sync
  todo x hx := by
    rw [polls_setPoll] at hx
    exact h.todo x (htodo hx)
  closing terminalId hmem := by
    rw [polls_setPoll] at hmem
    exact h.closing terminalId (hclosing hmem)

theorem ReadFrom.queue (h : ReadFrom s c t) (responses : List TerminalResponse) : ReadFrom s c (t.queue c responses) :=
  have waiting : ReadFrom s c (t.setPoll c .waiting) := h.setPoll (nil_subset _) (nil_subset _)
  ⟨waiting.sessions, waiting.removed, waiting.nextObject, waiting.sync, waiting.todo, waiting.closing⟩

theorem ReadFrom.readNext (h : ReadFrom s c t) (late : List Bytes) (resizeOk : Bool) :
    ReadFrom s c (t.readNext codec c late resizeOk) := by
  obtain hsame | ⟨isPersistent, terminalId, object, sessions, responses, closedTerminals, hpoll⟩ :=
    readNext_cases codec t c late resizeOk
  · rw [hsame]
    exact h
  rw [readNext_of_reading hpoll]
  have htodo := h.todo
  have hclosing := h.closing
  rw [hpoll] at htodo hclosing
  obtain ⟨hin, hreader, hchild⟩ := htodo (terminalId, object) mem_cons_self
  have hkept (k : ℕ) :
      let read := ((t.objects object).readOutputs codec terminalId late resizeOk).1
      (update t.objects object read k).readerFinished = (t.objects k).readerFinished ∧
        (update t.objects object read k).child = (t.objects k).child := by
    intro read
    by_cases hk : k = object
    · subst hk
      rw [update_self]
      exact TerminalSession.processes_readOutputs _ codec terminalId late resizeOk
    · rw [update_of_ne hk]
      exact ⟨rfl, rfl⟩
  refine ⟨h.sessions, h.removed, h.nextObject, h.sync, fun x hx => ?_, fun id hmem => ?_⟩
  · rw [polls_setPoll] at hx
    obtain ⟨hlisted, hreader', hchild'⟩ := htodo x (mem_cons_of_mem _ hx)
    exact ⟨hlisted, (hkept x.2).1.trans hreader', (hkept x.2).2.trans hchild'⟩
  · rw [polls_setPoll, Poll.closedTerminals] at hmem
    split at hmem
    next hended =>
      rcases mem_append.mp hmem with hmem | hmem
      · exact hclosing id hmem
      · rw [mem_singleton.mp hmem]
        exact ⟨object, hin, (TerminalSession.ended_of_shouldSendClosed hended).congr hreader.symm hchild.symm⟩
    · exact hclosing id hmem

theorem cleanupNext_sessions {isPersistent : Bool} {sessions : List (Int × ℕ)} {responses : List TerminalResponse}
    {closedTerminals : List Int}
    (hpoll : t.polls c = .cleaning isPersistent sessions responses (terminalId :: closedTerminals)) :
    (t.cleanupNext c).needsSessionSync = t.needsSessionSync ∧
      ((t.cleanupNext c).sessions = t.sessions ∨ (t.cleanupNext c).sessions = withoutSession t.sessions terminalId) := by
  simp only [cleanupNext, hpoll]
  split
  · exact ⟨rfl, .inl rfl⟩
  · split
    · exact ⟨rfl, .inr rfl⟩
    · exact ⟨rfl, .inl rfl⟩

theorem ReadFrom.cleanupNext (h : ReadFrom s c t) (hsettled : s.Settled) : ReadFrom s c (t.cleanupNext c) := by
  obtain hsame | ⟨isPersistent, sessions, responses, terminalId, closedTerminals, hpoll⟩ := cleanupNext_cases t c
  · rw [hsame]
    exact h
  obtain ⟨s', sessions', exitCode, hs', hpolls, -, -, -, hnext, hsub, -⟩ := cleanupNext_spec hpoll
  obtain ⟨hsync, hsessions⟩ := cleanupNext_sessions hpoll
  rw [hs'] at hsync hsessions ⊢
  have hclosing := h.closing
  rw [hpoll] at hclosing
  have hafter : s'.polls c = .cleaning isPersistent sessions' (responses ++ [.closed { terminalId, exitCode }])
      closedTerminals := by
    rw [hpolls, update_self]
  refine ⟨hsub.trans h.sessions, fun x hx hgone => ?_, hnext.trans h.nextObject, hsync.trans h.sync, ?_, ?_⟩
  · obtain hkept | hremoved := hsessions
    · rw [hkept] at hgone
      exact h.removed x hx hgone
    · by_cases hid : x.1 = terminalId
      · obtain ⟨object, hin, hended⟩ := hclosing terminalId mem_cons_self
        rw [hsettled.eq_of_id hx hin hid]
        exact hended
      · refine h.removed x hx fun hin => hgone ?_
        rw [hremoved]
        exact mem_withoutSession.mpr ⟨hin, hid⟩
  · rw [hafter]
    exact nofun
  · rw [hafter]
    exact fun id hmem => hclosing id (mem_cons_of_mem _ hmem)

theorem ReadFrom.step (h : ReadFrom s c t) (hsettled : s.Settled) {e : TerminalEvent} (hreads : e.readsFor c = true) :
    ReadFrom s c (t.step codec e) := by
  cases e with
  | read connection late resizeOk =>
    obtain rfl := of_decide_eq_true hreads
    exact h.readNext late resizeOk
  | skip connection =>
    obtain rfl := of_decide_eq_true hreads
    simp only [step]
    split
    next hpoll =>
      refine h.setPoll ?_ ?_
      · rw [hpoll]
        exact subset_cons_self ..
      · rw [hpoll]
        exact refl _
    · exact h
  | endReading connection =>
    obtain rfl := of_decide_eq_true hreads
    simp only [step]
    split
    · exact h.queue _
    next hpoll =>
      refine h.setPoll (nil_subset _) ?_
      rw [hpoll]
      exact refl _
    · exact h
  | cleanup connection =>
    obtain rfl := of_decide_eq_true hreads
    exact h.cleanupNext hsettled
  | endCleanup connection =>
    obtain rfl := of_decide_eq_true hreads
    simp only [step]
    split
    · exact h.queue _
    · exact h
  | _ => cases hreads

/-- `read_outputs` removes sessions that have ended, and no others. -/
theorem readFrom_readOutputs (codec : Codec) (h : s.Settled) (c : ℕ) (isPersistent : Bool) {visits : List SessionVisit}
    (hlisted : ∀ x ∈ visits.map Prod.fst, x ∈ s.sessions) :
    ReadFrom s c (s.readOutputs codec c isPersistent visits) := by
  have hstart : ReadFrom s c (s.setPoll c (.reading isPersistent (visits.map fst) [] [])) := by
    refine ⟨List.Sublist.refl _, fun x hx hgone => absurd hx hgone, rfl, rfl, fun x hx => ?_, fun id hmem => ?_⟩
    · rw [polls_setPoll] at hx
      exact ⟨hlisted x hx, rfl, rfl⟩
    · rw [polls_setPoll] at hmem
      exact nomatch hmem
  have hrun {t : TerminalStreams} {es : List TerminalEvent} (ht : ReadFrom s c t)
      (hes : ∀ e ∈ es, e.readsFor c = true) : ReadFrom s c (runEvents (step codec) t es) :=
    runEvents_invariant (fun _ _ h' hreads => h'.step h hreads) ht (runMeets_of_forall hes t)
  refine hrun (hrun hstart fun e he => ?_) fun e he => ?_
  · rcases mem_append.mp he with he | he
    · obtain ⟨visit, -, rfl⟩ := mem_map.mp he
      unfold visitEvent
      split <;> exact decide_eq_true rfl
    · rw [mem_singleton.mp he]
      exact decide_eq_true rfl
  · rcases mem_append.mp he with he | he
    · obtain ⟨id, -, rfl⟩ := mem_map.mp he
      exact decide_eq_true rfl
    · rw [mem_singleton.mp he]
      exact decide_eq_true rfl

end ReadFrom

/-- What a call does to the session map. -/
inductive Served (s s' : TerminalStreams) : ServiceCall → Prop
  | same {call : ServiceCall} (sessions : s'.sessions = s.sessions) (nextObject : s'.nextObject = s.nextObject)
      (sync : s'.needsSessionSync = (s.needsSessionSync || call.isReset)) : Served s s' call
  | opened {c : ℕ} {userToken : Bool} {request : OpenTerminal} {spawned : Except String ℕ}
      (opening : Opening s c request.terminalId s') : Served s s' (.openTerminal c userToken request spawned)
  | closed {c : ℕ} {terminalId : Int} {killed : Except String Unit}
      (sessions : s'.sessions = withoutSession s.sessions terminalId) (nextObject : s'.nextObject = s.nextObject)
      (sync : s'.needsSessionSync = s.needsSessionSync) : Served s s' (.closeTerminal c terminalId killed)
  | read {c : ℕ} {isPersistent : Bool} {visits : List SessionVisit} (read : ReadFrom s c s') :
      Served s s' (.readOutputs c isPersistent visits)

section Served

variable {codec : Codec} {s s' : TerminalStreams} {call : ServiceCall}

theorem Settled.served (codec : Codec) (h : s.Settled) (call : ServiceCall) : Served s (s.serve codec call) call := by
  cases call with
  | output object data => exact .same rfl rfl (Bool.or_false _).symm
  | readerEnds object => exact .same rfl rfl (Bool.or_false _).symm
  | exit object code =>
    simp only [serve, step]
    split <;> exact .same rfl rfl (Bool.or_false _).symm
  | resetStatus isPersistent => exact .same rfl rfl (Bool.or_true _).symm
  | openTerminal c userToken request spawned => exact .opened (openTerminal_opening s c userToken request spawned)
  | closeTerminal c terminalId killed =>
    cases hat : sessionAt s.sessions terminalId with
    | none =>
      simp only [serve, handleClose, hat]
      exact .same rfl rfl (Bool.or_false _).symm
    | some object =>
      obtain ⟨response, hclose, -⟩ := handleClose_spec killed c hat
      rw [serve, hclose]
      exact .closed rfl rfl rfl
  | readOutputs c isPersistent visits =>
    dsimp only [serve]
    split
    next hperm =>
      exact .read (readFrom_readOutputs codec h c isPersistent fun _ hx => (isPerm_iff.mp hperm).subset hx)
    · exact .same rfl rfl (Bool.or_false _).symm

theorem Settled.of_served (h : s.Settled) (hserved : Served s s' call) : s'.Settled := by
  cases hserved with
  | same hsessions hnext => exact h.congr hsessions hnext
  | opened hopening => exact h.opening hopening
  | closed hsessions hnext => exact h.shrink (hsessions ▸ withoutSession_sublist) hnext
  | read hread => exact h.shrink hread.sessions hread.nextObject

/-- A call loses the sessions that it closes or finds ended, and no others. -/
theorem Settled.kept_of_served (h : s.Settled) (hserved : Served s s' call) (hin : (terminalId, object) ∈ s.sessions) :
    (∃! terminalId', (terminalId', object) ∈ s'.sessions) ∨ call.closes terminalId = true ∨
      call.isRead = true ∧ (s.objects object).Ended := by
  have hobject : object ∈ s.sessions.map snd := mem_map_of_mem hin
  have hstays (hkept : object ∈ s'.sessions.map snd) := (h.of_served hserved).existsUnique hkept
  cases hserved with
  | same hsessions =>
    rw [hsessions] at hstays ⊢
    exact .inl (hstays hobject)
  | opened hopening => exact .inl (hstays (h.mem_opening hopening hobject))
  | @closed c terminalId' killed hsessions =>
    by_cases hid : terminalId' = terminalId
    · exact .inr (.inl (decide_eq_true hid))
    · have hkept : (terminalId, object) ∈ s'.sessions := by
        rw [hsessions]
        exact mem_withoutSession.mpr ⟨hin, fun heq => hid heq.symm⟩
      exact .inl (hstays (mem_map_of_mem hkept))
  | read hread =>
    by_cases hkept : (terminalId, object) ∈ s'.sessions
    · exact .inl (hstays (mem_map_of_mem hkept))
    · exact .inr (.inr ⟨rfl, hread.removed _ hin hkept⟩)

/-- The sessions are synchronised by a response that opens a terminal. -/
theorem sync_of_served (hserved : Served s (s.serve codec call) call) (hsync : s.needsSessionSync = true)
    (hopened : s.openedBy codec call = none) : (s.serve codec call).needsSessionSync = true := by
  cases hserved with
  | same _ _ hsame => rw [hsame, hsync, Bool.true_or]
  | closed _ _ hsame => rw [hsame, hsync]
  | read hread => rw [hread.sync, hsync]
  | @opened c userToken request spawned hopening =>
    have hlast {opened : TerminalOpened} (hsuccess : opened.success = true)
        (hwire : ((s.serve codec (.openTerminal c userToken request spawned)).wires c) =
          s.wires c ++ [.opened opened]) : False := by
      simp [openedBy, hwire, hsuccess] at hopened
    cases hopening with
    | refused _ _ _ hsame => rw [hsame, hsync]
    | reconnected _ opened _ _ _ _ hwire hsuccess => exact (hlast hsuccess hwire).elim
    | created opened _ _ _ _ hwire hsuccess => exact (hlast hsuccess hwire).elim

/-- While the sessions are not synchronised, a response that opens a terminal lists the keys of the session map. -/
theorem Settled.lists (h : s.Settled) (hsync : s.needsSessionSync = true)
    (hopened : s.openedBy codec call = some opened) :
    (opened.terminalId :: opened.persistentSessions).Perm ((s.serve codec call).sessions.map Prod.fst) := by
  cases call with
  | openTerminal c userToken request spawned =>
    refine h.listed (openTerminal_opening s c userToken request spawned) hsync ?_
    simp only [openedBy] at hopened
    split at hopened
    next opened' hlast =>
      split at hopened
      · rw [← Option.some.inj hopened]
        exact hlast
      · exact nomatch hopened
    · exact nomatch hopened
  | _ => exact nomatch hopened

end Served

section Remaps

variable {codec : Codec} {s : TerminalStreams} {call : ServiceCall}

section

variable (h : s.Settled)
include h

/-- Sessions that stay under their ids or leave the map are not remapped. -/
theorem Settled.remaps_eq_zero
    (hkept : ∀ x ∈ (s.serve codec call).sessions, x ∈ s.sessions ∨ x.2 ∉ s.sessions.map Prod.snd) :
    s.remaps codec call = 0 := by
  rw [remaps, length_eq_zero_iff, filter_eq_nil_iff]
  intro x hx hremapped
  obtain ⟨hleft, hin⟩ := of_decide_eq_true hremapped
  obtain ⟨y, hy, hobject⟩ := mem_map.mp hin
  obtain hold | hnew := hkept y hy
  · exact hleft (h.eq_of_object hold hx hobject ▸ hy)
  · exact hnew (hobject ▸ mem_map_of_mem hx)

theorem Settled.remaps_eq_zero_of_subset (hsub : (s.serve codec call).sessions ⊆ s.sessions) :
    s.remaps codec call = 0 :=
  h.remaps_eq_zero fun _ hx => .inl (hsub hx)

/-- The only session that a request can give another id is the one with the lowest. -/
theorem Settled.remaps_le_one (hsessions : (s.serve codec call).sessions = s.remapped terminalId) :
    s.remaps codec call ≤ if s.needsSessionSync then 1 else 0 := by
  obtain hsame | ⟨lowestId, object, hsync, -, hlowest, hrenamed⟩ := remapped_cases s terminalId
  · rw [h.remaps_eq_zero_of_subset (by rw [hsessions, hsame]; exact refl _)]
    exact zero_le _
  rw [hsync, if_pos rfl, remaps]
  have hnodup : s.sessions.Nodup := List.Nodup.of_map fst h.ids
  have hlowestOnly : (s.sessions.filter fun x => x ∉ (s.serve codec call).sessions ∧
      x.2 ∈ (s.serve codec call).sessions.map snd) ⊆ [(lowestId, object)] := by
    intro x hx
    obtain ⟨hin, hremapped⟩ := mem_filter.mp hx
    obtain ⟨hleft, -⟩ := of_decide_eq_true hremapped
    rw [hsessions, hrenamed] at hleft
    by_cases hid : x.1 = lowestId
    · exact mem_singleton.mpr (h.eq_of_id hin (mem_of_sessionAt hlowest) hid)
    · exact absurd (mem_cons_of_mem _ (mem_withoutSession.mpr ⟨hin, hid⟩)) hleft
  exact (List.Nodup.subperm (hnodup.filter _) hlowestOnly).length_le

/-- Remapping a session uses up that the sessions are not synchronised. -/
theorem Settled.remaps_add_le (hreset : call.isReset = false) :
    s.remaps codec call + (if (s.serve codec call).needsSessionSync then 1 else 0) ≤
      if s.needsSessionSync then 1 else 0 := by
  have hkept (hsub : (s.serve codec call).sessions ⊆ s.sessions)
      (hsync : (s.serve codec call).needsSessionSync = s.needsSessionSync) :
      s.remaps codec call + (if (s.serve codec call).needsSessionSync then 1 else 0) ≤
        if s.needsSessionSync then 1 else 0 := by
    rw [h.remaps_eq_zero_of_subset hsub, hsync, zero_add]
  cases h.served codec call with
  | same hsessions _ hsync =>
    rw [hreset, Bool.or_false] at hsync
    exact hkept (hsessions ▸ List.Subset.refl _) hsync
  | closed hsessions _ hsync => exact hkept (hsessions ▸ withoutSession_sublist.subset) hsync
  | read hread => exact hkept hread.sessions.subset hread.sync
  | opened hopening =>
    cases hopening with
    | refused _ hsessions _ hsync => exact hkept (hsessions ▸ List.Subset.refl _) hsync
    | reconnected _ _ _ hsessions _ hsync =>
      rw [hsync, if_neg Bool.false_ne_true]
      exact h.remaps_le_one hsessions
    | created _ _ hsessions _ hsync =>
      have hzero : s.remaps codec _ = 0 := h.remaps_eq_zero fun x hx => by
        rw [hsessions] at hx
        rcases mem_cons.mp hx with rfl | hx
        · refine .inr fun hin => ?_
          obtain ⟨y, hy, hobject⟩ := mem_map.mp hin
          exact absurd (h.allocated y hy) (by rw [hobject]; exact lt_irrefl _)
        · exact .inl hx
      rw [hsync, if_neg Bool.false_ne_true, hzero]
      exact zero_le _

end

end Remaps

section Runs

variable {codec : Codec} {start : TerminalStreams}

theorem Settled.run (codec : Codec) (h : start.Settled) (calls : List ServiceCall) :
    (runEvents (serve codec) start calls).Settled :=
  runEvents_invariant_of_step (I := Settled) (fun _ call h => h.of_served (h.served codec call)) h calls

theorem Settled.remapsOnce (h : start.Settled) (calls : List ServiceCall) : start.RemapsOnce codec calls := by
  intro before later _ hlater
  have hcost : runCost (serve codec) (remaps codec) (runEvents (serve codec) start before) later ≤ _ :=
    runCost_le (I := Settled) (fun s => if s.needsSessionSync then 1 else 0)
      (fun _ call h _ => h.of_served (h.served codec call)) (fun _ _ h hreset => h.remaps_add_le hreset)
      (h.run codec before) (runMeets_of_forall hlater _)
  exact hcost.trans (by split <;> decide)

theorem Settled.listsSessions (h : start.Settled) (calls : List ServiceCall) : start.ListsSessions codec calls := by
  intro before isPersistent middle call after opened _ attached hmiddle hopened sessions
  have hattached : attached.Settled ∧ attached.needsSessionSync = true := by
    refine ⟨h.run codec _, ?_⟩
    simp only [attached, runEvents_append]
    rfl
  have hsync : (runEvents (serve codec) attached middle).Settled ∧
      (runEvents (serve codec) attached middle).needsSessionSync = true :=
    runEvents_invariant (I := fun t => t.Settled ∧ t.needsSessionSync = true) (fun t call ht hnone =>
      ⟨ht.1.of_served (ht.1.served codec call), sync_of_served (ht.1.served codec call) ht.2 hnone⟩) hattached hmiddle
  have hsessions : sessions = ((runEvents (serve codec) attached middle).serve codec call).sessions := by
    simp only [sessions, runEvents_append]
    rfl
  have hperm := hsync.1.lists hsync.2 hopened
  rw [hsessions]
  refine ⟨hperm, hperm.nodup_iff.mpr ?_⟩
  exact (hsync.1.of_served (hsync.1.served codec call)).ids

/-- Whatever calls come in which order, a session of the map stays there under exactly one id until it is closed or
found ended, at most one session is remapped after each reset, and the first response that opens a terminal after a
reset lists the session map. -/
theorem reconnect_keeps_sessions (codec : Codec) (h : start.Settled) (calls : List ServiceCall) :
    RunMeets (serve codec) (Keeps codec · TerminalSession.Ended) start calls ∧ start.RemapsOnce codec calls ∧
      start.ListsSessions codec calls := by
  have hcalls : RunMeets (serve codec) (fun _ _ => True) start calls := runMeets_of_forall (fun _ _ => trivial) start
  have hkeeps : RunMeets (serve codec) (Keeps codec · TerminalSession.Ended) start calls :=
    runMeets_of_invariant (I := Settled) (fun _ call h _ => h.of_served (h.served codec call))
      (fun _ call h _ _ _ hin => h.kept_of_served (h.served codec call) hin) h hcalls
  exact ⟨hkeeps, h.remapsOnce calls, h.listsSessions calls⟩

theorem settled_start : Settled {} := ⟨nodup_nil, nodup_nil, nofun⟩

/-- Two terminals are opened, and a client that comes back asks for another id. -/
def reattachedTwo : List ServiceCall :=
  [.openTerminal 0 false ⟨2, 24, 80⟩ (.ok 7), .openTerminal 0 true ⟨5, 24, 80⟩ (.ok 8), .resetStatus true,
    .openTerminal 1 false ⟨1, 24, 80⟩ (.ok 9)]

theorem reconnect_keeps_sessions_two : (runEvents (serve ⟨id, id⟩) {} reattachedTwo).sessions = [(1, 0), (5, 1)] ∧
      RunMeets (serve ⟨id, id⟩) (Keeps ⟨id, id⟩ · TerminalSession.Ended) {} reattachedTwo ∧
        RemapsOnce ⟨id, id⟩ {} reattachedTwo ∧ ListsSessions ⟨id, id⟩ {} reattachedTwo :=
  ⟨by decide, reconnect_keeps_sessions ⟨id, id⟩ settled_start reattachedTwo⟩

/-- The reader thread of a session stops while its shell goes on, and the session is removed. -/
theorem running_shell_removed : ¬RunMeets (serve ⟨id, id⟩) (Keeps ⟨id, id⟩ · TerminalSession.ShellExited) {}
      [.openTerminal 0 false ⟨1, 24, 80⟩ (.ok 7), .readerEnds 0, .readOutputs 0 true [((1, 0), some ([], true))]] := by
  rintro ⟨-, -, hkeeps, -⟩
  obtain ⟨terminalId, hin, -⟩ | hcloses | ⟨-, code, hexited⟩ := hkeeps 1 0 (by decide)
  · exact nomatch hin
  · exact nomatch hcloses
  · exact nomatch hexited

end Runs

end TerminalStreams

end UnyDesk
