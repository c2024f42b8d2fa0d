import UnyDesk.Lib.Machine

/-!
# The registry of terminal services

Terminal services are shared by their id: a connection attaches to a service or creates it, its run loop serves the
service until the connection ends, and a task removes services that are idle. Each holds the lock of the registry or
that of a service for a moment only. One step is what happens under one lock; where the lock of the registry is held
over the locks of services, the step that takes it and the one that gives it back are apart.
-/

namespace UnyDesk

inductive SessionState
  | closed
  | active

structure PersistentTerminalService where
  serviceId : String
  /-- The session map, by terminal id. -/
  sessions : List (Int × SessionState) := []
  lastActivity : ℕ
  isPersistent : Bool
  needsSessionSync : Bool := false
  isSpecifiedUser : Bool

def maxServices : ℕ := 100

/-- In milliseconds. -/
def serviceIdleTimeout : ℕ := 3600 * 1000

namespace PersistentTerminalService

variable (service : PersistentTerminalService)

def resetStatus (isPersistent : Bool) : PersistentTerminalService :=
  { service with
    isPersistent
    needsSessionSync := true
    sessions := service.sessions.map fun session => (session.1, .closed) }

def updateActivity (now : ℕ) : PersistentTerminalService := { service with lastActivity := now }

section

variable (terminalId : Int)

def hasSession : Bool := service.sessions.any (·.1 = terminalId)

def insertSession (state : SessionState) : PersistentTerminalService :=
  { service with sessions := (terminalId, state) :: service.sessions.filter (·.1 ≠ terminalId) }

def removeSession : PersistentTerminalService :=
  { service with sessions := service.sessions.filter (·.1 ≠ terminalId) }

/-- The surviving session with the lowest id gets the id that the client asks for. -/
def remap : PersistentTerminalService :=
  if !service.hasSession terminalId && service.needsSessionSync then
    match service.sessions.map Prod.fst |>.min? with
    | none => service
    | some lowestId =>
      match service.sessions.find? (·.1 = lowestId) with
      | none => service
      | some session => (service.removeSession lowestId).insertSession terminalId session.2
  else service

/-- A session that exists streams again, and otherwise one is created, if a shell could be started. -/
def handleOpen (spawned : Bool) : PersistentTerminalService :=
  let service := service.remap terminalId
  if service.hasSession terminalId then
    { service.insertSession terminalId .active with needsSessionSync := false }
  else if spawned then { service.insertSession terminalId .active with needsSessionSync := false }
  else service

end

/-- The test of the cleanup task. -/
def isIdle (now : ℕ) : Bool :=
  if service.isPersistent then
    service.sessions.isEmpty && decide (serviceIdleTimeout * 2 < now - service.lastActivity)
  else decide (serviceIdleTimeout < now - service.lastActivity)

end PersistentTerminalService

/-- What is done to a service that was looked up. -/
inductive TerminalAct
  | openTerminal (terminalId : Int) (spawned : Bool)
  | closeTerminal (terminalId : Int)
  /-- Resizing and data, which go to the session. -/
  | input
  | setPersistent (isPersistent : Bool)
  /-- The run loop finds that the shells of these terminals have exited. -/
  | reap (terminalIds : List Int)

/-- Whether the act is one of `handle_action`. -/
def TerminalAct.isAction : TerminalAct → Bool
  | .openTerminal .. | .closeTerminal _ | .input => true
  | .setPersistent _ | .reap _ => false

def TerminalAct.perform (service : PersistentTerminalService) : TerminalAct → PersistentTerminalService
  | .openTerminal terminalId spawned => service.handleOpen terminalId spawned
  | .closeTerminal terminalId => service.removeSession terminalId
  | .input => service
  | .setPersistent isPersistent => { service with isPersistent }
  | .reap terminalIds => terminalIds.foldl PersistentTerminalService.removeSession service

/-- Where an act stands; a service that was looked up is known by its object and not by its id. -/
inductive ActPhase
  | lookup (id : String) (act : TerminalAct)
  | touch (object : ℕ) (act : TerminalAct)
  | perform (object : ℕ) (act : TerminalAct)

/-- The run loop of a connection on the service with the id. -/
inductive LoopPhase
  | absent
  | attached (id : String)
  | running (id : String)
  | ended (id : String)
  | checking (id : String) (object : ℕ)
  | removing (id : String)
  | stopping (id : String) (object : ℕ)
  | gone
deriving DecidableEq

inductive CleanupPhase
  | waiting
  | selecting (todo selected : List String)
  | removing (ids : List String)
  | stopping (id : String) (object : ℕ) (ids : List String)

/-- Who removes services. -/
inductive Remover
  | cleanup
  | loop (i : ℕ)

structure TerminalServices where
  /-- `TERMINAL_SERVICES`. -/
  services : List (String × ℕ) := []
  objects : ℕ → PersistentTerminalService := fun _ => ⟨"", [], 0, false, false, false⟩
  nextObject : ℕ := 0
  /-- Who holds the lock of the registry from one step to the next. -/
  lock : Option Remover := none
  now : ℕ := 0
  loops : ℕ → LoopPhase := fun _ => .absent
  acts : ℕ → Option ActPhase := fun _ => none
  cleanup : CleanupPhase := .waiting
  /-- The services that were attached to or had a terminal opened since the cleanup selected them. -/
  used : List ℕ := []
  stopped : List (ℕ × Int) := []

inductive TerminalStep
  | attach (i : ℕ) (id : String) (isPersistent isSpecifiedUser : Bool)
  | spawn (i : ℕ)
  | leave (i : ℕ)
  | loop (i : ℕ)
  | act (j : ℕ) (id : String) (act : TerminalAct)
  | advance (j : ℕ)
  | cleanup
  | wait (ms : ℕ)

namespace TerminalServices

variable (s : TerminalServices)

def lookup (id : String) : Option ℕ := (s.services.find? (·.1 = id)).map Prod.snd

def erase (id : String) : List (String × ℕ) := s.services.filter (·.1 ≠ id)

def setLoop (i : ℕ) (phase : LoopPhase) : TerminalServices := { s with loops := Function.update s.loops i phase }

def setAct (j : ℕ) (phase : Option ActPhase) : TerminalServices := { s with acts := Function.update s.acts j phase }

def setObject (object : ℕ) (service : PersistentTerminalService) : TerminalServices :=
  { s with objects := Function.update s.objects object service }

/-- Attaching to the service with the id, under the lock of the registry. -/
def getOrCreateService (id : String) (isPersistent isSpecifiedUser : Bool) : TerminalServices :=
  match s.lookup id with
  | some object =>
    { s.setObject object ((s.objects object).resetStatus isPersistent) with used := object :: s.used }
  | none =>
    if s.services.length ≥ maxServices then s
    else
      let service : PersistentTerminalService := { serviceId := id, lastActivity := s.now, isPersistent, isSpecifiedUser }
      { s.setObject s.nextObject (service.resetStatus isPersistent) with
        services := (id, s.nextObject) :: s.services
        nextObject := s.nextObject + 1
        used := s.nextObject :: s.used }

/-- The sessions of a service that was removed are stopped, and the lock of the registry is given back. -/
def stopSessions (object : ℕ) : TerminalServices :=
  { s with
    lock := none
    stopped := (s.objects object).sessions.map (fun session => (object, session.1)) ++ s.stopped }

/-- The next lock of a run loop that has ended. -/
def loopStep (i : ℕ) : LoopPhase → TerminalServices
  | .ended id =>
    if s.lock.isSome then s
    else
      match s.lookup id with
      | none => s.setLoop i .gone
      | some object => s.setLoop i (.checking id object)
  | .checking id object =>
    if (s.objects object).isPersistent then s.setLoop i .gone else s.setLoop i (.removing id)
  | .removing id =>
    if s.lock.isSome then s
    else
      match s.lookup id with
      | none => s.setLoop i .gone
      | some object => setLoop { s with services := s.erase id, lock := some (.loop i) } i (.stopping id object)
  | .stopping _ object => (s.stopSessions object).setLoop i .gone
  | _ => s

def actStep (j : ℕ) : ActPhase → TerminalServices
  | .lookup id act =>
    if s.lock.isSome then s
    else
      match s.lookup id with
      | none => s.setAct j none
      | some object => s.setAct j (some (if act.isAction then .touch object act else .perform object act))
  | .touch object act =>
    (s.setObject object ((s.objects object).updateActivity s.now)).setAct j (some (.perform object act))
  | .perform object act =>
    let s := (s.setObject object (act.perform (s.objects object))).setAct j none
    match act with
    | .openTerminal .. => { s with used := object :: s.used }
    | _ => s

/-- The next lock of the cleanup task. -/
def cleanupStep : CleanupPhase → TerminalServices
  | .waiting =>
    if s.lock.isSome then s
    else { s with lock := some .cleanup, cleanup := .selecting (s.services.map Prod.fst) [] }
  | .selecting [] selected => { s with lock := none, cleanup := .removing selected }
  | .selecting (id :: todo) selected =>
    match s.lookup id with
    | none => { s with cleanup := .selecting todo selected }
    | some object =>
      if (s.objects object).isIdle s.now then
        { s with cleanup := .selecting todo (selected ++ [id]), used := s.used.filter (· ≠ object) }
      else { s with cleanup := .selecting todo selected }
  | .removing [] => { s with cleanup := .waiting }
  | .removing (id :: ids) =>
    if s.lock.isSome then s
    else
      match s.lookup id with
      | none => { s with cleanup := .removing ids }
      | some object => { s with services := s.erase id, lock := some .cleanup, cleanup := .stopping id object ids }
  | .stopping _ object ids => { s.stopSessions object with cleanup := .removing ids }

def step : TerminalStep → TerminalServices
  | .attach i id isPersistent isSpecifiedUser =>
    if s.loops i = .absent && s.lock.isNone then
      (s.getOrCreateService id isPersistent isSpecifiedUser).setLoop i (.attached id)
    else s
  | .spawn i =>
    match s.loops i with
    | .attached id => s.setLoop i (.running id)
    | _ => s
  | .leave i =>
    match s.loops i with
    | .running id => s.setLoop i (.ended id)
    | _ => s
  | .loop i => s.loopStep i (s.loops i)
  | .act j id act => if (s.acts j).isSome then s else s.setAct j (some (.lookup id act))
  | .advance j =>
    match s.acts j with
    | none => s
    | some phase => s.actStep j phase
  | .cleanup => s.cleanupStep s.cleanup
  | .wait ms => { s with now := s.now + ms }

/-- The step removes the service from the registry, or stops its sessions when it has been removed. -/
def Removes (remover : Remover) (id : String) (object : ℕ) : TerminalStep → Prop
  | .loop i =>
    remover = .loop i ∧
      (s.loops i = .removing id ∧ s.lock = none ∧ s.lookup id = some object ∨ s.loops i = .stopping id object)
  | .cleanup =>
    remover = .cleanup ∧ ((∃ ids, s.cleanup = .removing (id :: ids)) ∧ s.lock = none ∧ s.lookup id = some object ∨
        ∃ ids, s.cleanup = .stopping id object ids)
  | _ => False

/-- The service is in use: it was attached to or had a terminal opened since the cleanup selected it, it is persistent
and has a session, or the run loop of another connection serves its id. -/
def InUse (remover : Remover) (id : String) (object : ℕ) : Prop :=
  remover = .cleanup ∧ object ∈ s.used ∨ (s.objects object).isPersistent = true ∧ (s.objects object).sessions ≠ [] ∨
    ∃ i, remover ≠ .loop i ∧ s.loops i = .running id

end TerminalServices

end UnyDesk
