import Mathlib.Data.List.DropRight
import UnyDesk.Lib.Machine
import UnyDesk.Terminal.Session

/-!
# The streams of a terminal service

Connections share a terminal service. The run loop of each lists the sessions, reads them one after the other, removes
those whose shells have exited, and queues what it has for its own client; a request is answered at once, before what
is queued. One step is what happens under the lock of the service or of a session; removing a session is one step.
-/

namespace UnyDesk

open Function

/-- Where the run loop of a connection is in `read_outputs`. -/
inductive Poll
  | waiting
  | started (isPersistent : Bool)
  | reading (isPersistent : Bool) (sessions : List (Int × ℕ)) (responses : List TerminalResponse)
      (closedTerminals : List Int)
  | cleaning (isPersistent : Bool) (sessions : List (Int × ℕ)) (responses : List TerminalResponse)
      (closedTerminals : List Int)

namespace Poll

def responses : Poll → List TerminalResponse
  | .waiting | .started _ => []
  | .reading _ _ responses _ | .cleaning _ _ responses _ => responses

def closedTerminals : Poll → List Int
  | .waiting | .started _ => []
  | .reading _ _ _ closedTerminals | .cleaning _ _ _ closedTerminals => closedTerminals

/-- The sessions that are still to be read. -/
def todo : Poll → List (Int × ℕ)
  | .reading _ sessions _ _ => sessions
  | .waiting | .started _ | .cleaning .. => []

/-- The session map as it was when the first session was removed. -/
def snapshot : Poll → Option (List (Int × ℕ))
  | .cleaning _ sessions _ _ => some sessions
  | .waiting | .started _ | .reading .. => none

end Poll

structure TerminalStreams where
  isPersistent : Bool := false
  needsSessionSync : Bool := false
  /-- The session map, by terminal id. -/
  sessions : List (Int × ℕ) := []
  objects : ℕ → TerminalSession := fun _ => {}
  nextObject : ℕ := 0
  polls : ℕ → Poll := fun _ => .waiting
  /-- What the run loop of a connection has queued for its client. -/
  queues : ℕ → List TerminalResponse := fun _ => []
  /-- What was sent to the client of a connection. -/
  wires : ℕ → List TerminalResponse := fun _ => []
  /-- The connection that opened a session last, and the terminal id it has there, unless the service was attached to
  since or the id was given to another session. -/
  opened : ℕ → Option (ℕ × Int) := fun _ => none

inductive TerminalEvent
  /-- The reader thread of a session puts a chunk into the channel. -/
  | output (object : ℕ) (data : Bytes)
  | readerEnds (object : ℕ)
  | exit (object : ℕ) (code : Int)
  /-- `reset_status`, when a connection attaches to the service. -/
  | reset (isPersistent : Bool)
  | openTerminal (connection : ℕ) (request : OpenTerminal) (spawned : Except String ℕ)
  | closeTerminal (connection : ℕ) (terminalId : Int) (killed : Except String Unit)
  /-- A run loop calls `read_outputs`. -/
  | poll (connection : ℕ)
  | list (connection : ℕ) (sessions : List (Int × ℕ))
  | read (connection : ℕ) (late : List Bytes) (resizeOk : Bool)
  /-- The lock of a session is not free. -/
  | skip (connection : ℕ)
  /-- All sessions were read. -/
  | endReading (connection : ℕ)
  | cleanup (connection : ℕ)
  /-- All sessions that ended were removed. -/
  | endCleanup (connection : ℕ)
  /-- The connection sends what was queued first. -/
  | send (connection : ℕ)

/-- The session with the terminal id. -/
def sessionAt (sessions : List (Int × ℕ)) (terminalId : Int) : Option ℕ :=
  (sessions.find? (·.1 = terminalId)).map Prod.snd

def withoutSession (sessions : List (Int × ℕ)) (terminalId : Int) : List (Int × ℕ) :=
  sessions.filter (·.1 ≠ terminalId)

namespace TerminalStreams

variable (codec : Codec) (s : TerminalStreams)

/-- The session map after the surviving session with the lowest id was given the id that the client asks for. -/
def remapped (terminalId : Int) : List (Int × ℕ) :=
  if (sessionAt s.sessions terminalId).isNone && s.needsSessionSync then
    match (s.sessions.map Prod.fst).min? with
    | none => s.sessions
    | some lowestId =>
      match sessionAt s.sessions lowestId with
      | none => s.sessions
      | some object => (terminalId, object) :: withoutSession s.sessions lowestId
  else s.sessions

/-- The session that exists for a request. -/
def target (terminalId : Int) : Option ℕ := sessionAt (s.remapped terminalId) terminalId

def setObject (object : ℕ) (session : TerminalSession) : TerminalStreams :=
  { s with objects := update s.objects object session }

section

variable (connection : ℕ)

def setPoll (poll : Poll) : TerminalStreams :=
  { s with polls := update s.polls connection poll }

/-- An answer goes past the queue. -/
def answer (response : TerminalResponse) : TerminalStreams :=
  { s with wires := update s.wires connection (s.wires connection ++ [response]) }

/-- The session is now the one that the connection has under the terminal id. -/
def markOpened (terminalId : Int) (object : ℕ) : TerminalStreams :=
  { s with
    opened := update
      (fun object => if s.opened object = some (connection, terminalId) then none else s.opened object)
      object (some (connection, terminalId)) }

def handleOpen (request : OpenTerminal) (spawned : Except String ℕ) : TerminalStreams :=
  let terminalId := request.terminalId
  let sessions := s.remapped terminalId
  match sessionAt sessions terminalId with
  | some object =>
    let session := (s.objects object).reconnect
    let opened : TerminalOpened :=
      { terminalId, success := true
        message :=
          if session.hasPending then "Reconnected to existing terminal with pending output"
          else "Reconnected to existing terminal"
        pid := session.pid
        persistentSessions :=
          if s.needsSessionSync && decide (1 < sessions.length) then
            (sessions.map Prod.fst).filter (· ≠ terminalId)
          else []
        replayTerminalOutput := session.hasPending }
    (({ s with sessions, needsSessionSync := false }.setObject object session).markOpened connection terminalId object)
      |>.answer connection (.opened opened)
  | none =>
    match spawned with
    | .error err => s.answer connection (.error ("Failed to handle action: " ++ err))
    | .ok pid =>
      let session := TerminalSession.create request pid
      let opened : TerminalOpened :=
        { terminalId, success := true, message := "Terminal opened", pid
          persistentSessions := if s.needsSessionSync then sessions.map Prod.fst else [] }
      ({ s with
          sessions := (terminalId, s.nextObject) :: sessions
          nextObject := s.nextObject + 1
          needsSessionSync := false }.setObject s.nextObject session).markOpened connection terminalId s.nextObject
        |>.answer connection (.opened opened)

/-- The session is removed, whatever becomes of the shell. -/
def handleClose (terminalId : Int) (killed : Except String Unit) : TerminalStreams :=
  match sessionAt s.sessions terminalId with
  | none => s
  | some object =>
    let response : TerminalResponse :=
      if (s.objects object).child.isSome then
        match killed with
        | .error err => .error ("Failed to handle action: " ++ err)
        | .ok () => .closed { terminalId, exitCode := -1 }
      else .closed { terminalId, exitCode := 0 }
    ({ s with sessions := withoutSession s.sessions terminalId }.setObject object (s.objects object).release)
      |>.answer connection response

end

/-- `reset_status`. -/
def resetStatus (isPersistent : Bool) : TerminalStreams :=
  { s with
    isPersistent
    needsSessionSync := true
    objects := fun object =>
      if object ∈ s.sessions.map Prod.snd then { s.objects object with state := .closed } else s.objects object
    opened := fun _ => none }

section

variable (connection : ℕ)

/-- What a poll has is queued, and the run loop waits. -/
def queue (responses : List TerminalResponse) : TerminalStreams :=
  { s.setPoll connection .waiting with
    queues := update s.queues connection (s.queues connection ++ responses) }

/-- `read_outputs` on the next session. -/
def readNext (late : List Bytes) (resizeOk : Bool) : TerminalStreams :=
  match s.polls connection with
  | .reading isPersistent ((terminalId, object) :: sessions) responses closedTerminals =>
    let session := s.objects object
    let (read, received) := session.readOutputs codec terminalId late resizeOk
    (s.setObject object read).setPoll connection (.reading isPersistent sessions (responses ++ received)
        (if session.shouldSendClosed then closedTerminals ++ [terminalId] else closedTerminals))
  | _ => s

/-- The removal of the next session that has ended. -/
def cleanupNext : TerminalStreams :=
  match s.polls connection with
  | .cleaning isPersistent sessions responses (terminalId :: closedTerminals) =>
    let next (sessions : List (Int × ℕ)) (exitCode : Int) : Poll :=
      .cleaning isPersistent sessions (responses ++ [.closed { terminalId, exitCode }]) closedTerminals
    match sessionAt sessions terminalId with
    | none => s.setPoll connection (next sessions 0)
    | some object =>
      let session := s.objects object
      let exitCode := session.child.join.getD 0
      let released := s.setObject object session.release
      if !isPersistent || session.closedMessageSent then
        { released with sessions := withoutSession s.sessions terminalId }.setPoll connection
          (next (withoutSession sessions terminalId) exitCode)
      else released.setPoll connection (next sessions exitCode)
  | _ => s

/-- The next response that was queued. -/
def sendNext : TerminalStreams :=
  match s.queues connection with
  | [] => s
  | response :: queued => { s.answer connection response with queues := update s.queues connection queued }

end

def step : TerminalEvent → TerminalStreams
  | .output object data => s.setObject object ((s.objects object).trySendOutput data)
  | .readerEnds object => s.setObject object { s.objects object with readerFinished := true }
  | .exit object code =>
    match (s.objects object).child with
    | some none => s.setObject object { s.objects object with child := some (some code) }
    | _ => s
  | .reset isPersistent => s.resetStatus isPersistent
  | .openTerminal connection request spawned => s.handleOpen connection request spawned
  | .closeTerminal connection terminalId killed => s.handleClose connection terminalId killed
  | .poll connection =>
    match s.polls connection with
    | .waiting => s.setPoll connection (.started s.isPersistent)
    | _ => s
  | .list connection sessions =>
    match s.polls connection with
    -- the sessions of a hash map are listed in any order
    | .started isPersistent =>
      if sessions.isPerm s.sessions then s.setPoll connection (.reading isPersistent sessions [] []) else s
    | _ => s
  | .read connection late resizeOk => s.readNext codec connection late resizeOk
  | .skip connection =>
    match s.polls connection with
    | .reading isPersistent (_ :: sessions) responses closedTerminals =>
      s.setPoll connection (.reading isPersistent sessions responses closedTerminals)
    | _ => s
  | .endReading connection =>
    match s.polls connection with
    | .reading _ [] responses [] => s.queue connection responses
    | .reading isPersistent [] responses closedTerminals =>
      s.setPoll connection (.cleaning isPersistent s.sessions responses closedTerminals)
    | _ => s
  | .cleanup connection => s.cleanupNext connection
  | .endCleanup connection =>
    match s.polls connection with
    | .cleaning _ _ responses [] => s.queue connection responses
    | _ => s
  | .send connection => s.sendNext connection

end TerminalStreams

end UnyDesk
