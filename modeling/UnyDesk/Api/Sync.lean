import UnyDesk.Api.Devices

/-!
# The sync loop of an agent

The rounds in which an agent uploads its sysinfo and sends its heartbeats to the server, while its connections open and
close and other clients send requests. A round reads the configuration and the connections at its start and waits for
each answer before it goes on. The requests are reliable: each one is answered in the end, and no statement fails. The
address of the server is set, and stays; at a public address the loop does nothing.
-/

namespace UnyDesk.Api

open Lib

/-- In milliseconds. -/
def timeHeartbeat : ℕ := 15000

def uploadSysinfoTimeout : ℕ := 120000

structure InfoUploaded where
  uploaded : Bool := false
  id : String := ""
  username : Option String := none
  lastUploaded : Option ℕ := none

/-- What a round waits for, and what it has read for the rest of it. -/
inductive SyncPhase
  | idle
  | sysinfo (n : ℕ) (id sysUsername : String) (conns : List Int)
  | heartbeat (n : ℕ) (id : String) (modifiedAt : Int)
deriving DecidableEq

/-- The request that a round waits for. -/
def SyncPhase.awaits : SyncPhase → Option ℕ
  | .idle => none
  | .sysinfo n _ _ _ | .heartbeat n _ _ => some n

structure SyncLoop where
  id : String := ""
  uuid : String := ""
  sysUsername : String := ""
  /-- What a sysinfo request carries besides the id and the uuid. -/
  details : SysinfoBody := { id := "" }
  /-- The option that stops the service. -/
  stopped : Bool := false
  aliveConns : List Int := []
  now : ℕ := 0
  strategyTimestamp : Int := 0
  infoUploaded : InfoUploaded := {}
  lastSent : Option ℕ := none
  phase : SyncPhase := .idle
  /-- The connections that the answers have ordered to close. -/
  disconnects : List Int := []
  /-- The requests that were sent. -/
  requests : List ℕ := []
  /-- The heartbeats that were sent since the last upload that was acknowledged. -/
  heartbeats : List ℕ := []
  /-- The connections when the last heartbeat was sent. -/
  sentConns : List Int := []

/-- The connections as the numbers of a JSON array. -/
def connNumbers (conns : List Int) : List ℚ := conns.map fun conn : Int => (conn : ℚ)

namespace SyncLoop

variable (a : SyncLoop)

def sysinfoBody (id : String) : SysinfoBody := { a.details with id, uuid := some a.uuid }

/-- The list is left out when it is empty. -/
def heartbeatBody (id : String) (conns : List Int) : HeartbeatBody where
  id := id
  uuid := some a.uuid
  conns := if conns = [] then none else some (connNumbers conns)
  modifiedAt := some a.strategyTimestamp

/-- What a round does to an upload for another id. -/
def checkId (info : InfoUploaded) : InfoUploaded :=
  if info.uploaded = true ∧ a.id ≠ info.id then { info with uploaded := false } else info

def needUpload : Bool :=
  (!a.infoUploaded.uploaded || decide (a.infoUploaded.username ≠ some a.sysUsername)) &&
    (a.infoUploaded.lastUploaded.map fun last => decide (uploadSysinfoTimeout ≤ a.now - last)).getD true

/-- The heartbeat of a round is left out. -/
def skips (conns : List Int) : Bool :=
  conns.isEmpty && (a.lastSent.map fun last => decide (a.now - last < timeHeartbeat)).getD false

end SyncLoop

/-- What the answer to an upload is remembered as. -/
def InfoUploaded.answered (info : InfoUploaded) (a : DeviceAnswer) (id username : String) (now : ℕ) : InfoUploaded :=
  if a = .text "SYSINFO_UPDATED" then { uploaded := true, id, username := some username }
  else if a = .text "ID_NOT_FOUND" then { info with lastUploaded := none }
  else { info with lastUploaded := some now }

/-- An agent and the server. -/
structure Sync where
  agent : SyncLoop := {}
  server : DeviceServer := {}

inductive SyncEvent
  /-- The configuration and the system change. -/
  | configure (id sysUsername : String) (details : SysinfoBody) (stopped : Bool)
  | connections (conns : List Int)
  | pass (millis : ℕ)
  | tick
  /-- The agent reads the answer that it waits for. -/
  | resume
  /-- Another client sends a request. -/
  | request (r : DeviceRequest)
  | advance (n : ℕ)

namespace Sync

variable (c : Sync)

def post (r : DeviceRequest) (agent : SyncLoop) : Sync where
  agent := { agent with requests := c.server.arrived :: agent.requests }
  server := c.server.step (.request r)

/-- The heartbeat of a round. -/
def beat (id : String) (conns : List Int) : Sync :=
  if c.agent.skips conns = true then { c with agent := { c.agent with phase := .idle } }
  else c.post (.heartbeat (some (c.agent.heartbeatBody id conns)))
    { c.agent with
      lastSent := some c.agent.now
      phase := .heartbeat c.server.arrived id c.agent.strategyTimestamp
      heartbeats := c.server.arrived :: c.agent.heartbeats
      sentConns := c.agent.aliveConns }

def upload : Sync :=
  c.post (.sysinfo (c.agent.sysinfoBody c.agent.id))
    { c.agent with phase := .sysinfo c.server.arrived c.agent.id c.agent.sysUsername c.agent.aliveConns }

/-- A round begins, unless the one before still waits. -/
def tick : Sync :=
  if c.agent.phase ≠ .idle ∨ c.agent.stopped = true then c
  else
    let c : Sync := { c with agent := { c.agent with infoUploaded := c.agent.checkId c.agent.infoUploaded } }
    if c.agent.needUpload = true then c.upload else c.beat c.agent.id c.agent.aliveConns

/-- What the agent does with the answer to an upload. -/
def uploadAnswered (a : DeviceAnswer) (id username : String) (conns : List Int) : Sync :=
  let info := c.agent.infoUploaded.answered a id username c.agent.now
  let heartbeats := if a = .text "SYSINFO_UPDATED" then [] else c.agent.heartbeats
  Sync.beat { c with agent := { c.agent with infoUploaded := info, heartbeats } } id conns

/-- What the agent does with the answer to a heartbeat. -/
def heartbeatAnswered (a : DeviceAnswer) (modifiedAt : Int) : Sync :=
  match a with
  | .heartbeat answer =>
    let info := c.agent.infoUploaded
    { c with agent := { c.agent with
        infoUploaded := { info with uploaded := info.uploaded && !answer.sysinfo }
        disconnects := c.agent.disconnects ++ answer.disconnect
        strategyTimestamp := (answer.modifiedAt.filter (· ≠ modifiedAt)).getD c.agent.strategyTimestamp
        phase := .idle } }
  | _ => { c with agent := { c.agent with phase := .idle } }

def resume : Sync :=
  match c.agent.phase with
  | .idle => c
  | .sysinfo n id username conns =>
    match c.server.answers n with
    | none => c
    | some a => c.uploadAnswered a id username conns
  | .heartbeat n _ modifiedAt =>
    match c.server.answers n with
    | none => c
    | some a => c.heartbeatAnswered a modifiedAt

def step (c : Sync) : SyncEvent → Sync
  | .configure id sysUsername details stopped =>
    { c with agent := { c.agent with id, sysUsername, details, stopped } }
  | .connections conns => { c with agent := { c.agent with aliveConns := conns } }
  | .pass millis => { c with agent := { c.agent with now := c.agent.now + millis } }
  | .tick => c.tick
  | .resume => c.resume
  | .request r => { c with server := c.server.step (.request r) }
  | .advance n => { c with server := c.server.step (.advance n) }

/-- What a step can be: the agent sends nothing, or one request, or the server runs a statement. -/
structure Quiet (c c' : Sync) : Prop where
  server : c'.server = c.server
  requests : c'.agent.requests = c.agent.requests

end Sync

end UnyDesk.Api
