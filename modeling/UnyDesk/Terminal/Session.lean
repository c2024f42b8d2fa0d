import UnyDesk.Terminal.OutputBuffer
import UnyDesk.Transfer.Read

/-!
# Terminal sessions

The reader thread of a session puts what the shell prints into a bounded channel. The run loop of a connection takes it
out, keeps it in the output buffer, and sends it if the session is active. A client that comes back is first sent the
end of what was kept, and the shell is made to draw again by resizing its terminal twice.
-/

namespace UnyDesk

def channelBufferSize : ℕ := 500

def compressThreshold : ℕ := 512

def defaultReconnectBufferBytes : ℕ := 8 * 1024

def maxSigwinchPhaseAttempts : ℕ := 3

/-- `OpenTerminal`. -/
structure OpenTerminal where
  terminalId : Int
  rows : ℕ
  cols : ℕ

/-- `TerminalOpened`. -/
structure TerminalOpened where
  terminalId : Int
  success : Bool
  message : String
  pid : ℕ
  persistentSessions : List Int := []
  replayTerminalOutput : Bool := false

/-- `TerminalData`. -/
structure TerminalData where
  terminalId : Int
  data : Bytes
  compressed : Bool := false

/-- `TerminalClosed`. -/
structure TerminalClosed where
  terminalId : Int
  exitCode : Int

/-- `TerminalResponse.union`. -/
inductive TerminalResponse
  | opened (opened : TerminalOpened)
  | data (data : TerminalData)
  | closed (closed : TerminalClosed)
  | error (message : String)

/-- What the client writes to its terminal. -/
def TerminalData.payload (codec : Codec) (data : TerminalData) : Bytes :=
  if data.compressed then codec.decompress data.data else data.data

def createTerminalDataResponse (codec : Codec) (terminalId : Int) (data : Bytes) : TerminalResponse :=
  let packed := TransferJob.packed codec (compressThreshold < data.length) data
  .data { terminalId, data := packed.1, compressed := packed.2 }

inductive SigwinchPhase
  | idle
  | tempResize (retries : ℕ)
  | restore (retries : ℕ)

inductive SigwinchAction
  | tempResize
  | restore

namespace SigwinchPhase

/-- The resize that a poll tries, which costs an attempt. -/
def next : SigwinchPhase → SigwinchPhase × Option SigwinchAction
  | .tempResize (retries + 1) => (.tempResize retries, some .tempResize)
  | .restore (retries + 1) => (.restore retries, some .restore)
  | .tempResize 0 | .restore 0 | .idle => (.idle, none)

def resized (phase : SigwinchPhase) (action : SigwinchAction) (resizeOk : Bool) : SigwinchPhase :=
  if resizeOk then
    match action with
    | .tempResize => .restore maxSigwinchPhaseAttempts
    | .restore => .idle
  else phase

end SigwinchPhase

/-- `SessionState` with what it carries. -/
inductive StreamState
  | closed
  | active (pendingBuffer : Option Bytes) (sigwinch : SigwinchPhase)

structure TerminalSession where
  pid : ℕ := 0
  rows : ℕ := 0
  cols : ℕ := 0
  /-- The size that the PTY has. -/
  ptySize : Option (ℕ × ℕ) := none
  /-- The shell with its exit code if it has exited, until it is handed to the reaper. -/
  child : Option (Option Int) := none
  readerFinished : Bool := false
  /-- The chunks in the channel. -/
  outputRx : List Bytes := []
  outputBuffer : OutputBuffer := {}
  closedMessageSent : Bool := false
  state : StreamState := .closed
  /-- All chunks that the channel has taken in. -/
  accepted : List Bytes := []
  /-- All chunks that were taken out of the channel. -/
  taken : List Bytes := []

/-- A pending buffer is sent unless it is empty. -/
def replayed (pendingBuffer : Option Bytes) : List Bytes := pendingBuffer.toList.filter (· ≠ [])

namespace TerminalSession

variable (session : TerminalSession)

/-- `try_send_output`: a chunk that does not fit is lost. -/
def trySendOutput (data : Bytes) : TerminalSession :=
  if session.outputRx.length < channelBufferSize then
    { session with outputRx := session.outputRx ++ [data], accepted := session.accepted ++ [data] }
  else session

/-- The session of a shell that was just started. -/
def create (request : OpenTerminal) (pid : ℕ) : TerminalSession :=
  let rows := request.rows % 2 ^ 16
  let cols := request.cols % 2 ^ 16
  { pid, rows, cols, ptySize := some (rows, cols), child := some none, state := .active none .idle }

/-- `handle_open` on a session that exists: a limited backlog is kept, and the end of all that was kept is pending. -/
def reconnect : TerminalSession :=
  let reconnectBacklog := session.outputRx.take channelBufferSize
  let outputBuffer := session.outputBuffer.appendAll reconnectBacklog
  let buffer := outputBuffer.getRecent defaultReconnectBufferBytes
  { session with
    outputRx := session.outputRx.drop channelBufferSize
    outputBuffer
    taken := session.taken ++ reconnectBacklog
    state := .active (if buffer = [] then none else some buffer) (.tempResize maxSigwinchPhaseAttempts) }

def hasPending : Bool :=
  match session.state with
  | .closed => false
  | .active pendingBuffer _ => pendingBuffer.isSome

def targetRows : SigwinchAction → ℕ
  | .tempResize => if 2 < session.rows then session.rows - 1 else session.rows + 1
  | .restore => session.rows

def doSigwinchResize (action : SigwinchAction) (resizeOk : Bool) : TerminalSession × Bool :=
  if session.rows = 0 ∨ session.cols = 0 then (session, false)
  else if session.ptySize.isSome && resizeOk then
    ({ session with ptySize := some (session.targetRows action, session.cols) }, true)
  else (session, false)

/-- The reader thread or the shell has ended, and the client was not told. -/
def shouldSendClosed : Bool :=
  !session.closedMessageSent && (session.readerFinished || (session.child.any Option.isSome))

/-- What `read_outputs` does first: the channel is emptied and all is kept. The reader thread may put more chunks into
the channel meanwhile. -/
def drain (late : List Bytes) : TerminalSession :=
  let receivedData := session.outputRx ++ late
  { session with
    closedMessageSent := session.closedMessageSent || session.shouldSendClosed
    outputRx := []
    outputBuffer := session.outputBuffer.appendAll receivedData
    accepted := session.accepted ++ late
    taken := session.taken ++ receivedData }

/-- `read_outputs` on one session. -/
def readOutputs (codec : Codec) (terminalId : Int) (late : List Bytes) (resizeOk : Bool) :
    TerminalSession × List TerminalResponse :=
  let drained := session.drain late
  match session.state with
  | .closed => (drained, [])
  | .active pendingBuffer sigwinch =>
    let (drained, sigwinch) :=
      match sigwinch.next with
      | (sigwinch, none) => (drained, sigwinch)
      | (sigwinch, some action) =>
        let (drained, resizeOk) := drained.doSigwinchResize action resizeOk
        (drained, sigwinch.resized action resizeOk)
    ({ drained with state := .active none sigwinch },
      (replayed pendingBuffer ++ (session.outputRx ++ late)).map (createTerminalDataResponse codec terminalId))

/-- The shell is handed to the reaper. -/
def release : TerminalSession := { session with child := none }

/-- What was taken out of the channel is what was kept, in the same order and once. -/
def KeptOnce : Prop :=
  session.outputBuffer = OutputBuffer.appendAll {} session.taken ∧
    session.accepted = session.taken ++ session.outputRx

variable {session}

theorem readOutputs_of_closed (codec : Codec) (terminalId : Int) (late : List Bytes) (resizeOk : Bool)
    (h : session.state = .closed) :
    session.readOutputs codec terminalId late resizeOk = (session.drain late, []) := by
  rw [readOutputs, h]

theorem doSigwinchResize_fst (session : TerminalSession) (action : SigwinchAction) (resizeOk : Bool) :
    ∃ ptySize, (session.doSigwinchResize action resizeOk).1 = { session with ptySize } := by
  unfold doSigwinchResize
  split
  · exact ⟨_, rfl⟩
  · split <;> exact ⟨_, rfl⟩

/-- An active session sends what is pending and what it received, and nothing stays pending. -/
theorem readOutputs_of_active (codec : Codec) (terminalId : Int) (late : List Bytes) (resizeOk : Bool)
    {pendingBuffer : Option Bytes} {sigwinch : SigwinchPhase} (h : session.state = .active pendingBuffer sigwinch) :
    ∃ ptySize sigwinch', session.readOutputs codec terminalId late resizeOk =
      ({ session.drain late with ptySize, state := .active none sigwinch' },
        (replayed pendingBuffer ++ (session.outputRx ++ late)).map (createTerminalDataResponse codec terminalId)) := by
  simp only [readOutputs, h]
  rcases sigwinch.next with ⟨sigwinch', _ | action⟩
  · exact ⟨_, _, rfl⟩
  · obtain ⟨ptySize, hsize⟩ := doSigwinchResize_fst (session.drain late) action resizeOk
    simp only [hsize]
    exact ⟨_, _, rfl⟩

/-- Whether the session is active or not, it is drained. -/
theorem readOutputs_drains (session : TerminalSession) (codec : Codec) (terminalId : Int) (late : List Bytes) (resizeOk : Bool) :
    ∃ ptySize state, (session.readOutputs codec terminalId late resizeOk).1 =
      { session.drain late with ptySize, state } := by
  cases hstate : session.state with
  | closed =>
    rw [readOutputs_of_closed codec terminalId late resizeOk hstate]
    exact ⟨_, _, rfl⟩
  | active pendingBuffer sigwinch =>
    obtain ⟨ptySize, sigwinch', hread⟩ := readOutputs_of_active codec terminalId late resizeOk hstate
    rw [hread]
    exact ⟨_, _, rfl⟩

section

variable (h : session.KeptOnce)
include h

theorem KeptOnce.drain (late : List Bytes) : (session.drain late).KeptOnce := by
  obtain ⟨hbuffer, haccepted⟩ := h
  refine ⟨?_, ?_⟩
  · rw [TerminalSession.drain, hbuffer]
    exact (OutputBuffer.appendAll_append ..).symm
  · simp [TerminalSession.drain, haccepted]

theorem KeptOnce.readOutputs (codec : Codec) (terminalId : Int) (late : List Bytes)
    (resizeOk : Bool) : (session.readOutputs codec terminalId late resizeOk).1.KeptOnce := by
  obtain ⟨ptySize, state, hread⟩ := session.readOutputs_drains codec terminalId late resizeOk
  rw [hread]
  exact h.drain late

theorem KeptOnce.reconnect : session.reconnect.KeptOnce := by
  obtain ⟨hbuffer, haccepted⟩ := h
  refine ⟨?_, ?_⟩
  · rw [TerminalSession.reconnect, hbuffer]
    exact (OutputBuffer.appendAll_append ..).symm
  · simp [TerminalSession.reconnect, haccepted]

theorem KeptOnce.trySendOutput (data : Bytes) : (session.trySendOutput data).KeptOnce := by
  unfold TerminalSession.trySendOutput
  split
  · exact ⟨h.1, by simp [h.2]⟩
  · exact h

end

end TerminalSession

end UnyDesk
