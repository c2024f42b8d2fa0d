import UnyDesk.Connection.Session

/-!
# The loop of a connection

`Connection::start` builds the connection and then waits for whatever comes first: a message of
the peer, a message of the connection manager or a timer. A run is any finite list of such
events; between them the world may become any other world. When the loop has ended, nothing is
received any more.
-/

namespace UnyDesk

open Lib

inductive Event
  | message (m : Message)
  -- Messages of the connection manager.
  | authorize
  | close
  | cmErr (e : String)
  | chatMessage (text : String)
  | switchPermission (name : String) (enabled : Bool)
  | switchSidesBack
  | voiceCallResponse (accepted : Bool)
  | closeVoiceCall
  | testDelayTimer
  -- The stream failed, was reset or timed out.
  | hangUp
  -- The web console, inactivity or the end of the service closed the connection.
  | shutDown (reason : String)
  | worldChange (w : World)

namespace Host

/-- The loop is left. -/
@[simps]
def stop (h : Host) : Host := { h with alive := false }

section

variable (env : Env)

/-- A granted port forward leaves the loop for the forwarding one. -/
def receive (h : Host) (m : Message) : Host :=
  match h.onMessage env m with
  | (h, false) => h.stop
  | (h, true) =>
    if h.conn.portForwardSocket.isSome && h.conn.authorized && !h.conn.lastTestDelay then h.stop else h

/-- `ipc::Data::Authorize`: the user clicked accept, which also waives the second factor. -/
def onAuthorize (h : Host) : Host :=
  let h := h.setConnAuditPrimaryAuth .click
  let h := h.updateConn fun c => { c with require2fa := none }
  match h.sendLogonResponseAndKeepAlive env with
  | (h, false) => h.stop
  | (h, true) => if h.conn.portForwardSocket.isSome then h.stop else h

/-- `ipc::Data::Close`. -/
def onCmClose (h : Host) : Host :=
  let h := h.updateConn fun c => { c with chatUnanswered := false, fileTransferred := false }
  ((h.sendCloseReasonNoRetry "").onClose env).stop

def onCmErr (h : Host) (e : String) : Host :=
  if e ≠ "expected" then (h.onClose env).stop else h

def onSwitchSidesBack (h : Host) : Host :=
  if env.build.flutterDesktop then h.emit .switchBack else h

end

def onTestDelayTimer (h : Host) : Host :=
  if !h.conn.lastTestDelay && !(h.conn.portForwardSocket.isSome && h.conn.authorized) then
    (h.updateConn fun c => { c with lastTestDelay := true }).emit (.reply (.testDelay false))
  else h

section

variable (env : Env)

/-- One round of the loop. -/
def react (h : Host) : Event → Host
  | .message m => h.receive env m
  | .authorize => h.onAuthorize env
  | .close => h.onCmClose env
  | .cmErr e => h.onCmErr env e
  | .chatMessage text =>
    (h.emit (.chat text)).updateConn fun c => { c with chatUnanswered := false }
  | .switchPermission name enabled => h.switchPermission env name enabled
  | .switchSidesBack => h.onSwitchSidesBack env
  | .voiceCallResponse accepted => h.handleVoiceCall env accepted
  | .closeVoiceCall => (h.closeVoiceCall env).emit (.voiceCallRequest false)
  | .testDelayTimer => h.onTestDelayTimer
  | .hangUp => (h.onClose env).stop
  | .shutDown reason => ((h.sendCloseReasonNoRetry reason).onClose env).stop
  | .worldChange w => { h with world := w }

def step (h : Host) (e : Event) : Host := if h.alive then h.react env e else h

/-- The permissions that the peer is told about when the connection opens. -/
def announcePermissions (h : Host) : Host :=
  let c := h.conn
  let denied := [(Permission.clipboard, c.clipboard), (.audio, c.audio), (.file, c.file),
    (.restart, c.restart), (.recording, c.recording), (.blockInput, c.blockInput),
    (.privacyMode, c.privacyMode)].filter fun entry => !entry.2
  let keyboard := if env.build.os = .android || !c.keyboard then [(Permission.keyboard, c.keyboard)] else []
  (keyboard ++ denied).foldl (fun h entry => h.emit (.permission entry.1 entry.2)) h

/-- The connection that `Connection::start` builds. -/
def start (world : World) (hash : HashMsg) (require2fa : Option Bytes) : Host :=
  let allowed := permission env.build world.option env.controlPermissions
  announcePermissions env
    { conn :=
        { hash := hash
          require2fa := require2fa
          keyboard := allowed keys.optionEnableKeyboard
          clipboard := allowed keys.optionEnableClipboard
          audio := allowed keys.optionEnableAudio
          file := allowed keys.optionEnableFileTransfer
          restart := allowed keys.optionEnableRemoteRestart
          recording := allowed keys.optionEnableRecordSession
          blockInput := allowed keys.optionEnableBlockInput
          privacyMode := allowed keys.optionEnablePrivacyMode }
      world := world
      subs := fun _ => false }

/-- A run of the connection: what happened after it was opened. -/
def run (h : Host) (events : List Event) : Host := runEvents (step env) h events

end

end Host

/-- A Windows host for concrete runs. -/
def sampleEnv : Env :=
  { build := { os := .windows, flutter := true, unixFileCopyPaste := false }
    config := { crypto := toyCrypto [1] }
    ip := "10.0.0.1" }

/-- A host on which only a click accepts a login; the second factor is the code 123456. -/
def sampleWorld : World :=
  { now := 3600000
    option := fun name => if name = "approve-mode" then "click" else ""
    id := "100"
    totpCheck := fun _ code => some (code = "123456") }

def sampleHash : HashMsg := { salt := "s", challenge := "c" }

def sampleRequest : LoginRequest :=
  { username := "100", myId := "200", myName := "peer", version := "1.4.0" }

end UnyDesk
