import UnyDesk.Config.TrustedDevices
import UnyDesk.Connection.ChallengeResponse
import UnyDesk.Connection.Settings

/-!
# The state of a connection

A connection is driven by messages of its peer and of the connection manager. It reads and
writes process-wide tables (recent sessions, trusted devices, login failures, pending
switch-sides requests) and asks the operating system many questions; all of that is the
`World`, which other connections and the user change at any time.

What the connection does is recorded: messages to the peer and to the connection manager, the
services it is subscribed to, and a trail of the security decisions it took. The trail is the
audit that the theorems are about; nothing reads it back.
-/

namespace UnyDesk

open Lib

inductive ConnAuditPrimaryAuth
  | none
  | click
  | temporaryPassword
  | permanentPassword
  | switchSides
deriving DecidableEq

inductive ConnAuditTwoFactor
  | none
  | totp
  | trustedDevice
deriving DecidableEq

/-- Whose rights a terminal runs with. -/
inductive TerminalUserToken
  | selfUser
  | currentLogonUser (token : ℕ)
deriving DecidableEq

def TerminalUserToken.toTerminalServiceToken : TerminalUserToken → Option ℕ
  | .selfUser => none
  | .currentLogonUser token => some token

structure SessionKey where
  peerId : String
  name : String
  sessionId : ℕ
deriving DecidableEq

structure Session where
  lastRecvTime : Int
  randomPassword : String
  tfa : Bool

/-- Failed attempts of one address: the minute of the last one, how many in it, how many in all. -/
structure FailureEntry where
  minute : Int := 0
  inMinute : Int := 0
  total : Int := 0

structure OsCredentialFailureState where
  totalFailures : Int := 0
  backoffUntilMs : Option Int := none
  lastFailureMs : Option Int := none

/-- Consecutive failures against the current temporary password. -/
structure TemporaryPasswordFailures where
  password : String := ""
  failures : Int := 0

/-- The answer of the Windows logon API to a user name and password. -/
inductive LogonResult
  | failed
  | unknownRights
  | user
  | administrator
deriving DecidableEq

/-- The outcome of asking Windows for the token of the active session. -/
inductive SessionToken
  | noSession
  | noToken
  | token (value : ℕ)

/-- Everything outside the connection that it reads or writes. -/
structure World where
  now : Int := 0
  option : Options := fun _ => ""
  id : String := ""
  password : PasswordFields := {}
  temporaryPassword : String := ""
  nextTemporaryPassword : String := ""
  temporaryPasswordFailures : TemporaryPasswordFailures := {}
  sessions : List (SessionKey × Session) := []
  trustedDevices : List TrustedDevice := []
  /-- `SWITCH_SIDES_UUID`: peer id, time of the request, uuid. -/
  switchSidesUuid : List (String × Int × Bytes) := []
  /-- `PENDING_SWITCH_SIDES_UUID`. -/
  pendingSwitchSidesUuid : List (String × Int × Bytes) := []
  /-- `LOGIN_FAILURES[0]`, by address or address block. -/
  loginFailures : List (String × FailureEntry) := []
  /-- `LOGIN_FAILURES[1]`. -/
  twoFactorFailures : List (String × FailureEntry) := []
  osCredentialFailures : OsCredentialFailureState := {}
  osCredentialGateFree : Bool := true
  /-- `totp.check_current`, which can fail to read the clock. -/
  totpCheck : Bytes → String → Option Bool := fun _ _ => some false
  isPrelogin : Bool := false
  isLocked : Bool := false
  isLogonUi : Bool := false
  isInstalled : Bool := true
  inPrivacyMode : Bool := false
  /-- Privacy mode was turned on by this connection. -/
  ownsPrivacyMode : Bool := false
  turnOffPrivacyOk : Bool := true
  linuxDesktopUsername : String := ""
  /-- `linux_desktop_manager::try_start_desktop`: the error, empty when the desktop is ready. -/
  tryStartDesktop : String → String → String := fun _ _ => ""
  tcpConnect : String → Bool := fun _ => true
  logonUser : String → String → LogonResult := fun _ _ => .failed
  sessionToken : SessionToken := .noSession
  /-- `terminal_service::is_service_specified_user`. -/
  isServiceSpecifiedUser : String → Option Bool := fun _ => none
  generatedServiceId : String := ""
  /-- The complaint about the display server of a Linux session, empty when it is supported. -/
  linuxDisplayError : String := ""
  /-- The error of `update_get_sync_displays_on_login`, if the displays could not be read. -/
  displaysError : Option String := none
  isDir : String → Bool := fun _ => true
  /-- Several Windows sessions are open and the peer may choose one. -/
  windowsSessionsOffered : Bool := false
  currentProcessSid : Option ℕ := none
  /-- Another remote connection has this session key. -/
  otherRemote : SessionKey → Bool := fun _ => false
  /-- Print jobs of this host that wait for the peer, by path. -/
  printerData : String → Bool := fun _ => false
  /-- The peer may move the connection to this Windows session. -/
  canMoveToSid : ℕ → Bool := fun _ => false

/-- What is fixed for the lifetime of a connection. -/
structure Env where
  build : Build
  config : ConfigEnv
  ip : String := ""
  /-- `get_ipv6_prefixes`: the blocks of 64, 56 and 48 bits around an IPv6 address. -/
  ipv6Prefixes : Option (String × String × String) := none
  controlPermissions : Option ℕ := none
  builtinOption : Options := fun _ => ""
  /-- `is_direct_ip_access`: the peer was addressed by ip or by domain and port. -/
  isDirectIpAccess : String → Bool := fun _ => false
  isHeadlessAllowed : Bool := false
  /-- The cursor is drawn by the screen capture, so there is no cursor service. -/
  captureCursorEmbedded : Bool := false
  isX11 : Bool := true

/-- The services that a permission or an option of the session controls. -/
inductive ServiceName
  | audio
  | clipboard
  | fileClipboard
  | cursor
  | pos
  | windowFocus
deriving DecidableEq

inductive AlarmAuditType
  | exceedThirtyAttempts
  | sixAttemptsWithinOneMinute
  | exceedIPv6PrefixAttempts
  | terminalOsLoginBackoff
  | terminalOsLoginConcurrency
  | sessionScopeViolation
deriving DecidableEq

inductive Permission
  | keyboard
  | clipboard
  | audio
  | file
  | restart
  | recording
  | blockInput
  | privacyMode
deriving DecidableEq

/-- What leaves the connection towards the peer or the audit server. -/
inductive Output
  | loginError (text : String) (enableTrustedDevices : Bool)
  | loginResponse (error : Option String)
  | permission (p : Permission) (enabled : Bool)
  | closeReason (reason : String)
  | reply (m : Message)
  | chat (text : String)
  | voiceCallResponse (timestamp : Int) (accepted : Bool)
  | voiceCallRequest (connect : Bool)
  | blockInputError (on : Bool)
  | switchBack
  /-- A message handed over to the component that serves it. -/
  | forwarded (m : Message)
  | inputBlocked (on : Bool)
  | privacyMode (on : Bool)
  | readDir (dir : String) (showHidden : Bool)
  | fsError (id : Int) (error : String)
  | alarm (kind : AlarmAuditType)
  | connAudit (kind : AuthConnType) (primary : ConnAuditPrimaryAuth) (second : ConnAuditTwoFactor)
deriving DecidableEq

/-- `ipc::Data::Login`, the request that the user is shown. -/
structure CmLogin where
  isFileTransfer : Bool
  isViewCamera : Bool
  isTerminal : Bool
  portForward : String
  peerId : String
  name : String
  avatar : String
  authorized : Bool
  keyboard : Bool
  clipboard : Bool
  audio : Bool
  file : Bool
  restart : Bool
  recording : Bool
  blockInput : Bool
  privacyMode : Bool
  fromSwitch : Bool

/-- Messages to the connection manager. -/
inductive CmData
  | login (l : CmLogin)
  | chatMessage (text : String)
  | clipboardFileEnabled (enabled : Bool)
  | clipboardFile (body : Bytes)
  | fs (m : Message)
  | startVoiceCall
  | closeVoiceCall
  | voiceCallIncoming
  | switchPermission (name : String) (enabled : Bool)
  | disconnected
  | close

/-- What a terminal action may do and what a session was granted with. -/
structure Grant where
  kind : AuthConnType
  portForwardSocket : Option String
  lr : LoginRequest
  terminalUserToken : Option TerminalUserToken
  /-- The user of the persistent terminal service when the session was granted. -/
  serviceUser : Option Bool
deriving DecidableEq

/-- The security decisions of a connection. -/
inductive Mark
  | loginStored (lr : LoginRequest)
  | scopeReset
  | permissionHeld (option : String)
  | primaryAuth (method : ConnAuditPrimaryAuth)
  | twoFactor (method : ConnAuditTwoFactor) (peerId name : String)
  | tokenFilled (username password : String) (token : TerminalUserToken)
  | granted (grant : Grant)
  | terminalAction (authorized : Bool) (kind : Option AuthConnType)
deriving DecidableEq

/-- `Connection`, the fields that the modelled functions read or write. -/
structure Connection where
  hash : HashMsg
  lr : LoginRequest := {}
  optionsInLogin : Option OptionMessage := none
  videoAckRequired : Bool := false
  require2fa : Option Bytes := none
  authorized : Bool := false
  authedConnId : Option AuthConnType := none
  fileTransfer : Option (String × Bool) := none
  viewCamera : Bool := false
  terminal : Bool := false
  portForwardSocket : Option String := none
  portForwardAddress : String := ""
  fromSwitch : Bool := false
  keyboard : Bool
  clipboard : Bool
  audio : Bool
  file : Bool
  restart : Bool
  recording : Bool
  blockInput : Bool
  privacyMode : Bool
  lockAfterSessionEnd : Bool := false
  showRemoteCursor : Bool := false
  followRemoteCursor : Bool := false
  followRemoteWindow : Bool := false
  disableKeyboard : Bool := false
  disableClipboard : Bool := false
  disableAudio : Bool := false
  enableFileTransfer : Bool := false
  showMyCursor : Bool := false
  audioSender : Bool := false
  voiceCallRequestTimestamp : Option Int := none
  voiceCalling : Bool := false
  servicesSubed : Bool := false
  delayedReadDir : Option (String × Bool) := none
  connAuditPrimaryAuth : ConnAuditPrimaryAuth := .none
  connAuditTwoFactor : ConnAuditTwoFactor := .none
  terminalServiceId : String := ""
  terminalPersistent : Bool := false
  terminalUserToken : Option TerminalUserToken := none
  /-- The terminal service was started for this connection. -/
  terminalServiceStarted : Bool := false
  scopeViolationMessages : List String := []
  lastTestDelay : Bool := false
  chatUnanswered : Bool := false
  fileTransferred : Bool := false
  /-- `start_cm_ipc_para` is still there: the connection manager was not started. -/
  cmIpcPending : Bool := true
  closed : Bool := false

/-- A connection in its world, with everything it did; newest entries first. -/
structure Host where
  conn : Connection
  world : World
  subs : ServiceName → Bool
  out : List Output := []
  toCm : List CmData := []
  trail : List Mark := []
  /-- The message loop is running. -/
  alive : Bool := true

namespace Host

/-- Send a message or report to the outside. -/
@[simps]
def emit (h : Host) (o : Output) : Host := { h with out := o :: h.out }

/-- `send_to_cm`. -/
@[simps]
def sendToCm (h : Host) (d : CmData) : Host := { h with toCm := d :: h.toCm }

/-- Record a security decision. -/
@[simps]
def mark (h : Host) (m : Mark) : Host := { h with trail := m :: h.trail }

@[simps]
def updateConn (h : Host) (f : Connection → Connection) : Host := { h with conn := f h.conn }

@[simps]
def updateWorld (h : Host) (f : World → World) : Host := { h with world := f h.world }

end Host

end UnyDesk
