import UnyDesk.Connection.Credentials

/-!
# Subscriptions, options and voice calls

A session receives text and file clipboards, the cursor and audio through services it is
subscribed to. Permissions of the connection manager, options of the peer and voice calls each
subscribe and unsubscribe the services that depend on them.
-/

namespace UnyDesk

/-- The services that this build registers with the server. -/
def Env.hasService (env : Env) : ServiceName → Bool
  | .audio => true
  | .clipboard => env.build.os ≠ .ios
  | .fileClipboard => env.build.os ≠ .ios && env.build.unixFileCopyPaste
  | .cursor | .pos => env.build.desktop && !env.captureCursorEmbedded
  | .windowFocus =>
    env.build.desktop && !env.captureCursorEmbedded && (env.build.os ≠ .linux || env.isX11)

/-- `any(target_os = "windows", feature = "unix-file-copy-paste")`. -/
def Build.hasFileClipboard (build : Build) : Bool := build.os = .windows || build.unixFileCopyPaste

namespace Connection

section

variable (c : Connection)

def isRemote : Bool :=
  c.fileTransfer.isNone && c.portForwardSocket.isNone && !c.viewCamera && !c.terminal

def isAuthedRemoteConn : Bool := c.authedConnId = some .remote

def isAuthedViewCameraConn : Bool := c.authedConnId = some .viewCamera

def peerKeyboardEnabled : Bool := c.keyboard && !c.disableKeyboard

def clipboardEnabled : Bool := c.clipboard && !c.disableClipboard

def audioEnabled : Bool := c.audio && !c.disableAudio

def fileTransferEnabled : Bool := c.file && c.enableFileTransfer

end

def canSubClipboardService (env : Env) (c : Connection) : Bool :=
  c.clipboardEnabled && c.peerKeyboardEnabled && env.builtinOption keys.optionOneWayClipboardRedirection ≠ "Y"

def canSubFileClipboardService (env : Env) (c : Connection) : Bool :=
  c.clipboardEnabled && c.fileTransferEnabled && env.builtinOption keys.optionOneWayFileTransfer ≠ "Y"

end Connection

namespace Host

/-- `Server::subscribe`: unknown services are ignored. -/
def subscribe (env : Env) (h : Host) (name : ServiceName) (sub : Bool) : Host :=
  if env.hasService name then { h with subs := Function.update h.subs name sub } else h

/-- The services left out when a remote session is added to the server. -/
def noperms (env : Env) (c : Connection) : ServiceName → Bool
  | .cursor => !c.peerKeyboardEnabled && !c.showRemoteCursor
  | .pos => !c.showRemoteCursor
  | .windowFocus => !c.followRemoteWindow
  | .clipboard => !c.canSubClipboardService env
  | .fileClipboard => !c.canSubFileClipboardService env
  | .audio => !c.audioEnabled

/-- `Server::add_connection`: everything permitted is subscribed, nothing is unsubscribed. -/
def addConnection (env : Env) (h : Host) : Host :=
  { h with subs := fun name => env.hasService name && !noperms env h.conn name || h.subs name }

def trySubMonitorServices (env : Env) (h : Host) : Host :=
  if h.conn.isRemote && !h.conn.servicesSubed then
    (h.updateConn fun c => { c with servicesSubed := true }).addConnection env
  else h

/-- An option that this build has and that is set to a known value. -/
def applyBool (compiled : Bool) (field : BoolField) (f : Host → Bool → Host) (h : Host) : Host :=
  if compiled then
    match field.enumValue with
    | some .yes => f h true
    | some .no => f h false
    | some .notSet | none => h
  else h

section

variable (env : Env)

section

variable (h : Host)
include h

/-- The cursor is wanted by a peer that may use the keyboard or asked to see it. -/
def subscribeCursor : Host :=
  h.subscribe env .cursor (h.conn.peerKeyboardEnabled || h.conn.showRemoteCursor)

def subscribeClipboard : Host :=
  h.subscribe env .clipboard (h.conn.canSubClipboardService env)

def subscribeFileClipboard : Host :=
  if env.build.unixFileCopyPaste then
    h.subscribe env .fileClipboard (h.conn.canSubFileClipboardService env)
  else h

/-- Audio of a camera session follows its voice call, otherwise it follows the permission. -/
def subscribeAudio : Host :=
  if h.conn.isAuthedViewCameraConn then
    if h.conn.voiceCalling || !h.conn.audioEnabled then
      h.subscribe env .audio h.conn.audioEnabled
    else h
  else h.subscribe env .audio h.conn.audioEnabled

section

variable (on : Bool)

def setShowRemoteCursor : Host :=
  let h := (h.updateConn fun c => { c with showRemoteCursor := on }).subscribeCursor env
  h.subscribe env .pos h.conn.showRemoteCursor

def setFollowRemoteWindow : Host :=
  (h.updateConn fun c => { c with followRemoteWindow := on }).subscribe env .windowFocus on

def setDisableAudio : Host :=
  (h.updateConn fun c => { c with disableAudio := on }).subscribeAudio env

def setEnableFileTransfer : Host :=
  let h := h.updateConn fun c => { c with enableFileTransfer := on }
  let h := if env.build.os = .windows then
    h.sendToCm (.clipboardFileEnabled h.conn.fileTransferEnabled) else h
  h.subscribeFileClipboard env

def setDisableClipboard : Host :=
  (h.updateConn fun c => { c with disableClipboard := on }).subscribeClipboard env

def setDisableKeyboard : Host :=
  let h := (h.updateConn fun c => { c with disableKeyboard := on }).subscribeClipboard env
  (h.subscribeFileClipboard env).subscribeCursor env

end

end

end

section

variable (h : Host)
include h

section

variable (on : Bool)

/-- Older peers switch privacy mode through the options. -/
def setPrivacyModeOption : Host :=
  if getVersionNumber h.conn.lr.version < getVersionNumber "1.2.4" && h.conn.keyboard then
    h.emit (.privacyMode on)
  else h

def setBlockInput : Host :=
  if h.conn.keyboard && h.conn.blockInput then h.emit (.inputBlocked on)
  else h.emit (.blockInputError on)

def setLockAfterSessionEnd : Host :=
  h.updateConn fun c => { c with lockAfterSessionEnd := on }

def setFollowRemoteCursor : Host :=
  h.updateConn fun c => { c with followRemoteCursor := on }

def setTerminalPersistent : Host :=
  h.updateConn fun c => { c with terminalPersistent := on }

def setShowMyCursor : Host := h.updateConn fun c => { c with showMyCursor := on }

end

end

/-- `update_options`; image quality, frame rate and codecs belong to the video services. -/
def updateOptions (env : Env) (h : Host) (o : OptionMessage) : Host :=
  let h := applyBool true o.lockAfterSessionEnd setLockAfterSessionEnd h
  let h := applyBool env.build.desktop o.showRemoteCursor (setShowRemoteCursor env) h
  let h := applyBool env.build.desktop o.followRemoteCursor setFollowRemoteCursor h
  let h := applyBool true o.followRemoteWindow (setFollowRemoteWindow env) h
  let h := applyBool true o.disableAudio (setDisableAudio env) h
  let h := applyBool env.build.hasFileClipboard o.enableFileTransfer (setEnableFileTransfer env) h
  let h := applyBool true o.disableClipboard (setDisableClipboard env) h
  let h := applyBool true o.disableKeyboard (setDisableKeyboard env) h
  let h := applyBool true o.privacyMode setPrivacyModeOption h
  let h := applyBool true o.blockInput setBlockInput h
  let h := applyBool env.build.desktop o.terminalPersistent setTerminalPersistent h
  applyBool env.build.desktop o.showMyCursor setShowMyCursor h

/-- `handle_voice_call`: the user answers a call of the peer. -/
def handleVoiceCall (env : Env) (h : Host) (accepted : Bool) : Host :=
  match h.conn.voiceCallRequestTimestamp with
  | some timestamp =>
    let h := h.updateConn fun c => { c with voiceCallRequestTimestamp := none }
    let h := h.sendToCm (if accepted then .startVoiceCall else .closeVoiceCall)
    let h := h.emit (.voiceCallResponse timestamp accepted)
    let h := h.updateConn fun c => { c with voiceCalling := accepted }
    if h.conn.isAuthedViewCameraConn then h.subscribe env .audio (h.conn.audioEnabled && accepted) else h
  | none => h

def closeVoiceCall (env : Env) (h : Host) : Host :=
  let h := h.sendToCm .closeVoiceCall
  let h := h.updateConn fun c => { c with voiceCalling := false }
  if h.conn.isAuthedViewCameraConn then h.subscribe env .audio false else h

/-- The keyboard permission is changed by the user; the cursor follows it alone here. -/
def switchKeyboard (env : Env) (h : Host) (enabled : Bool) : Host :=
  let h := (h.updateConn fun c => { c with keyboard := enabled }).emit (.permission .keyboard enabled)
  let h := (h.subscribeClipboard env).subscribeFileClipboard env
  h.subscribe env .cursor (enabled || h.conn.showRemoteCursor)

def switchClipboard (env : Env) (h : Host) (enabled : Bool) : Host :=
  let h := (h.updateConn fun c => { c with clipboard := enabled }).emit (.permission .clipboard enabled)
  h.subscribeClipboard env

def switchAudio (env : Env) (h : Host) (enabled : Bool) : Host :=
  let h := (h.updateConn fun c => { c with audio := enabled }).emit (.permission .audio enabled)
  if h.conn.authorized then h.subscribeAudio env else h

def switchFile (env : Env) (h : Host) (enabled : Bool) : Host :=
  let h := (h.updateConn fun c => { c with file := enabled }).emit (.permission .file enabled)
  h.subscribeFileClipboard env

/-- Privacy mode that cannot be turned off keeps its permission. -/
def switchPrivacyMode (h : Host) (enabled : Bool) : Host :=
  let mustTurnOff := !enabled && h.world.inPrivacyMode && h.world.ownsPrivacyMode
  if mustTurnOff && !h.world.turnOffPrivacyOk then
    (h.emit (.privacyMode true)).sendToCm (.switchPermission "privacy_mode" h.conn.privacyMode)
  else
    let h := if mustTurnOff then h.emit (.privacyMode false) else h
    (h.updateConn fun c => { c with privacyMode := enabled }).emit (.permission .privacyMode enabled)

/-- `ipc::Data::SwitchPermission`. -/
def switchPermission (env : Env) (h : Host) (name : String) (enabled : Bool) : Host :=
  if name = "keyboard" then h.switchKeyboard env enabled
  else if name = "clipboard" then h.switchClipboard env enabled
  else if name = "audio" then h.switchAudio env enabled
  else if name = "file" then h.switchFile env enabled
  else if name = "restart" then
    (h.updateConn fun c => { c with restart := enabled }).emit (.permission .restart enabled)
  else if name = "recording" then
    (h.updateConn fun c => { c with recording := enabled }).emit (.permission .recording enabled)
  else if name = "block_input" then
    (h.updateConn fun c => { c with blockInput := enabled }).emit (.permission .blockInput enabled)
  else if name = "privacy_mode" then h.switchPrivacyMode enabled
  else h

end Host

end UnyDesk
