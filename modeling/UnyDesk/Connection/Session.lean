import UnyDesk.Connection.Login

/-!
# `on_message`

A close reason is always heard. Once the connection is authorized a login request is ignored
and everything outside the scope of the session is turned away; what is left goes to the login
branches first and then to the handlers of the session. Input, clipboards, files and displays
are handed over to the components that serve them; what the handlers themselves decide and
which fields they write is modelled.
-/

namespace UnyDesk

def isSupportFileCopyPaste (version : String) : Bool :=
  getVersionNumber version ≥ getVersionNumber "1.3.8"

/-- `AuthedConnID::check_remove_session`; the session of a remote connection that stays is kept. -/
def checkRemoveSession (key : SessionKey) (isRemote : Bool) (w : World) : World :=
  if isRemote || !w.otherRemote key then
    { w with sessions := w.sessions.filter fun entry => entry.1 ≠ key }
  else w

/-- The job that a one-way host refuses. -/
def FileAction.oneWayJobId : FileAction → Option Int
  | .send id _ _ => some id
  | .removeFile id _ => some id
  | .rename id _ => some id
  | .create id _ => some id
  | .removeDir id _ => some id
  | _ => none

def FileAction.isPrinterSend : FileAction → Bool
  | .send _ _ printer => printer
  | _ => false

namespace Host

def checkRemoveSession (h : Host) : Host :=
  h.updateWorld (UnyDesk.checkRemoveSession h.conn.sessionKey h.conn.isAuthedRemoteConn)

/-- `on_close`: the connection manager is told once, and the forwarded port is released. -/
def onClose (env : Env) (h : Host) : Host :=
  if h.conn.closed then h
  else
    let disconnected := env.build.desktop && (h.conn.chatUnanswered || h.conn.fileTransferred && env.build.flutter)
    (h.sendToCm (if disconnected then .disconnected else .close)).updateConn fun c =>
      { c with closed := true, portForwardSocket := none }

def sendCloseReasonNoRetry (h : Host) (reason : String) : Host :=
  (h.emit (.closeReason (if reason = "" then "Closed manually by the peer" else reason))).checkRemoveSession

/-- The first message of a kind that is out of scope is reported. -/
def noteScopeViolation (h : Host) (message : String) : Host :=
  if h.conn.scopeViolationMessages.contains message then h
  else
    let h := h.updateConn fun c => { c with
      scopeViolationMessages := message :: c.scopeViolationMessages }
    if getBoolOption h.world.option keys.optionAllowScopeViolationAlarm then
      h.emit (.alarm .sessionScopeViolation)
    else h

/-- `handle_authorized_scope_violation`. -/
def handleAuthorizedScopeViolation (env : Env) (h : Host) (message : String) : Handled :=
  let h := h.noteScopeViolation message
  if getBoolOption h.world.option keys.optionAllowScopeViolationClose then
    ((h.sendCloseReasonNoRetry "Connection not allowed").onClose env, false)
  else (h, true)

def onTestDelay (h : Host) (fromClient : Bool) : Host :=
  if fromClient then h.emit (.reply (.testDelay true))
  else h.updateConn fun c => { c with lastTestDelay := false }

/-- Mouse events also move the peer's cursor on the screen, where that is wanted. -/
def onMouseEvent (env : Env) (h : Host) (m : Message) : Host :=
  if h.conn.isAuthedViewCameraConn then h
  else if !env.build.desktop || h.conn.peerKeyboardEnabled || h.conn.showMyCursor then
    h.emit (.forwarded m)
  else h

def onPointerDeviceEvent (env : Env) (h : Host) (m : Message) : Host :=
  if h.conn.isAuthedViewCameraConn then h
  else if !env.build.desktop || h.conn.peerKeyboardEnabled then h.emit (.forwarded m)
  else h

def onKeyEvent (env : Env) (h : Host) (m : Message) : Host :=
  if env.build.os = .ios || h.conn.isAuthedViewCameraConn then h
  else if env.build.os = .android || h.conn.peerKeyboardEnabled then h.emit (.forwarded m)
  else h

def onTextClipboard (h : Host) (m : Message) : Host :=
  if h.conn.isAuthedRemoteConn && h.conn.clipboardEnabled then h.emit (.forwarded m) else h

/-- Names of files are only audited, the rest of the file clipboard is served. -/
def onCliprdr (env : Env) (h : Host) (files : Bool) (body : Bytes) : Host :=
  if !env.build.hasFileClipboard then h
  else if files then h.emit (.forwarded (.cliprdr files body))
  else
    let h := if env.build.os = .windows then h.sendToCm (.clipboardFile body) else h
    if env.build.unixFileCopyPaste && isSupportFileCopyPaste h.conn.lr.version then
      h.emit (.forwarded (.cliprdr files body))
    else h

/-- A file action that the session may perform and that is not refused. -/
def performFileAction (h : Host) (action : FileAction) : Host :=
  match action with
  | .readDir path includeHidden => h.emit (.readDir path includeHidden)
  | .send _ path printer =>
    if printer && !h.world.printerData path then h
    else (h.emit (.forwarded (.fileAction (some action)))).updateConn fun c =>
      { c with fileTransferred := true }
  | .receive _ =>
    (h.sendToCm (.fs (.fileAction (some action)))).updateConn fun c => { c with fileTransferred := true }
  | _ => h.sendToCm (.fs (.fileAction (some action)))

/-- File actions belong to a file transfer; printing belongs to every session. -/
def onFileAction (env : Env) (h : Host) (action : Option FileAction) : Host :=
  match action with
  | none => h
  | some action =>
    if h.conn.fileTransfer.isNone && !action.isPrinterSend then h
    else if h.conn.delayedReadDir.isSome then
      match action with
      | .readDir path includeHidden =>
        h.updateConn fun c => { c with delayedReadDir := some (path, includeHidden) }
      | _ => h
    else if env.builtinOption keys.optionOneWayFileTransfer = "Y" && action.oneWayJobId.isSome then
      h.emit (.fsError (action.oneWayJobId.getD 0) "one-way-file-transfer-tip")
    else h.performFileAction action

/-- The peer takes this host's place as the controlled side. -/
def onSwitchSidesRequest (env : Env) (h : Host) (uuid : Bytes) : Handled :=
  if env.build.flutterDesktop && uuid.length = 16 then
    ((h.updateWorld fun w => { w with
        pendingSwitchSidesUuid := (h.conn.lr.myId, w.now, uuid) :: w.pendingSwitchSidesUuid.filter fun entry =>
          w.now - entry.2.1 < 10000 ∧ entry.1 ≠ h.conn.lr.myId }).onClose env, false)
  else (h, true)

/-- The peer chose a Windows session; what had to wait for the choice is done now. -/
def onSelectedSid (env : Env) (h : Host) (sid : ℕ) : Handled :=
  if env.build.os ≠ .windows || h.world.currentProcessSid.isNone then (h, true)
  else if h.world.canMoveToSid sid then (h, false)
  else if h.conn.fileTransfer.isSome then
    match h.conn.delayedReadDir with
    | some (dir, showHidden) =>
      ((h.updateConn fun c => { c with delayedReadDir := none }).emit (.readDir dir showHidden), true)
    | none => (h, true)
  else if h.conn.viewCamera then (h.emit (.forwarded (.misc (some (.selectedSid sid)))), true)
  else if !h.conn.terminal then (h.trySubMonitorServices env, true)
  else (h, true)

def onOption (env : Env) (h : Host) (o : OptionMessage) : Host :=
  match optionForUpdate h.conn.authedConnId o with
  | some option => h.updateOptions env option
  | none => h

def onAudioFormat (h : Host) (m : Message) : Host :=
  if h.conn.disableAudio then h
  else (h.updateConn fun c => { c with audioSender := true }).emit (.forwarded m)

def onAudioFrame (h : Host) (m : Message) : Host :=
  if !h.conn.disableAudio && h.conn.audioSender then h.emit (.forwarded m) else h

/-- The peer asks for a voice call, which the user has to answer, or ends it. -/
def onVoiceCallRequest (env : Env) (h : Host) (reqTimestamp : Int) (isConnect : Bool) : Host :=
  if isConnect then
    (h.updateConn fun c => { c with
      voiceCallRequestTimestamp := some (if reqTimestamp = 0 then h.world.now else reqTimestamp)
      }).sendToCm .voiceCallIncoming
  else h.closeVoiceCall env

/-- `handle_terminal_action`: the token of the terminal user is all that is asked for. -/
def handleTerminalAction (h : Host) (body : Bytes) : Host :=
  if h.conn.terminalUserToken.isSome then
    (h.mark (.terminalAction h.conn.authorized h.conn.authedConnId)).emit (.forwarded (.terminalAction body))
  else h

/-- Render broadcasts are only for sessions with a picture. -/
def onRenderBroadcast (h : Host) (m : Message) : Host :=
  if h.conn.isAuthedRemoteConn || h.conn.isAuthedViewCameraConn then h.emit (.forwarded m) else h

/-- Displays of this host are out of reach for a camera session. -/
def onDisplayChange (h : Host) (m : Message) : Host :=
  if h.conn.viewCamera then h else h.emit (.forwarded m)

section

variable (env : Env)

/-- The miscellaneous messages of an authorized session. -/
def onMisc (h : Host) (m : Option Misc) : Handled :=
  let msg := Message.misc m
  match m with
  | some (.chatMessage text) =>
    ((h.sendToCm (.chatMessage text)).updateConn fun c => { c with chatUnanswered := true }, true)
  | some (.option o) => (h.onOption env o, true)
  | some (.refreshVideo _) | some (.refreshVideoDisplay _) => (h.onRenderBroadcast msg, true)
  | some (.toggleVirtualDisplay _ _) =>
    (if env.build.os = .windows then h.onDisplayChange msg else h, true)
  | some (.togglePrivacyMode _ _) => (h.onDisplayChange msg, true)
  | some (.changeResolution _ _) | some (.changeDisplayResolution _ _ _) =>
    (if env.build.desktop then h.onDisplayChange msg else h, true)
  | some .restartRemoteDevice =>
    (if env.build.desktop && h.conn.restart then h.emit (.forwarded msg) else h, true)
  | some (.elevationRequest _) =>
    (if env.build.os = .windows then h.emit (.forwarded msg) else h, true)
  | some (.audioFormat _ _) => (h.onAudioFormat msg, true)
  | some (.switchSidesRequest uuid) => h.onSwitchSidesRequest env uuid
  | some (.selectedSid sid) => h.onSelectedSid env sid
  | some (.switchDisplay _) | some (.captureDisplays _) | some .videoReceived
  | some (.autoAdjustFps _) | some (.clientRecordStatus _) | some (.messageQuery _) =>
    (h.emit (.forwarded msg), true)
  | _ => (h, true)

/-- The handlers behind the scope filter. -/
def serve (h : Host) (m : Message) : Handled :=
  match m with
  | .mouseEvent _ => (h.onMouseEvent env m, true)
  | .pointerDeviceEvent _ => (h.onPointerDeviceEvent env m, true)
  | .keyEvent _ => (h.onKeyEvent env m, true)
  | .clipboard _ | .multiClipboards _ => (h.onTextClipboard m, true)
  | .cliprdr files body => (h.onCliprdr env files body, true)
  | .fileAction action => (h.onFileAction env action, true)
  | .fileResponse _ => (h.sendToCm (.fs m), true)
  | .misc misc => h.onMisc env misc
  | .audioFrame _ => (h.onAudioFrame m, true)
  | .voiceCallRequest reqTimestamp isConnect => (h.onVoiceCallRequest env reqTimestamp isConnect, true)
  | .screenshotRequest _ _ => (h.emit (.forwarded m), true)
  | .terminalAction body => (if env.build.desktop then h.handleTerminalAction body else h, true)
  | _ => (h, true)

/-- The branches of `on_message` behind the guard for authorized connections. -/
def dispatch (h : Host) (m : Message) : Handled :=
  match m with
  | .loginRequest lr => h.onLoginRequest env lr
  | .auth2fa tfa => h.onAuth2fa env tfa
  | .testDelay fromClient => (h.onTestDelay fromClient, true)
  | .switchSidesResponse s => h.onSwitchSidesResponse env s
  | m =>
    if h.conn.authorized && h.conn.portForwardSocket.isNone then h.serve env m else (h, true)

/-- What an authorized connection does with a message before it is dispatched. -/
def guardAuthorized (h : Host) (m : Message) : Handled :=
  match m with
  | .loginRequest _ => (h, true)
  | m =>
    match authorizedScopeViolation env.build h.conn.authedConnId m with
    | some message => h.handleAuthorizedScopeViolation env message
    | none => h.dispatch env m

def onMessage (h : Host) (m : Message) : Handled :=
  match m with
  | .misc (some (.closeReason _)) => ((h.onClose env).checkRemoveSession, false)
  | m => if h.conn.authorized then h.guardAuthorized env m else h.dispatch env m

end

end Host

end UnyDesk
