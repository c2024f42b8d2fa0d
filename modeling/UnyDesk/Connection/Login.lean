import UnyDesk.Connection.Logon

/-!
# The login branches of `on_message`

A login request, a second-factor code and a switch-sides response are handled before and
independently of authorization. A login request is stored first, then its kind is checked, and
after that one of many exits is taken; only some of them show the request to the user.
-/

namespace UnyDesk

/-- The outcome of a message: the connection afterwards and whether it is kept. -/
abbrev Handled := Host × Bool

section

variable (env : Env)

def shouldCheckLinuxHeadlessOsAuthBeforeDesktopStart (w : World) (username : String) : Bool :=
  env.isHeadlessAllowed && trim username ≠ "" && w.linuxDesktopUsername = ""

def shouldRecordLinuxHeadlessOsAuthFailure (username errMsg : String) : Bool :=
  env.isHeadlessAllowed && trim username ≠ "" && errMsg = loginMsgPasswordWrong

/-- The desktop of a headless Linux host is started for the user of the request. -/
def desktopError (w : World) (lr : LoginRequest) : String :=
  if env.build.os = .linux && env.isHeadlessAllowed then
    w.tryStartDesktop lr.osLoginOrDefault.username lr.osLoginOrDefault.password
  else ""

/-- Nobody is at the desktop, or it is locked. -/
def isLogon (w : World) : Bool :=
  match env.build.os with
  | .windows => w.isPrelogin || w.isLocked || w.isLogonUi
  | .linux | .macos => w.isPrelogin || w.isLocked
  | .android | .ios => w.isPrelogin

def allowLogonScreenPassword (w : World) : Bool :=
  env.builtinOption keys.optionAllowLogonScreenPassword = "Y" && isLogon env w

/-- Only a click of the user can accept the login. -/
def clickOnly (w : World) : Bool :=
  approveMode w.option = .click && !allowLogonScreenPassword env w
    || approveMode w.option = .both && !hasValidPassword env w

end

/-- The requests of this host that may still be answered by a switch of sides. -/
def pendingSwitches (w : World) : List (String × Int × Bytes) :=
  w.switchSidesUuid.filter fun entry => w.now - entry.2.1 < 10000

/-- The answer carries the uuid that was handed out for this peer. -/
def switchUuidMatches (w : World) (lr : LoginRequest) (uuid : Bytes) : Bool :=
  uuid.length = 16 && ((pendingSwitches w).lookup lr.myId).map (·.2) = some uuid

namespace Host

/-- `reset_session_scope_for_login`; the token and the id of a terminal stay. -/
def resetSessionScopeForLogin (h : Host) : Host :=
  (h.updateConn fun c => { c with
    fileTransfer := none
    viewCamera := false
    terminal := false
    portForwardAddress := ""
    terminalPersistent := false }).mark .scopeReset

section

variable (env : Env)

section

variable (h : Host)
include h

/-- A permission that was asked for on this connection and held. -/
def checkPermission (option denial : String) : Except String Host :=
  if permission env.build h.world.option env.controlPermissions option then
    .ok (h.mark (.permissionHeld option))
  else .error denial

/-- The kind of session that a login request asks for, once its permission was checked. -/
def selectScope (lr : LoginRequest) : Except String Host :=
  match lr.union with
  | some (.fileTransfer dir showHidden) => do
    let h ← h.checkPermission env keys.optionEnableFileTransfer "No permission of file transfer"
    return h.updateConn fun c => { c with fileTransfer := some (dir, showHidden) }
  | some .viewCamera => do
    let h ← h.checkPermission env keys.optionEnableCamera "No permission of viewing camera"
    return h.updateConn fun c => { c with viewCamera := true }
  | some (.terminal serviceId) => do
    let h ← h.checkPermission env keys.optionEnableTerminal "No permission of terminal"
    if env.build.os = .windows && lr.osLoginOrDefault.username ≠ "" && !h.world.isInstalled then
      .error "Supported only in the installed version."
    else
      return h.updateConn fun c => { c with
        terminal := true
        terminalPersistent := match c.optionsInLogin with
          | some o => o.terminalPersistent.enumValue = some .yes
          | none => c.terminalPersistent
        terminalServiceId := serviceId }
  | some (.portForward pf) => do
    let h ← h.checkPermission env keys.optionEnableTunnel "No permission of IP tunneling"
    return h.updateConn fun c => { c with portForwardAddress := (normalizePortForwardTarget pf).1 }
  | none =>
    if h.world.inPrivacyMode then .error "Someone turns on privacy mode, exit" else .ok h

/-- The logon goes on; as long as the connection is kept, the user is shown the request. -/
def resumeLogon (peerId name : String) : Handled :=
  match h.sendLogonResponseAndKeepAlive env with
  | (h, false) => (h, false)
  | (h, true) => (h.tryStartCm peerId name h.conn.authorized, true)

section

variable (lr : LoginRequest)

/-- The factor was accepted, but the desktop session may not be ready for it. -/
def completeLogin (errMsg : String) : Handled :=
  if errMsg = "" then h.resumeLogon env lr.myId lr.myName else (h.sendLoginError errMsg, true)

/-- The user is asked, after the terminal user was prepared where that comes first. -/
def askUser : Handled :=
  let (h, stop) :=
    if env.build.desktop && shouldUseTerminalOsLoginScope env h.conn.terminal
        lr.osLoginOrDefault.username then h.prepareTerminalLoginForAuthorization env
    else (h, none)
  match stop with
  | some keepAlive => (h, keepAlive)
  | none => (h.tryStartCm lr.myId lr.myName false, true)

/-- A login with a password that is not one of a recent session. -/
def checkLoginPassword (errMsg : String) : Handled :=
  let check := checkFailure env h.world 0
  if check.blocked.isSome then (h.noteFailureCheck .default check, true)
  else match h.validatePassword env (allowLogonScreenPassword env h.world) with
    | (h, false) =>
      let h := h.updateWorld (updateFailure env check false 0)
      let h := h.updateWorld (checkUpdateTemporaryPassword false)
      if errMsg = "" then
        ((h.sendLoginError loginMsgPasswordWrong).tryStartCm lr.myId lr.myName false, true)
      else (h.sendLoginError loginMsgDesktopSessionNotReadyPasswordWrong, true)
    | (h, true) =>
      (h.updateWorld (updateFailure env check true 0)).completeLogin env lr errMsg

/-- The ways in which a login request can be accepted. -/
def approveLogin (errMsg : String) : Handled :=
  if clickOnly env h.world then
    match h.askUser env lr with
    | (h, false) => (h, false)
    | (h, true) =>
      (if getVersionNumber lr.version ≥ getVersionNumber "1.2.0" then
        h.sendLoginError loginMsgNoPasswordAccess else h, true)
  else match h.isRecentSession env false with
    | (h, true) => h.completeLogin env lr errMsg
    | (h, false) =>
      if lr.password = [] then
        if errMsg = "" then h.askUser env lr
        else (h.sendLoginError loginMsgDesktopSessionNotReadyPasswordEmpty, true)
      else h.checkLoginPassword env lr errMsg

/-- A desktop that could not be started ends the login; a wrong password is counted. -/
def startDesktop : Handled :=
  let errMsg := desktopError env h.world lr
  if errMsg ≠ "" && errMsg ≠ loginMsgDesktopSessionNotReady then
    if shouldRecordLinuxHeadlessOsAuthFailure env lr.osLoginOrDefault.username errMsg then
      let check := checkFailure env h.world 0
      if check.blocked.isSome then (h.noteFailureCheck .default check, true)
      else ((h.updateWorld (updateFailure env check false 0)).sendLoginError errMsg, true)
    else (h.sendLoginError errMsg, true)
  else h.approveLogin env lr errMsg

/-- The checks between the kind of session and its approval. -/
def admitLogin : Handled :=
  if !env.isDirectIpAccess lr.username && lr.username ≠ h.world.id then
    (h.sendLoginError loginMsgOffline, false)
  else if env.build.os = .windows && h.conn.terminal
      && trim lr.osLoginOrDefault.username = "" && h.world.isPrelogin then
    (h.sendLoginError noActiveConsoleUserMsg, false)
  else
    let h := if env.build.desktop && !shouldUseTerminalOsLoginScope env h.conn.terminal
        lr.osLoginOrDefault.username then h.tryStartCmIpc else h
    let check := checkFailure env h.world 0
    if env.build.os = .linux && shouldCheckLinuxHeadlessOsAuthBeforeDesktopStart env h.world
        lr.osLoginOrDefault.username && check.blocked.isSome then
      (h.noteFailureCheck .default check, true)
    else h.startDesktop env lr

end

end

end

/-- A login request is stored and the scope of the previous one is dropped. -/
def storeLogin (h : Host) (lr : LoginRequest) : Host :=
  (h.handleLoginRequestWithoutValidation lr).resetSessionScopeForLogin

/-- The `LoginRequest` branch. -/
def onLoginRequest (env : Env) (h : Host) (lr : LoginRequest) : Handled :=
  if h.conn.authorized then (h.handleLoginRequestWithoutValidation lr, true)
  else match (h.storeLogin lr).selectScope env lr with
    | .error denial => ((h.storeLogin lr).sendLoginError denial, false)
    | .ok h => h.admitLogin env lr

/-- A right code: the second factor is recorded and no longer required. -/
def acceptAuth2fa (env : Env) (h : Host) (check : FailureCheck) : Host :=
  let h := h.updateWorld (updateFailure env check true 1)
  let h := h.updateConn fun c => { c with require2fa := none }
  let h := h.setConnAuditTwoFactor .totp
  h.updateWorld (setSession2fa h.conn.sessionKey)

/-- The device of the peer is trusted from now on, if it asked for that. -/
def trustDevice (h : Host) (hwid : Bytes) : Host :=
  if hwid ≠ [] && h.enableTrustedDevices then
    h.updateWorld (addTrustedDevice
      { hwid := hwid, time := h.world.now, id := h.conn.lr.myId, name := h.conn.lr.myName
        platform := h.conn.lr.myPlatform })
  else h

/-- The `Auth2fa` branch. -/
def onAuth2fa (env : Env) (h : Host) (tfa : Auth2fa) : Handled :=
  let check := checkFailure env h.world 1
  if check.blocked.isSome then (h.noteFailureCheck .default check, true)
  else match h.conn.require2fa with
    | none => (h, true)
    | some totp =>
      match h.world.totpCheck totp tfa.code with
      | none => (h, true)
      | some false =>
        ((h.updateWorld (updateFailure env check false 1)).sendLoginError loginMsg2faWrong, true)
      | some true =>
        match (h.acceptAuth2fa env check).resumeLogon env h.conn.lr.myId h.conn.lr.myName with
        | (h, false) => (h, false)
        | (h, true) => (h.trustDevice tfa.hwid, true)

/-- The request of the peer is used up, whether the answer matches or not. -/
def dropSwitch (h : Host) (peerId : String) : Host :=
  h.updateWorld fun w =>
    { w with switchSidesUuid := (pendingSwitches w).filter fun entry => entry.1 ≠ peerId }

def acceptSwitch (h : Host) : Host :=
  (h.updateConn fun c => { c with fromSwitch := true }).setConnAuditPrimaryAuth .switchSides

/-- The `SwitchSidesResponse` branch, compiled for desktop builds with the flutter interface. The
login request that comes with it is stored whether or not the uuid matches. -/
def onSwitchSidesResponse (env : Env) (h : Host) (s : SwitchSidesResponse) : Handled :=
  match s.lr with
  | none => (h, true)
  | some lr =>
    if env.build.flutterDesktop then
      let matched := switchUuidMatches h.world lr s.uuid
      let h := (h.handleLoginRequestWithoutValidation lr).dropSwitch lr.myId
      if matched then
        match h.acceptSwitch.resumeLogon env lr.myId lr.myName with
        | (h, false) => (h, false)
        | (h, true) => (h.tryStartCmIpc, true)
      else (h, true)
    else (h, true)

end Host

end UnyDesk
