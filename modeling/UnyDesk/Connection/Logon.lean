import UnyDesk.Connection.Options

/-!
# Granting a session

`send_logon_response_and_keep_alive` is the only place that authorizes a connection. It asks
for the second factor, prepares the terminal user, opens the port-forward socket and then
grants the kind of session that the scope fields say. The terminal user is prepared only when
no token is there yet.
-/

namespace UnyDesk

open Lib

def loginMsgPasswordWrong : String := "Wrong Password"
def loginMsg2faWrong : String := "Wrong 2FA Code"
def loginMsgNoPasswordAccess : String := "No Password Access"
def loginMsgOffline : String := "Offline"
def loginMsgDesktopSessionNotReady : String := "Desktop session not ready"
def loginMsgDesktopSessionNotReadyPasswordEmpty : String := "Desktop session not ready, password empty"
def loginMsgDesktopSessionNotReadyPasswordWrong : String := "Desktop session not ready, password wrong"
def terminalOsLoginFailedMsg : String := "Incorrect username or password."
def noActiveConsoleUserMsg : String :=
  "No active console user logged on, please connect and logon first."

def shouldUseTerminalOsLoginScope (env : Env) (isTerminal : Bool) (osLoginUsername : String) : Bool :=
  env.build.os = .windows && isTerminal && trim osLoginUsername ≠ ""

/-- The address of a port-forward request and whether it means the remote desktop. -/
def normalizePortForwardTarget (pf : PortForward) : String × Bool :=
  let isRdp := pf.host = "RDP" && pf.port = 0
  let host := if isRdp then "localhost" else pf.host
  let port := if isRdp then 3389 else pf.port
  let host := if host = "" then "localhost" else host
  (host ++ ":" ++ toString port, isRdp)

/-- The token of the terminal user, or the error. -/
def fillTerminalUserToken (env : Env) (w : World) (username password : String) : Except String TerminalUserToken :=
  if env.build.os ≠ .windows then .ok .selfUser
  else if username ≠ "" then
    match w.logonUser username password with
    | .administrator => .ok .selfUser
    | .user | .unknownRights | .failed => .error terminalOsLoginFailedMsg
  else if w.isPrelogin then .error noActiveConsoleUserMsg
  else if w.isInstalled then
    match w.sessionToken with
    | .noSession => .error "Failed to get current session id."
    | .noToken => .error "Failed to get user token."
    | .token value => .ok (.currentLogonUser value)
  else .ok .selfUser

/-- The kind of session that the scope fields stand for. -/
def Connection.grantKind (c : Connection) : AuthConnType :=
  if c.fileTransfer.isSome then .fileTransfer
  else if c.portForwardSocket.isSome then .portForward
  else if c.viewCamera then .viewCamera
  else if c.terminal then .terminal
  else .remote

namespace Host

/-- `try_start_cm`: the user is shown the request. -/
def tryStartCm (h : Host) (peerId name : String) (authorized : Bool) : Host :=
  let c := h.conn
  h.sendToCm <| .login
    { isFileTransfer := c.fileTransfer.isSome
      isViewCamera := c.viewCamera
      isTerminal := c.terminal
      portForward := c.portForwardAddress
      peerId := peerId
      name := name
      avatar := c.lr.avatar
      authorized := authorized
      keyboard := c.keyboard
      clipboard := c.clipboard
      audio := c.audio
      file := c.file
      restart := c.restart
      recording := c.recording
      blockInput := c.blockInput
      privacyMode := c.privacyMode
      fromSwitch := c.fromSwitch }

def tryStartCmIpc (h : Host) : Host := h.updateConn fun c => { c with cmIpcPending := false }

/-- The token is stored and the credentials it stands for are recorded. -/
def setTerminalUserToken (h : Host) (username password : String) (token : TerminalUserToken) : Host :=
  (h.updateConn fun c => { c with terminalUserToken := some token }).mark (.tokenFilled username password token)

/-- The last part of the preparation: the user of a persistent service must be the same kind of
user. -/
def checkTerminalServiceUser (h : Host) (token : TerminalUserToken) (isTerminalOsLogin : Bool) : Host × Option Bool :=
  match h.world.isServiceSpecifiedUser h.conn.terminalServiceId with
  | some isUser =>
    if isUser ≠ token.toTerminalServiceToken.isSome then
      (h.sendLoginError "Terminal service user mismatch detected.", some false)
    else (if isTerminalOsLogin then h.tryStartCmIpc else h, none)
  | none => (if isTerminalOsLogin then h.tryStartCmIpc else h, none)

/-- The token is requested and stored, or the attempt is reported as failed. -/
def fillTerminalUser (env : Env) (h : Host) (check : Option FailureCheck) : Host × Option Bool :=
  let username := trim h.conn.lr.osLoginOrDefault.username
  let password := h.conn.lr.osLoginOrDefault.password
  let report (remove : Bool) (h : Host) : Host := match check with
    | some check => h.updateWorld (updateFailureWithScope env check remove 0 .terminalOsLogin)
    | none => h
  match fillTerminalUserToken env h.world username password with
  | .error msg => ((report false h).sendLoginError msg, some false)
  | .ok token =>
    let h := report true (h.setTerminalUserToken username password token)
    h.checkTerminalServiceUser token check.isSome

/-- `prepare_terminal_login_for_authorization`; `none` means that the login may go on. -/
def prepareTerminalLoginForAuthorization (env : Env) (h : Host) : Host × Option Bool :=
  if !env.build.desktop || !h.conn.terminal || h.conn.terminalUserToken.isSome then (h, none)
  else if shouldUseTerminalOsLoginScope env h.conn.terminal (trim h.conn.lr.osLoginOrDefault.username) then
    let check := checkFailureWithScope env h.world 0 .terminalOsLogin
    let h := h.noteFailureCheck .terminalOsLogin check
    if check.blocked.isSome then (h, some false)
    else if !h.world.osCredentialGateFree then
      ((h.sendLoginError "Please try 1 minute later").emit (.alarm .terminalOsLoginConcurrency), some false)
    else h.fillTerminalUser env (some check)
  else h.fillTerminalUser env none

/-- `connect_port_forward_if_needed`. -/
def connectPortForwardIfNeeded (h : Host) : Host × Bool :=
  if h.conn.portForwardSocket.isSome then (h, true)
  else match h.conn.lr.union with
    | some (.portForward pf) =>
      let (addr, isRdp) := normalizePortForwardTarget pf
      let h := h.updateConn fun c => { c with portForwardAddress := addr }
      if h.world.tcpConnect addr then
        (h.updateConn fun c => { c with portForwardSocket := some addr }, true)
      else
        (h.sendLoginError ("Failed to access remote " ++ (if isRdp then "RDP" else addr)
          ++ ". Please make sure it is reachable/open."), false)
    | _ => (h, true)

/-- A click or a switch of sides replaces the second factor in the audit. -/
def normalizeConnAuditAuthFields (h : Host) : Host :=
  if h.conn.connAuditPrimaryAuth = .click || h.conn.connAuditPrimaryAuth = .switchSides then
    h.updateConn fun c => { c with connAuditTwoFactor := .none }
  else h

/-- The connection is authorized for the kind that its scope fields stand for. -/
def authorize (h : Host) : Host :=
  let kind := h.conn.grantKind
  let h := (h.updateConn fun c => { c with authorized := true, authedConnId := some kind }).mark
    (.granted
      { kind := kind
        portForwardSocket := h.conn.portForwardSocket
        lr := h.conn.lr
        terminalUserToken := h.conn.terminalUserToken
        serviceUser := h.world.isServiceSpecifiedUser h.conn.terminalServiceId })
  let h := h.normalizeConnAuditAuthFields
  h.emit (.connAudit kind h.conn.connAuditPrimaryAuth h.conn.connAuditTwoFactor)

/-- `update_scoped_login_options`. -/
def updateScopedLoginOptions (env : Env) (h : Host) : Host :=
  match h.conn.optionsInLogin with
  | none => h
  | some option =>
    let h := h.updateConn fun c => { c with optionsInLogin := none }
    match h.conn.authedConnId with
    | none => h
    | some connType =>
      match (scopedLoginOption connType option).1 with
      | some option => h.updateOptions env option
      | none => h

def initTerminalService (h : Host) : Host :=
  if h.conn.terminalUserToken.isSome then
    h.updateConn fun c => { c with
      terminalServiceId :=
        if c.terminalServiceId = "" then h.world.generatedServiceId else c.terminalServiceId
      terminalServiceStarted := true }
  else h

/-- What the granted session starts with, once the response was sent. -/
def startSession (env : Env) (h : Host) (subService waitSessionIdConfirm : Bool) : Host :=
  match h.conn.fileTransfer with
  | some (dir, showHidden) =>
    let h := h.updateConn fun c => { c with keyboard := false }
    let dir := if dir ≠ "" && h.world.isDir dir then dir else ""
    if !waitSessionIdConfirm then h.emit (.readDir dir showHidden)
    else h.updateConn fun c => { c with delayedReadDir := some (dir, showHidden) }
  | none =>
    if h.conn.terminal then
      let h := h.updateConn fun c => { c with keyboard := false }
      if env.build.desktop then h.initTerminalService else h
    else if h.conn.viewCamera then
      (h.updateConn fun c => { c with keyboard := false }).emit (.permission .keyboard false)
    else if subService && !waitSessionIdConfirm then h.trySubMonitorServices env
    else h

/-- The logon response of an authorized connection. A port forward and a Linux session without
a usable display stop here, the others apply their options and start. -/
def respondLogon (env : Env) (h : Host) : Host :=
  if h.conn.portForwardSocket.isSome then h.emit (.loginResponse none)
  else if env.build.os = .linux && h.conn.isRemote && h.world.linuxDisplayError ≠ "" then
    h.emit (.loginResponse (some h.world.linuxDisplayError))
  else
    let waitSessionIdConfirm :=
      env.build.os = .windows && !h.conn.terminal && h.world.windowsSessionsOffered
        && getVersionNumber h.conn.lr.version ≥ getVersionNumber "1.2.4"
    let isMonitor := h.conn.fileTransfer.isNone && !h.conn.terminal && !h.conn.viewCamera
    let subService := isMonitor && h.world.displaysError.isNone
    let h := h.emit (.loginResponse (if isMonitor then h.world.displaysError else none))
    (h.updateScopedLoginOptions env).startSession env subService waitSessionIdConfirm

/-- `send_logon_response_and_keep_alive`; the flag says whether the connection is kept. -/
def sendLogonResponseAndKeepAlive (env : Env) (h : Host) : Host × Bool :=
  if h.conn.authorized then (h, true)
  else
    let (h, blocked2fa) :=
      if h.conn.require2fa.isSome then
        let (h, recent) := h.isRecentSession env true
        (h, !recent && !h.conn.fromSwitch)
      else (h, false)
    if blocked2fa then (h.sendLoginError require2faMsg, true)
    else match h.prepareTerminalLoginForAuthorization env with
      | (h, some keepAlive) => (h, keepAlive)
      | (h, none) =>
        match h.connectPortForwardIfNeeded with
        | (h, false) => (h, false)
        | (h, true) => (h.authorize.respondLogon env, true)

end Host

end UnyDesk
