import UnyDesk.Connection.Throttle

/-!
# Accepting a factor

The two factors of a login. The primary factor is a recent session with the temporary password,
the temporary or the permanent password itself, a click of the user or a matching switch-sides
request; the second one is a code, a recent session that had one, or a trusted device. Each
acceptance is written to the audit fields and to the trail.
-/

namespace UnyDesk

open Lib

def sessionTimeoutMs : Int := 30 * 1000

/-- `session_key`, from the stored login request. -/
def Connection.sessionKey (c : Connection) : SessionKey :=
  { peerId := c.lr.myId, name := c.lr.myName, sessionId := c.lr.sessionId }

/-- The sessions that are still recent. -/
def World.recentSessions (w : World) : List (SessionKey × Session) :=
  w.sessions.filter fun entry => w.now - entry.2.lastRecvTime < sessionTimeoutMs

def updateOrInsertSession (key : SessionKey) (password : Option String) (tfa : Option Bool) (w : World) : World :=
  let session := match w.sessions.lookup key with
    | some session =>
      { session with
        randomPassword := password.getD session.randomPassword, tfa := tfa.getD session.tfa }
    | none => { lastRecvTime := w.now, randomPassword := password.getD "", tfa := tfa.getD false }
  { w with sessions := (key, session) :: w.sessions.filter fun entry => entry.1 ≠ key }

def setSession2fa (key : SessionKey) (w : World) : World :=
  updateOrInsertSession key none (some true) w

def addTrustedDevice (device : TrustedDevice) (w : World) : World :=
  let devices := w.trustedDevices.filter fun d => d.hwid ≠ device.hwid
  { w with trustedDevices := (devices ++ [device]).filter fun d => !d.outdate w.now }

/-- Count a failure against the temporary password and replace it after ten in a row. -/
def checkUpdateTemporaryPassword (success : Bool) (w : World) : World :=
  if !temporaryEnabled w.option || w.temporaryPassword = "" then w
  else
    let state := if w.temporaryPasswordFailures.password ≠ w.temporaryPassword
      then { password := w.temporaryPassword, failures := 0 } else w.temporaryPasswordFailures
    if success then { w with temporaryPasswordFailures := { state with failures := 0 } }
    else if state.failures + 1 < 10 then
      { w with temporaryPasswordFailures := { state with failures := state.failures + 1 } }
    else
      { w with
        temporaryPassword := w.nextTemporaryPassword
        temporaryPasswordFailures := { password := w.nextTemporaryPassword, failures := 0 } }

def hasPermanentPassword (env : Env) (w : World) : Bool :=
  if w.password.password ≠ "" then
    localPermanentPasswordStorageIsUsableForAuth env.config.crypto w.password.password w.password.salt
  else
    presetPermanentPasswordStorageIsUsableForAuth env.config.presetStorage env.config.presetSalt

def hasValidPassword (env : Env) (w : World) : Bool :=
  temporaryEnabled w.option && w.temporaryPassword ≠ ""
    || permanentEnabled w.option && hasPermanentPassword env w

/-- The trusted device that stands in for the second factor of a login request. -/
def trustedDeviceFor (h : Host) (lr : LoginRequest) : Bool :=
  lr.hwid ≠ [] && h.enableTrustedDevices && match h.world.trustedDevices.find? (·.hwid = lr.hwid) with
    | some device =>
      !device.outdate h.world.now && device.id = lr.myId && device.name = lr.myName && device.platform = lr.myPlatform
    | none => false

/-- Whether the stored login belongs to a recent session, for either factor. -/
def recentSession (env : Env) (h : Host) (tfa : Bool) : Bool :=
  match h.world.recentSessions.lookup h.conn.sessionKey with
  | some session =>
    h.conn.lr.password ≠ [] && (tfa && session.tfa ||
        !tfa && validatePasswordPlain env.config.crypto h.conn.hash h.conn.lr.password session.randomPassword)
  | none => false

/-- The password that the stored login proves, if any. -/
def provenPassword (env : Env) (h : Host) (allowPermanentPassword : Bool) : Option ConnAuditPrimaryAuth :=
  if temporaryEnabled h.world.option &&
      validatePasswordPlain env.config.crypto h.conn.hash h.conn.lr.password h.world.temporaryPassword
    then some .temporaryPassword
  else if (permanentEnabled h.world.option || allowPermanentPassword) &&
      permanentPasswordAccepts env.config h.world.password h.conn.hash h.conn.lr.password
    then some .permanentPassword
  else none

namespace Host

def setConnAuditPrimaryAuth (h : Host) (method : ConnAuditPrimaryAuth) : Host :=
  (h.updateConn fun c => { c with connAuditPrimaryAuth := method }).mark (.primaryAuth method)

def setConnAuditTwoFactor (h : Host) (method : ConnAuditTwoFactor) : Host :=
  (h.updateConn fun c => { c with connAuditTwoFactor := method }).mark
    (.twoFactor method h.conn.lr.myId h.conn.lr.myName)

/-- `is_recent_session`: old sessions are dropped, and a match is recorded as that factor. -/
def isRecentSession (env : Env) (h : Host) (tfa : Bool) : Host × Bool :=
  let recent := recentSession env h tfa
  let h := h.updateWorld fun w => { w with sessions := w.recentSessions }
  if recent then
    (if tfa then h.setConnAuditTwoFactor .totp else h.setConnAuditPrimaryAuth .temporaryPassword, true)
  else (h, false)

/-- `validate_password`. -/
def validatePassword (env : Env) (h : Host) (allowPermanentPassword : Bool) : Host × Bool :=
  match provenPassword env h allowPermanentPassword with
  | some .temporaryPassword =>
    let password := h.world.temporaryPassword
    let h := h.setConnAuditPrimaryAuth .temporaryPassword
    let h := h.updateWorld (updateOrInsertSession h.conn.sessionKey (some password) (some false))
    (h.updateWorld (checkUpdateTemporaryPassword true), true)
  | some method => (h.setConnAuditPrimaryAuth method, true)
  | none => (h, false)

/-- `handle_login_request_without_validation`: the request is stored before anything about it
was checked, and a trusted device waives the second factor for good. -/
def handleLoginRequestWithoutValidation (h : Host) (lr : LoginRequest) : Host :=
  let h := (h.updateConn fun c => { c with
    lr := lr, optionsInLogin := lr.option.or c.optionsInLogin }).mark (.loginStored lr)
  let h := if h.conn.require2fa.isSome && trustedDeviceFor h lr then
      (h.setConnAuditTwoFactor .trustedDevice).updateConn fun c => { c with require2fa := none }
    else h
  h.updateConn fun c => { c with videoAckRequired := lr.videoAckRequired }

end Host

end UnyDesk
