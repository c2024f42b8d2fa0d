import UnyDesk.Connection.LogonOutcome

/-!
# What a login message can do

A login request is stored, its kind is selected, and it is approved, refused, shown to the user
or passed over in silence. A second-factor code, a switch-sides response and a click run the
logon on what is stored. As for the logon itself, there is one rule for each way to end, and the
code follows one of them.
-/

namespace UnyDesk

variable {lr : LoginRequest} {l l' : Ledger} {env : Env}

namespace Ledger

/-- The request replaces the stored one. -/
def store (l : Ledger) (lr : LoginRequest) : Ledger :=
  { l with login := { l.login with lr := lr } }.push (.loginStored lr)

def resetScope (l : Ledger) : Ledger :=
  { l with login := { l.login with
      fileTransfer := none, viewCamera := false, terminal := false, portForwardAddress := "" } }.push
    .scopeReset

/-- The kind of session that the request asks for, with its permission on record. -/
def select (l : Ledger) (lr : LoginRequest) : Ledger :=
  match lr.union with
  | some (.fileTransfer dir showHidden) =>
    { l with login := { l.login with fileTransfer := some (dir, showHidden) } }.push
      (.permissionHeld keys.optionEnableFileTransfer)
  | some .viewCamera =>
    { l with login := { l.login with viewCamera := true } }.push (.permissionHeld keys.optionEnableCamera)
  | some (.terminal serviceId) =>
    { l with login := { l.login with terminal := true, terminalServiceId := serviceId } }.push
      (.permissionHeld keys.optionEnableTerminal)
  | some (.portForward pf) =>
    { l with login := { l.login with portForwardAddress := (normalizePortForwardTarget pf).1 } }.push
      (.permissionHeld keys.optionEnableTunnel)
  | none => l

/-- The announced request is the stored one, with its kind of session. -/
structure Shows (l : Ledger) (login : CmLogin) : Prop where
  fileTransfer : login.isFileTransfer = l.login.fileTransfer.isSome
  viewCamera : login.isViewCamera = l.login.viewCamera
  terminal : login.isTerminal = l.login.terminal
  portForward : login.portForward = l.login.portForwardAddress
  peerId : login.peerId = l.login.lr.myId
  name : login.name = l.login.lr.myName

end Ledger

/-- A request is stored, and a trusted device may waive the second factor. -/
inductive Stored (l : Ledger) (lr : LoginRequest) : Ledger → Prop
  | kept : Stored l lr (l.store lr)
  | waived (h : l.login.require2fa.isSome = true) : Stored l lr ((l.store lr).second .trustedDevice).clear2fa

/-- What happens before the user is asked. -/
inductive Asked (env : Env) (l : Ledger) : Ledger → Prop
  | plain : Asked env l l
  | factor (method : ConnAuditPrimaryAuth) (h : l.login.require2fa.isSome = true) :
      Asked env l (l.push (.primaryAuth method))
  | user {l' : Ledger} (h : Prepared env l l' none) : Asked env l l'

/-- The ways in which the approval of a request ends; `silent` says when the user is not told. -/
inductive Approval (env : Env) (silent : Prop) (l : Ledger) : Ledger → Bool → Prop
  | silent (h : silent) : Approval env silent l l true
  | silentFactor (h : silent) (method : ConnAuditPrimaryAuth) :
      Approval env silent l (l.push (.primaryAuth method)) true
  | refused {l' : Ledger} (h : Refused l l') : Approval env silent l l' false
  | asked {l' : Ledger} {login : CmLogin} (h : Asked env l l') (hshows : l'.Shows login) :
      Approval env silent l (l'.announce login) true
  | granted {l' : Ledger} {login : CmLogin} (method : ConnAuditPrimaryAuth)
      (h : Logon env (l.push (.primaryAuth method)) l' true) (hgranted : l'.login.authorized = true)
      (hshows : l'.Shows login) : Approval env silent l (l'.announce login) true

/-- The ways in which a login request on an unauthorized connection ends. -/
inductive LoginRequested (env : Env) (silent : Prop) (l : Ledger) (lr : LoginRequest) :
    Ledger → Bool → Prop
  | refused {l' : Ledger} (h : Refused l l') : LoginRequested env silent l lr l' false
  | approved {l₁ l' : Ledger} {keep : Bool} (hstored : Stored l lr l₁)
      (h : Approval env silent (l₁.resetScope.select lr) l' keep) :
      LoginRequested env silent l lr l' keep

/-- A logon that nothing holds back: it is refused or granted, and a grant is announced. -/
inductive Resumed (env : Env) (l : Ledger) : Ledger → Bool → Prop
  | refused {l' : Ledger} (h : Refused l l') : Resumed env l l' false
  | granted {l' : Ledger} (h : Logon env l l' true) (hgranted : l'.login.authorized = true)
      (login : CmLogin) : Resumed env l (l'.announce login) true

section Rules

variable {env : Env} {l l' : Ledger} {keep : Bool} {silent silent' : Prop}

theorem Approval.mono (hmono : silent → silent') (h : Approval env silent l l' keep) :
    Approval env silent' l l' keep := by
  cases h with
  | silent hs => exact .silent (hmono hs)
  | silentFactor hs method => exact .silentFactor (hmono hs) method
  | refused h => exact .refused h
  | asked h hshows => exact .asked h hshows
  | granted method h hgranted hshows => exact .granted method h hgranted hshows

theorem Stored.authorized_eq (h : Stored l lr l') : l'.login.authorized = l.login.authorized := by
  cases h <;> rfl

theorem Stored.lr_eq (h : Stored l lr l') : l'.login.lr = lr := by
  cases h <;> rfl

theorem Stored.plainlyExtends (h : Stored l lr l') : PlainlyExtends l l' := by
  cases h with
  | kept => exact .cons rfl rfl
  | waived _ => exact ⟨[_, _], rfl, by simp [Mark.isPlain]⟩

end Rules

/-- A logon that keeps the connection waits for the second factor or grants the session. -/
theorem Logon.eq_or_authorized (h : Logon env l l' true) :
    (l' = l ∧ l.login.require2fa.isSome = true ∧ l.login.fromSwitch = false) ∨ l'.login.authorized = true := by
  cases h with
  | waits hrequired hswitch => exact .inl ⟨rfl, hrequired, hswitch⟩
  | granted _ _ _ => exact .inr rfl

/-- A logon that is kept and has nothing to wait for is granted. -/
theorem Logon.authorized_of_free (h : Logon env l l' true)
    (hfree : l.login.require2fa = none ∨ l.login.fromSwitch = true) : l'.login.authorized = true := by
  rcases h.eq_or_authorized with ⟨-, hrequired, hswitch⟩ | hgranted
  · rcases hfree with hnone | hfrom
    · simp [hnone] at hrequired
    · simp [hfrom] at hswitch
  · exact hgranted

theorem Logon.refused_of_false (h : Logon env l l' false) : Refused l l' := by
  cases h with
  | refused hrefused => exact hrefused

theorem Logon.lr_eq (h : Logon env l l' true) : l'.login.lr = l.login.lr := by
  cases h with
  | waits _ _ => rfl
  | @granted l₁ l₂ hsecond huser serviceId =>
    change l₂.tunnel.login.lr = l.login.lr
    rw [Ledger.tunnel_lr, huser.lr_eq, hsecond.login_eq]

/-- The connection with the request in the place of the stored one. -/
def Host.withRequest (h : Host) (lr : LoginRequest) : Host := h.updateConn fun c => { c with lr := lr }

/-- The exits of a login request on which the user is told nothing and the connection is kept: a
throttled request, a desktop that could not be started, and a factor without a ready desktop. -/
def silentLogin (env : Env) (h : Host) (lr : LoginRequest) : Bool :=
  let throttled := (checkFailure env h.world 0).blocked.isSome
  let errMsg := desktopError env h.world lr
  let recent := recentSession env (h.withRequest lr) false
  env.build.os = .linux && shouldCheckLinuxHeadlessOsAuthBeforeDesktopStart env h.world
      lr.osLoginOrDefault.username && throttled
    || errMsg ≠ "" && errMsg ≠ loginMsgDesktopSessionNotReady
    || !clickOnly env h.world && (errMsg ≠ "" || !recent && lr.password ≠ [] && throttled)

section Congruence

variable {env : Env} {h h' : Host} (hworld : h'.world = h.world) (hhash : h'.conn.hash = h.conn.hash)
include hworld hhash

/-- A recent session is looked up with the stored request, the challenge and the world. -/
theorem recentSession_congr (hlr : h'.conn.lr = h.conn.lr) (tfa : Bool) :
    recentSession env h' tfa = recentSession env h tfa := by
  simp only [recentSession, Connection.sessionKey, hworld, hhash, hlr]

theorem silentLogin_congr (lr : LoginRequest) : silentLogin env h' lr = silentLogin env h lr := by
  have hrecent : recentSession env (h'.withRequest lr) false = recentSession env (h.withRequest lr) false := by
    apply recentSession_congr
    · exact hworld
    · exact hhash
    · rfl
  simp only [silentLogin, hworld, hrecent]

end Congruence

namespace Host

variable (env : Env) (h : Host) {h' : Host}

theorem handleLoginRequestWithoutValidation_stored (lr : LoginRequest) :
    Stored h.ledger lr (h.handleLoginRequestWithoutValidation lr).ledger := by
  unfold handleLoginRequestWithoutValidation
  dsimp only
  split_ifs with hwaived
  · exact .waived (Bool.and_eq_true_iff.mp hwaived).1
  · exact .kept

theorem storeLogin_ledger (lr : LoginRequest) :
    (h.storeLogin lr).ledger = (h.handleLoginRequestWithoutValidation lr).ledger.resetScope := rfl

theorem bind_eq_ok {x : Except String Host} {f : Host → Except String Host}
    (heq : (x >>= f) = .ok h') : ∃ h₁, x = .ok h₁ ∧ f h₁ = .ok h' := by
  cases x with
  | error e => cases heq
  | ok h₁ => exact ⟨h₁, rfl, heq⟩

theorem checkPermission_eq_ok {option denial : String}
    (heq : h.checkPermission env option denial = .ok h') : h' = h.mark (.permissionHeld option) := by
  unfold checkPermission at heq
  split at heq
  · cases heq
    rfl
  · cases heq

/-- The scope that was selected is the one of the request, and nothing else is changed. -/
theorem selectScope_spec (hscope : h.selectScope env lr = .ok h') : h'.ledger = h.ledger.select lr ∧ h' = { h with
      trail := h'.trail
      conn := { h.conn with
        fileTransfer := h'.conn.fileTransfer
        viewCamera := h'.conn.viewCamera
        terminal := h'.conn.terminal
        terminalPersistent := h'.conn.terminalPersistent
        terminalServiceId := h'.conn.terminalServiceId
        portForwardAddress := h'.conn.portForwardAddress } } := by
  unfold selectScope at hscope
  unfold Ledger.select
  cases hunion : lr.union with
  | none =>
    simp only [hunion] at hscope ⊢
    split at hscope
    · cases hscope
    · cases hscope
      exact ⟨rfl, rfl⟩
  | some union =>
    cases union <;> simp only [hunion] at hscope ⊢ <;> obtain ⟨h₁, hheld, hrest⟩ := bind_eq_ok hscope <;>
      rw [checkPermission_eq_ok env h hheld] at hrest
    case terminal serviceId =>
      split at hrest
      · cases hrest
      · cases hrest
        exact ⟨rfl, rfl⟩
    all_goals
      cases hrest
      exact ⟨rfl, rfl⟩

theorem tryStartCm_ledger (peerId name : String) (authorized : Bool) :
    ∃ login, (h.tryStartCm peerId name authorized).ledger = h.ledger.announce login ∧
      (peerId = h.conn.lr.myId → name = h.conn.lr.myName → h.ledger.Shows login) :=
  ⟨_, rfl, fun hid hname => ⟨rfl, rfl, rfl, rfl, hid, hname⟩⟩

/-! ## Approval -/

/-- A logon that goes on is refused, or the request is announced. -/
theorem resumeLogon_cases (hlr : h.conn.lr = lr) (hauth : h.conn.authorized = false) :
    ((h.resumeLogon env lr.myId lr.myName).2 = false ∧
        Refused h.ledger (h.resumeLogon env lr.myId lr.myName).1.ledger) ∨
      (h.resumeLogon env lr.myId lr.myName).2 = true ∧ ∃ l login, Logon env h.ledger l true ∧
        (h.resumeLogon env lr.myId lr.myName).1.ledger = l.announce login ∧ l.Shows login := by
  have hlogon := sendLogonResponseAndKeepAlive_logon env h hauth
  unfold resumeLogon
  rcases hsend : h.sendLogonResponseAndKeepAlive env with ⟨h₁, _ | _⟩
  · rw [hsend] at hlogon
    exact .inl ⟨rfl, hlogon.refused_of_false⟩
  · rw [hsend] at hlogon
    have hlr₁ : h₁.conn.lr = lr := hlogon.lr_eq.trans hlr
    obtain ⟨login, hannounce, hshows⟩ := tryStartCm_ledger h₁ lr.myId lr.myName h₁.conn.authorized
    exact .inr ⟨rfl, _, login, hlogon, hannounce, hshows (by rw [hlr₁]) (by rw [hlr₁])⟩

/-- A logon that nothing holds back is refused or granted. -/
theorem resumeLogon_resumed (hlr : h.conn.lr = lr) (hauth : h.conn.authorized = false)
    (hfree : h.conn.require2fa = none ∨ h.conn.fromSwitch = true) :
    Resumed env h.ledger (h.resumeLogon env lr.myId lr.myName).1.ledger (h.resumeLogon env lr.myId lr.myName).2 := by
  rcases resumeLogon_cases env h hlr hauth with ⟨hkeep, hrefused⟩ | ⟨hkeep, l, login, hlogon, hledger, -⟩
  · rw [hkeep]
    exact .refused hrefused
  · rw [hkeep, hledger]
    exact .granted hlogon (hlogon.authorized_of_free hfree) login

/-- An accepted factor leads to a logon, unless the desktop is not ready. -/
theorem completeLogin_approval {l : Ledger} {method : ConnAuditPrimaryAuth}
    (errMsg : String) (hledger : h.ledger = l.push (.primaryAuth method)) (hlr : h.conn.lr = lr)
    (hauth : h.conn.authorized = false) :
    Approval env (errMsg ≠ "") l (h.completeLogin env lr errMsg).1.ledger (h.completeLogin env lr errMsg).2 := by
  unfold completeLogin
  by_cases herr : errMsg = ""
  · rw [if_pos herr]
    rcases resumeLogon_cases env h hlr hauth with ⟨hkeep, hrefused⟩ | ⟨hkeep, l', login, hlogon, hkept, hshows⟩
    · rw [hkeep]
      rw [hledger] at hrefused
      exact .refused (.after (.cons rfl rfl) hrefused)
    · rw [hkeep, hkept]
      rw [hledger] at hlogon
      rcases hlogon.eq_or_authorized with ⟨rfl, hrequired, -⟩ | hgranted
      · exact .asked (.factor method hrequired) hshows
      · exact .granted method hlogon hgranted hshows
  · rw [if_neg herr, ledger_sendLoginError, hledger]
    exact .silentFactor herr method

/-- The user is asked, unless the terminal user could not be prepared. -/
theorem askUser_approval (hlr : h.conn.lr = lr) (hauth : h.conn.authorized = false) :
    Approval env False h.ledger (h.askUser env lr).1.ledger (h.askUser env lr).2 := by
  unfold askUser
  by_cases hos : (env.build.desktop && shouldUseTerminalOsLoginScope env h.conn.terminal
      lr.osLoginOrDefault.username) = true
  · have hprepared := prepareTerminalLoginForAuthorization_prepared env h
    rw [if_pos hos]
    rcases hprepare : h.prepareTerminalLoginForAuthorization env with ⟨h₁, _ | keep⟩
    · rw [hprepare] at hprepared
      have hlr₁ : h₁.conn.lr = lr := hprepared.lr_eq.trans hlr
      obtain ⟨login, hannounce, hshows⟩ := tryStartCm_ledger h₁ lr.myId lr.myName false
      simp only [hannounce]
      exact .asked (.user hprepared) (hshows (by rw [hlr₁]) (by rw [hlr₁]))
    · rw [hprepare] at hprepared
      have hkeep := hprepared.eq_false
      subst hkeep
      exact .refused ⟨hprepared.authorized_eq.trans hauth, hprepared.plainlyExtends⟩
  · rw [if_neg hos]
    obtain ⟨login, hannounce, hshows⟩ := tryStartCm_ledger h lr.myId lr.myName false
    simp only [hannounce]
    exact .asked .plain (hshows (by rw [hlr]) (by rw [hlr]))

theorem validatePassword_ledger (allowPermanentPassword : Bool) :
    ((h.validatePassword env allowPermanentPassword).2 = false ∧
        (h.validatePassword env allowPermanentPassword).1.ledger = h.ledger) ∨
      (h.validatePassword env allowPermanentPassword).2 = true ∧
        ∃ method, (h.validatePassword env allowPermanentPassword).1.ledger = h.ledger.push (.primaryAuth method) := by
  unfold validatePassword
  split
  · refine .inr ⟨rfl, .temporaryPassword, ?_⟩
    simp only [ledger_checkUpdateTemporaryPassword]
    rfl
  · next method _ _ => exact .inr ⟨rfl, method, rfl⟩
  · exact .inl ⟨rfl, rfl⟩

/-- A password is throttled in silence; a wrong one is shown to the user. -/
theorem checkLoginPassword_approval (errMsg : String) (hlr : h.conn.lr = lr) (hauth : h.conn.authorized = false) :
    Approval env (errMsg ≠ "" ∨ (checkFailure env h.world 0).blocked.isSome = true) h.ledger
      (h.checkLoginPassword env lr errMsg).1.ledger (h.checkLoginPassword env lr errMsg).2 := by
  unfold checkLoginPassword
  dsimp only
  by_cases hblocked : (checkFailure env h.world 0).blocked.isSome = true
  · rw [if_pos hblocked]
    simp only [ledger_noteFailureCheck]
    exact .silent (.inr hblocked)
  · rw [if_neg hblocked]
    have hvalid := validatePassword_ledger env h (allowLogonScreenPassword env h.world)
    rcases hcheck : h.validatePassword env (allowLogonScreenPassword env h.world) with ⟨h₂, _ | _⟩
    · simp only [hcheck, Bool.false_eq_true, false_and, true_and, or_false] at hvalid
      have hledger : ((h₂.updateWorld (updateFailure env (checkFailure env h.world 0) false 0)).updateWorld
          (checkUpdateTemporaryPassword false)).ledger = h.ledger := by
        simp [hvalid]
      dsimp only
      generalize (h₂.updateWorld (updateFailure env (checkFailure env h.world 0) false 0)).updateWorld
          (checkUpdateTemporaryPassword false) = h₃ at hledger ⊢
      have hlr₃ : h₃.conn.lr = lr := (congrArg (·.login.lr) hledger).trans hlr
      by_cases herr : errMsg = ""
      · rw [if_pos herr]
        obtain ⟨login, hannounce, hshows⟩ :=
          tryStartCm_ledger (h₃.sendLoginError loginMsgPasswordWrong) lr.myId lr.myName false
        simp only [hannounce, ledger_sendLoginError, hledger] at hshows ⊢
        exact .asked .plain (hshows (congrArg (·.myId) hlr₃.symm) (congrArg (·.myName) hlr₃.symm))
      · rw [if_neg herr, ledger_sendLoginError, hledger]
        exact .silent (.inl herr)
    · simp only [hcheck, Bool.true_eq_false, false_and, true_and, false_or] at hvalid
      obtain ⟨method, hfactor⟩ := hvalid
      have hledger : (h₂.updateWorld (updateFailure env (checkFailure env h.world 0) true 0)).ledger =
          h.ledger.push (.primaryAuth method) := by
        rw [ledger_updateFailure, hfactor]
      dsimp only
      generalize h₂.updateWorld (updateFailure env (checkFailure env h.world 0) true 0) = h₃ at hledger ⊢
      have hlr₃ : h₃.conn.lr = lr := (congrArg (·.login.lr) hledger).trans hlr
      have hauth₃ : h₃.conn.authorized = false := (congrArg (·.login.authorized) hledger).trans hauth
      exact (completeLogin_approval env h₃ errMsg hledger hlr₃ hauth₃).mono .inl

theorem isRecentSession_eq (tfa : Bool) : (h.isRecentSession env tfa).2 = recentSession env h tfa := by
  unfold isRecentSession
  dsimp only
  cases recentSession env h tfa <;> rfl

/-- Looking for a recent session does not touch the throttle. -/
theorem checkFailure_isRecentSession (tfa : Bool) (i : ℕ) :
    checkFailure env (h.isRecentSession env tfa).1.world i = checkFailure env h.world i := by
  unfold isRecentSession
  dsimp only
  cases recentSession env h tfa <;> cases tfa <;> rfl

/-- The request is approved, refused, shown or passed over once the desktop was started. -/
theorem approveLogin_approval (errMsg : String) (hlr : h.conn.lr = lr) (hauth : h.conn.authorized = false) :
    Approval env (clickOnly env h.world = false ∧ (errMsg ≠ "" ∨ recentSession env h false = false ∧
        lr.password ≠ [] ∧ (checkFailure env h.world 0).blocked.isSome = true)) h.ledger
      (h.approveLogin env lr errMsg).1.ledger (h.approveLogin env lr errMsg).2 := by
  unfold approveLogin
  by_cases hclick : clickOnly env h.world = true
  · rw [if_pos hclick]
    have hask := askUser_approval env h hlr hauth
    rcases hasked : h.askUser env lr with ⟨h₁, _ | _⟩
    · rw [hasked] at hask
      exact hask.mono False.elim
    · rw [hasked] at hask
      have hledger : (if getVersionNumber lr.version ≥ getVersionNumber "1.2.0" then
          h₁.sendLoginError loginMsgNoPasswordAccess else h₁).ledger = h₁.ledger := by
        split <;> simp
      simp only [hledger]
      exact hask.mono False.elim
  rw [if_neg hclick]
  have hnotClick := Bool.eq_false_iff.mpr hclick
  have hledger := isRecentSession_ledger env h false
  have hthrottle := checkFailure_isRecentSession env h false 0
  have hflag := isRecentSession_eq env h false
  rcases hrecent : h.isRecentSession env false with ⟨h₁, _ | _⟩
  · simp only [hrecent, Bool.false_eq_true, false_and, true_and, or_false] at hledger
    rw [hrecent] at hthrottle hflag
    have hlr₁ : h₁.conn.lr = lr := (congrArg (·.login.lr) hledger).trans hlr
    have hauth₁ : h₁.conn.authorized = false := (congrArg (·.login.authorized) hledger).trans hauth
    rw [← hledger]
    dsimp only
    by_cases hpassword : lr.password = []
    · rw [if_pos hpassword]
      by_cases herr : errMsg = ""
      · rw [if_pos herr]
        exact (askUser_approval env h₁ hlr₁ hauth₁).mono False.elim
      · rw [if_neg herr]
        exact .silent ⟨hnotClick, .inl herr⟩
    · rw [if_neg hpassword]
      refine (checkLoginPassword_approval env h₁ errMsg hlr₁ hauth₁).mono fun hsilent => ⟨hnotClick, ?_⟩
      rcases hsilent with herr | hblocked
      · exact .inl herr
      · exact .inr ⟨hflag.symm, hpassword, hthrottle ▸ hblocked⟩
  · simp only [hrecent, Bool.true_eq_false, Bool.false_eq_true, false_and, true_and, false_or, if_false] at hledger
    have hlr₁ : h₁.conn.lr = lr := (congrArg (·.login.lr) hledger).trans hlr
    have hauth₁ : h₁.conn.authorized = false := (congrArg (·.login.authorized) hledger).trans hauth
    exact (completeLogin_approval env h₁ errMsg hledger hlr₁ hauth₁).mono fun herr =>
      ⟨hnotClick, .inl herr⟩

theorem startDesktop_approval (hlr : h.conn.lr = lr) (hauth : h.conn.authorized = false) :
    Approval env (silentLogin env h lr = true) h.ledger (h.startDesktop env lr).1.ledger (h.startDesktop env lr).2 := by
  have hrecent : recentSession env (h.withRequest lr) false = recentSession env h false := by
    apply recentSession_congr
    · rfl
    · rfl
    · exact hlr.symm
  unfold startDesktop
  dsimp only
  by_cases hfailed : (desktopError env h.world lr ≠ "" &&
      desktopError env h.world lr ≠ loginMsgDesktopSessionNotReady) = true
  · have hsilent : silentLogin env h lr = true := by
      simp only [silentLogin, hfailed, Bool.or_true, Bool.true_or]
    rw [if_pos hfailed]
    split_ifs
    · simp only [ledger_noteFailureCheck]
      exact .silent hsilent
    · simp only [ledger_sendLoginError, ledger_updateFailure]
      exact .silent hsilent
    · exact .silent hsilent
  · rw [if_neg hfailed]
    refine (approveLogin_approval env h _ hlr hauth).mono fun hcase => ?_
    obtain ⟨hclick, herr | ⟨hnone, hpassword, hblocked⟩⟩ := hcase
    · simp [silentLogin, hclick, herr]
    · simp [silentLogin, hclick, hrecent, hnone, hpassword, hblocked]

theorem admitLogin_approval (hlr : h.conn.lr = lr) (hauth : h.conn.authorized = false) :
    Approval env (silentLogin env h lr = true) h.ledger (h.admitLogin env lr).1.ledger (h.admitLogin env lr).2 := by
  unfold admitLogin
  dsimp only
  by_cases hid : (!env.isDirectIpAccess lr.username && lr.username ≠ h.world.id) = true
  · rw [if_pos hid]
    exact .refused (.of_eq hauth rfl)
  rw [if_neg hid]
  by_cases hconsole : (env.build.os = .windows && h.conn.terminal && trim lr.osLoginOrDefault.username = ""
      && h.world.isPrelogin) = true
  · rw [if_pos hconsole]
    exact .refused (.of_eq hauth rfl)
  rw [if_neg hconsole]
  have hipc : ∀ p : Bool, (if p then h.tryStartCmIpc else h).ledger = h.ledger ∧
      (if p then h.tryStartCmIpc else h).world = h.world ∧
      (if p then h.tryStartCmIpc else h).conn.hash = h.conn.hash := by
    intro p
    cases p <;> exact ⟨rfl, rfl, rfl⟩
  specialize hipc (env.build.desktop && !shouldUseTerminalOsLoginScope env h.conn.terminal lr.osLoginOrDefault.username)
  generalize (if (env.build.desktop && !shouldUseTerminalOsLoginScope env h.conn.terminal
    lr.osLoginOrDefault.username) = true then h.tryStartCmIpc else h) = h₁ at hipc ⊢
  obtain ⟨hledger, hworld, hhash⟩ := hipc
  have hlr₁ : h₁.conn.lr = lr := (congrArg (·.login.lr) hledger).trans hlr
  have hauth₁ : h₁.conn.authorized = false := (congrArg (·.login.authorized) hledger).trans hauth
  rw [← hledger, ← silentLogin_congr hworld hhash]
  by_cases hblocked : (env.build.os = .linux && shouldCheckLinuxHeadlessOsAuthBeforeDesktopStart env
      h₁.world lr.osLoginOrDefault.username && (checkFailure env h₁.world 0).blocked.isSome) = true
  · rw [if_pos hblocked]
    simp only [ledger_noteFailureCheck]
    exact .silent (by simp only [silentLogin, hblocked, Bool.true_or])
  · rw [if_neg hblocked]
    exact startDesktop_approval env h₁ hlr₁ hauth₁

section

variable (lr : LoginRequest)

theorem handleLoginRequestWithoutValidation_world :
    (h.handleLoginRequestWithoutValidation lr).world = h.world := by
  unfold handleLoginRequestWithoutValidation
  dsimp only
  split_ifs <;> rfl

theorem handleLoginRequestWithoutValidation_hash :
    (h.handleLoginRequestWithoutValidation lr).conn.hash = h.conn.hash := by
  unfold handleLoginRequestWithoutValidation
  dsimp only
  split_ifs <;> rfl

/-! ## The messages -/

/-- A login request on an unauthorized connection follows the rules. -/
theorem onLoginRequest_requested (hauth : h.conn.authorized = false) :
    LoginRequested env (silentLogin env h lr = true) h.ledger lr (h.onLoginRequest env lr).1.ledger
      (h.onLoginRequest env lr).2 := by
  have hstored := handleLoginRequestWithoutValidation_stored h lr
  have hauthStored : (h.storeLogin lr).conn.authorized = false := hstored.authorized_eq.trans hauth
  unfold onLoginRequest
  rw [if_neg (by simp [hauth])]
  split
  · next denial _ =>
    have hreset : PlainlyExtends (h.handleLoginRequestWithoutValidation lr).ledger (h.storeLogin lr).ledger :=
      .cons rfl rfl
    exact .refused ⟨hauthStored, hstored.plainlyExtends.trans hreset⟩
  · next h₁ hscope =>
    obtain ⟨hledger, hframe⟩ := selectScope_spec env _ hscope
    have hworld := congrArg Host.world hframe
    have hhash := congrArg (·.conn.hash) hframe
    rw [storeLogin_ledger] at hledger
    have hlogin : ∀ l : Ledger, (l.select lr).login.lr = l.login.lr ∧
        (l.select lr).login.authorized = l.login.authorized := by
      intro l
      unfold Ledger.select
      split <;> exact ⟨rfl, rfl⟩
    obtain ⟨hlr, hauth₁⟩ := hlogin (h.handleLoginRequestWithoutValidation lr).ledger.resetScope
    rw [← hledger] at hlr hauth₁
    have happroval := admitLogin_approval env h₁ (hlr.trans hstored.lr_eq) (hauth₁.trans hauthStored)
    rw [silentLogin_congr (h := h) (hworld.trans (handleLoginRequestWithoutValidation_world h lr))
      (hhash.trans (handleLoginRequestWithoutValidation_hash h lr)), hledger] at happroval
    exact .approved hstored happroval

end

end Host

/-- The code is right and the address is not throttled. -/
def auth2faAccepted (env : Env) (h : Host) (tfa : Auth2fa) : Bool :=
  (checkFailure env h.world 1).blocked.isNone && match h.conn.require2fa with
    | some totp => h.world.totpCheck totp tfa.code = some true
    | none => false

/-- The login request of a switch-sides response, in the builds that take it up. -/
def switchTaken (env : Env) (s : SwitchSidesResponse) : Option LoginRequest :=
  if env.build.flutterDesktop then s.lr else none

/-- A matching switch of sides counts as the primary factor. -/
def Ledger.switched (l : Ledger) : Ledger :=
  { l with login := { l.login with fromSwitch := true } }.push (.primaryAuth .switchSides)

namespace Host

variable (env : Env) (h : Host)

theorem onAuth2fa_ignored {tfa : Auth2fa} (hnot : auth2faAccepted env h tfa = false) :
    (h.onAuth2fa env tfa).1.ledger = h.ledger ∧ (h.onAuth2fa env tfa).2 = true := by
  unfold onAuth2fa
  dsimp only
  split
  · exact ⟨ledger_noteFailureCheck h _ _, rfl⟩
  · next hfree =>
    have hblocked : (checkFailure env h.world 1).blocked = none := by simpa using hfree
    split
    · exact ⟨rfl, rfl⟩
    · next totp hrequired =>
      have hwrong : h.world.totpCheck totp tfa.code ≠ some true := by
        simpa [auth2faAccepted, hblocked, hrequired] using hnot
      split
      · exact ⟨rfl, rfl⟩
      · simp
      · next hright => exact absurd hright hwrong

theorem acceptAuth2fa_ledger (check : FailureCheck) :
    (h.acceptAuth2fa env check).ledger = h.ledger.clear2fa.second .totp := by
  have hfailure := ledger_updateFailure env h check true 1
  unfold acceptAuth2fa
  generalize h.updateWorld (updateFailure env check true 1) = h₁ at hfailure
  rw [← hfailure]
  rfl

theorem trustDevice_ledger (hwid : Bytes) : (h.trustDevice hwid).ledger = h.ledger := by
  unfold trustDevice
  split_ifs <;> rfl

section Auth2fa

variable {tfa : Auth2fa} (haccepted : auth2faAccepted env h tfa = true)
include haccepted

/-- An accepted code is recorded, and the logon of whatever request is stored goes on. -/
theorem onAuth2fa_eq : h.onAuth2fa env tfa =
      match (h.acceptAuth2fa env (checkFailure env h.world 1)).resumeLogon env h.conn.lr.myId h.conn.lr.myName with
      | (h, false) => (h, false)
      | (h, true) => (h.trustDevice tfa.hwid, true) := by
  obtain ⟨hfree, hcode⟩ := Bool.and_eq_true_iff.mp haccepted
  have hblocked : (checkFailure env h.world 1).blocked = none := by simpa using hfree
  unfold onAuth2fa
  cases hrequired : h.conn.require2fa with
  | none => simp [hrequired] at hcode
  | some totp =>
    have hright : h.world.totpCheck totp tfa.code = some true := by simpa [hrequired] using hcode
    simp only [hblocked, hright]
    rfl

/-- An accepted code on an unauthorized connection is refused or granted a session. -/
theorem onAuth2fa_resumed (hauth : h.conn.authorized = false) :
    Resumed env (h.ledger.clear2fa.second .totp) (h.onAuth2fa env tfa).1.ledger (h.onAuth2fa env tfa).2 := by
  have hledger := acceptAuth2fa_ledger env h (checkFailure env h.world 1)
  rw [onAuth2fa_eq env h haccepted]
  generalize h.acceptAuth2fa env (checkFailure env h.world 1) = h₁ at hledger ⊢
  have hresumed := resumeLogon_resumed env h₁ (congrArg (·.login.lr) hledger)
    ((congrArg (·.login.authorized) hledger).trans hauth) (.inl (congrArg (·.login.require2fa) hledger))
  rw [← hledger]
  revert hresumed
  change Resumed env h₁.ledger (h₁.resumeLogon env h.conn.lr.myId h.conn.lr.myName).1.ledger
    (h₁.resumeLogon env h.conn.lr.myId h.conn.lr.myName).2 → _
  rcases h₁.resumeLogon env h.conn.lr.myId h.conn.lr.myName with ⟨h₂, _ | _⟩
  · exact id
  · intro hresumed
    simpa only [trustDevice_ledger] using hresumed

/-- On an authorized connection an accepted code only changes the second factor. -/
theorem onAuth2fa_authorized (hauth : h.conn.authorized = true) : (h.onAuth2fa env tfa).2 = true ∧
      ∃ login, (h.onAuth2fa env tfa).1.ledger = (h.ledger.clear2fa.second .totp).announce login := by
  have hledger := acceptAuth2fa_ledger env h (checkFailure env h.world 1)
  rw [onAuth2fa_eq env h haccepted]
  generalize h.acceptAuth2fa env (checkFailure env h.world 1) = h₁ at hledger ⊢
  have hauth₁ : h₁.conn.authorized = true := (congrArg (·.login.authorized) hledger).trans hauth
  obtain ⟨login, hannounce, -⟩ := tryStartCm_ledger h₁ h.conn.lr.myId h.conn.lr.myName h₁.conn.authorized
  simp only [resumeLogon, sendLogonResponseAndKeepAlive_of_authorized env h₁ hauth₁, trustDevice_ledger, true_and]
  exact ⟨login, by rw [hannounce, hledger]⟩

end Auth2fa

/-- A response that is not taken up does nothing. -/
theorem onSwitchSidesResponse_ignored {s : SwitchSidesResponse} (hnot : switchTaken env s = none) :
    h.onSwitchSidesResponse env s = (h, true) := by
  unfold onSwitchSidesResponse
  split
  · rfl
  · next lr hlr =>
    have hbuild : ¬env.build.flutterDesktop = true := by
      intro hbuild
      simp [switchTaken, hbuild, hlr] at hnot
    rw [if_neg hbuild]

section SwitchSides

variable {s : SwitchSidesResponse} {lr : LoginRequest} (htaken : switchTaken env s = some lr)
include htaken

theorem onSwitchSidesResponse_eq : h.onSwitchSidesResponse env s = if switchUuidMatches h.world lr s.uuid then
        match ((h.handleLoginRequestWithoutValidation lr).dropSwitch lr.myId).acceptSwitch.resumeLogon env
          lr.myId lr.myName with
        | (h, false) => (h, false)
        | (h, true) => (h.tryStartCmIpc, true)
      else ((h.handleLoginRequestWithoutValidation lr).dropSwitch lr.myId, true) := by
  unfold switchTaken at htaken
  split at htaken
  · next hbuild =>
    unfold onSwitchSidesResponse
    rw [htaken]
    exact if_pos hbuild
  · cases htaken

/-- A response with the wrong uuid still replaces the stored request. -/
theorem onSwitchSidesResponse_unmatched (hmatch : switchUuidMatches h.world lr s.uuid = false) :
    Stored h.ledger lr (h.onSwitchSidesResponse env s).1.ledger ∧ (h.onSwitchSidesResponse env s).2 = true := by
  rw [onSwitchSidesResponse_eq env h htaken, if_neg (by simp [hmatch])]
  exact ⟨handleLoginRequestWithoutValidation_stored h lr, rfl⟩

/-- A matching response on an unauthorized connection is refused or granted a session. -/
theorem onSwitchSidesResponse_matched (hmatch : switchUuidMatches h.world lr s.uuid = true)
    (hauth : h.conn.authorized = false) :
    ∃ l, Stored h.ledger lr l ∧ Resumed env l.switched (h.onSwitchSidesResponse env s).1.ledger
      (h.onSwitchSidesResponse env s).2 := by
  have hstored := handleLoginRequestWithoutValidation_stored h lr
  refine ⟨_, hstored, ?_⟩
  rw [onSwitchSidesResponse_eq env h htaken, if_pos hmatch]
  have hledger : ((h.handleLoginRequestWithoutValidation lr).dropSwitch lr.myId).acceptSwitch.ledger =
    (h.handleLoginRequestWithoutValidation lr).ledger.switched := rfl
  generalize ((h.handleLoginRequestWithoutValidation lr).dropSwitch lr.myId).acceptSwitch = h₁ at hledger ⊢
  have hlr₁ : h₁.conn.lr = lr := (congrArg (·.login.lr) hledger).trans hstored.lr_eq
  have hauth₁ : h₁.conn.authorized = false :=
    (congrArg (·.login.authorized) hledger).trans (hstored.authorized_eq.trans hauth)
  have hresumed := resumeLogon_resumed env h₁ hlr₁ hauth₁ (.inr (congrArg (·.login.fromSwitch) hledger))
  rw [← hledger]
  revert hresumed
  rcases h₁.resumeLogon env lr.myId lr.myName with ⟨h₂, _ | _⟩
  · exact id
  · exact id

/-- On an authorized connection a matching response replaces the stored request all the same. -/
theorem onSwitchSidesResponse_authorized (hmatch : switchUuidMatches h.world lr s.uuid = true)
    (hauth : h.conn.authorized = true) :
    (h.onSwitchSidesResponse env s).2 = true ∧ ∃ l login, Stored h.ledger lr l ∧
      (h.onSwitchSidesResponse env s).1.ledger = l.switched.announce login := by
  have hstored := handleLoginRequestWithoutValidation_stored h lr
  rw [onSwitchSidesResponse_eq env h htaken, if_pos hmatch]
  have hledger : ((h.handleLoginRequestWithoutValidation lr).dropSwitch lr.myId).acceptSwitch.ledger =
    (h.handleLoginRequestWithoutValidation lr).ledger.switched := rfl
  generalize ((h.handleLoginRequestWithoutValidation lr).dropSwitch lr.myId).acceptSwitch = h₁ at hledger ⊢
  have hauth₁ : h₁.conn.authorized = true :=
    (congrArg (·.login.authorized) hledger).trans (hstored.authorized_eq.trans hauth)
  obtain ⟨login, hannounce, -⟩ := tryStartCm_ledger h₁ lr.myId lr.myName h₁.conn.authorized
  simp only [resumeLogon, sendLogonResponseAndKeepAlive_of_authorized env h₁ hauth₁, ledger_tryStartCmIpc, true_and]
  exact ⟨_, login, hstored, by rw [hannounce, hledger]⟩

end SwitchSides

end Host

end UnyDesk
