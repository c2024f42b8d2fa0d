import UnyDesk.Connection.Feed

/-!
# The login rule

The branches of a login touch what a session is fed in two places only: a request is stored, and
a connection is admitted. A property that depends on the feed and survives these two survives
every login message, whichever of the many exits is taken.
-/

namespace UnyDesk

open Host

/-- A property of the feed that survives the admission of a connection. -/
structure LoginRule (env : Env) (P : Host → Prop) : Prop where
  of_feed : ∀ {h h' : Host}, P h → h'.feed = h.feed → P h'
  entry : ∀ {h : Host}, P h → h.conn.authorized = false → P (h.authorize.respondLogon env)

namespace LoginRule

variable {env : Env} {P : Host → Prop} (rule : LoginRule env P) {h : Host} {lr : LoginRequest}
include rule

/-- What remains of a logon once the second factor is settled. -/
theorem finishLogon (hP : P h) (hauth : h.conn.authorized = false) :
    let r : Host × Bool := match h.prepareTerminalLoginForAuthorization env with
      | (h, some keepAlive) => (h, keepAlive)
      | (h, none) =>
        match h.connectPortForwardIfNeeded with
        | (h, false) => (h, false)
        | (h, true) => (h.authorize.respondLogon env, true)
    P r.1 := by
  have hprepare := feed_prepareTerminalLoginForAuthorization env h
  rcases hprepared : h.prepareTerminalLoginForAuthorization env with ⟨h₁, _ | keep⟩ <;>
    rw [hprepared] at hprepare
  · have hconnect := feed_connectPortForwardIfNeeded h₁
    rcases hconnected : h₁.connectPortForwardIfNeeded with ⟨h₂, _ | _⟩ <;> rw [hconnected] at hconnect
    · simp only [hconnected]
      exact rule.of_feed hP (hconnect.trans hprepare)
    · simp only [hconnected]
      have hauth₂ : h₂.conn.authorized = false :=
        (congrArg (·.1.authorized) (hconnect.trans hprepare)).trans hauth
      exact rule.entry (rule.of_feed hP (hconnect.trans hprepare)) hauth₂
  · exact rule.of_feed hP hprepare

theorem sendLogonResponseAndKeepAlive (hP : P h) : P (h.sendLogonResponseAndKeepAlive env).1 := by
  unfold Host.sendLogonResponseAndKeepAlive
  by_cases hauth : h.conn.authorized = true
  · rw [if_pos hauth]
    exact hP
  · rw [if_neg hauth]
    replace hauth := Bool.eq_false_iff.mpr hauth
    have hrecent := Host.feed_isRecentSession env h true
    by_cases hrequired : h.conn.require2fa.isSome = true
    · rw [if_pos hrequired]
      rcases hresult : h.isRecentSession env true with ⟨h₁, recent⟩
      rw [hresult] at hrecent
      have hauth₁ : h₁.conn.authorized = false := (congrArg (·.1.authorized) hrecent).trans hauth
      dsimp only
      split_ifs
      · exact rule.of_feed hP hrecent
      · exact rule.finishLogon (rule.of_feed hP hrecent) hauth₁
    · rw [if_neg hrequired]
      exact rule.finishLogon hP hauth

theorem resumeLogon (hP : P h) (peerId name : String) : P (h.resumeLogon env peerId name).1 := by
  have hlogon := rule.sendLogonResponseAndKeepAlive hP
  unfold Host.resumeLogon
  rcases hresult : h.sendLogonResponseAndKeepAlive env with ⟨h₁, _ | _⟩ <;> rw [hresult] at hlogon
  · exact hlogon
  · exact rule.of_feed hlogon rfl

theorem completeLogin (hP : P h) (errMsg : String) : P (h.completeLogin env lr errMsg).1 := by
  unfold Host.completeLogin
  split_ifs
  · exact rule.resumeLogon hP _ _
  · exact rule.of_feed hP rfl

theorem checkLoginPassword (hP : P h) (errMsg : String) : P (h.checkLoginPassword env lr errMsg).1 := by
  unfold Host.checkLoginPassword
  dsimp only
  by_cases hblocked : (checkFailure env h.world 0).blocked.isSome = true
  · rw [if_pos hblocked]
    exact rule.of_feed hP (Host.feed_noteFailureCheck h _ _)
  · rw [if_neg hblocked]
    have hvalid := Host.feed_validatePassword env h (allowLogonScreenPassword env h.world)
    rcases hresult : h.validatePassword env (allowLogonScreenPassword env h.world) with ⟨h₁, _ | _⟩ <;>
      rw [hresult] at hvalid
    · dsimp only
      split_ifs <;> exact rule.of_feed hP hvalid
    · have hupdated : P (h₁.updateWorld (updateFailure env (checkFailure env h.world 0) true 0)) :=
        rule.of_feed hP hvalid
      exact rule.completeLogin hupdated errMsg

theorem approveLogin (hP : P h) (errMsg : String) : P (h.approveLogin env lr errMsg).1 := by
  unfold Host.approveLogin
  by_cases hclick : clickOnly env h.world = true
  · rw [if_pos hclick]
    have hask := Host.feed_askUser env h lr
    rcases hresult : h.askUser env lr with ⟨h₁, _ | _⟩ <;> rw [hresult] at hask
    · exact rule.of_feed hP hask
    · dsimp only
      split_ifs <;> exact rule.of_feed hP hask
  · rw [if_neg hclick]
    have hrecent := Host.feed_isRecentSession env h false
    rcases hresult : h.isRecentSession env false with ⟨h₁, _ | _⟩ <;> rw [hresult] at hrecent
    · have hP₁ : P h₁ := rule.of_feed hP hrecent
      dsimp only
      by_cases hpassword : lr.password = []
      · rw [if_pos hpassword]
        split_ifs
        · exact rule.of_feed hP₁ (Host.feed_askUser env h₁ lr)
        · exact rule.of_feed hP₁ rfl
      · rw [if_neg hpassword]
        exact rule.checkLoginPassword hP₁ errMsg
    · exact rule.completeLogin (rule.of_feed hP hrecent) errMsg

theorem startDesktop (hP : P h) : P (h.startDesktop env lr).1 := by
  unfold Host.startDesktop
  dsimp only
  split_ifs
  · exact rule.of_feed hP (Host.feed_noteFailureCheck h _ _)
  · exact rule.of_feed hP rfl
  · exact rule.of_feed hP rfl
  · exact rule.approveLogin hP _

theorem admitLogin (hP : P h) : P (h.admitLogin env lr).1 := by
  unfold Host.admitLogin
  by_cases hoffline : (!env.isDirectIpAccess lr.username && decide (lr.username ≠ h.world.id)) = true
  · rw [if_pos hoffline]
    exact rule.of_feed hP rfl
  · rw [if_neg hoffline]
    split
    · exact rule.of_feed hP rfl
    · have hipc : ∀ p : Bool, (if p then h.tryStartCmIpc else h).feed = h.feed := by
        intro p
        cases p <;> rfl
      dsimp only
      replace hipc := hipc (env.build.desktop && !shouldUseTerminalOsLoginScope env h.conn.terminal
        lr.osLoginOrDefault.username)
      generalize (if (env.build.desktop && !shouldUseTerminalOsLoginScope env h.conn.terminal
        lr.osLoginOrDefault.username) = true then h.tryStartCmIpc else h) = h₁ at hipc ⊢
      split
      · exact rule.of_feed hP ((Host.feed_noteFailureCheck _ _ _).trans hipc)
      · exact rule.startDesktop (rule.of_feed hP hipc)

/-- The `LoginRequest` branch, once the request is stored. -/
theorem onLoginRequest (hstored : P (h.handleLoginRequestWithoutValidation lr)) : P (h.onLoginRequest env lr).1 := by
  unfold Host.onLoginRequest
  split_ifs
  · exact hstored
  · have hreset : P (h.storeLogin lr) := rule.of_feed hstored rfl
    split
    · exact rule.of_feed hreset rfl
    · next h₁ hscope => exact rule.admitLogin (rule.of_feed hreset (Host.feed_selectScope env _ hscope))

theorem onAuth2fa (hP : P h) (tfa : Auth2fa) : P (h.onAuth2fa env tfa).1 := by
  unfold Host.onAuth2fa
  dsimp only
  split
  · exact rule.of_feed hP (Host.feed_noteFailureCheck h _ _)
  · split
    · exact hP
    · split
      · exact hP
      · exact rule.of_feed hP rfl
      · have hresumed := rule.resumeLogon (h := h.acceptAuth2fa env (checkFailure env h.world 1))
          (rule.of_feed hP rfl) h.conn.lr.myId h.conn.lr.myName
        rcases hresult : (h.acceptAuth2fa env (checkFailure env h.world 1)).resumeLogon env h.conn.lr.myId
          h.conn.lr.myName with ⟨h₁, _ | _⟩ <;> rw [hresult] at hresumed
        · exact hresumed
        · exact rule.of_feed hresumed (Host.feed_trustDevice h₁ tfa.hwid)

/-- The `SwitchSidesResponse` branch, once its request is stored. -/
theorem onSwitchSidesResponse (hP : P h) {s : SwitchSidesResponse}
    (hstored : ∀ lr, switchTaken env s = some lr → P (h.handleLoginRequestWithoutValidation lr)) :
    P (h.onSwitchSidesResponse env s).1 := by
  cases htaken : switchTaken env s with
  | none =>
    rw [onSwitchSidesResponse_ignored env h htaken]
    exact hP
  | some lr =>
    have hstored := hstored lr htaken
    rw [onSwitchSidesResponse_eq env h htaken]
    split
    · have hresumed := rule.resumeLogon
        (h := ((h.handleLoginRequestWithoutValidation lr).dropSwitch lr.myId).acceptSwitch)
        (rule.of_feed hstored rfl) lr.myId lr.myName
      rcases hresult : ((h.handleLoginRequestWithoutValidation lr).dropSwitch lr.myId).acceptSwitch.resumeLogon
        env lr.myId lr.myName with ⟨h₁, _ | _⟩ <;> rw [hresult] at hresumed
      · exact hresumed
      · exact rule.of_feed hresumed rfl
    · exact rule.of_feed hstored rfl

/-- The click of the user. -/
theorem onAuthorize (hP : P h) : P (h.onAuthorize env) := by
  have hclicked : P ((h.setConnAuditPrimaryAuth .click).updateConn fun c => { c with require2fa := none }) :=
    rule.of_feed hP rfl
  have hlogon := rule.sendLogonResponseAndKeepAlive hclicked
  unfold Host.onAuthorize
  dsimp only
  rcases hresult : ((h.setConnAuditPrimaryAuth .click).updateConn fun c =>
    { c with require2fa := none }).sendLogonResponseAndKeepAlive env with ⟨h₁, _ | _⟩ <;>
    rw [hresult] at hlogon
  · exact rule.of_feed hlogon rfl
  · dsimp only
    split_ifs
    · exact rule.of_feed hlogon rfl
    · exact hlogon

end LoginRule

/-- A request that is stored only replaces the options that wait for the login. -/
theorem feed_handleLoginRequestWithoutValidation {h : Host} {lr : LoginRequest} :
    (h.handleLoginRequestWithoutValidation lr).feed =
      ({ h.conn.feed with optionsInLogin := lr.option.or h.conn.optionsInLogin }, h.subs) := by
  unfold handleLoginRequestWithoutValidation
  dsimp only
  split_ifs <;> rfl

theorem authorize_feed {h : Host} : h.authorize.feed =
    ({ h.conn.feed with authorized := true, authedConnId := some h.conn.grantKind }, h.subs) := by
  unfold authorize normalizeConnAuditAuthFields
  dsimp only
  split_ifs <;> rfl

end UnyDesk
