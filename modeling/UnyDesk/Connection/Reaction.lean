import UnyDesk.Connection.LoginOutcome

/-!
# What one event can do

Everything that a running connection can do to its ledger in one round of its loop. An event
either keeps the ledger, or it is one of the few that carry a login, a factor, a click or a
terminal action, and then a rule says what it did.
-/

namespace UnyDesk

/-- The ledger is as it was, but the loop may have ended and the port may have been released. -/
structure Kept (l l' : Ledger) : Prop where
  login : l'.login = l.login
  socket : l'.socket = l.socket ∨ l'.socket = none
  trail : l'.trail = l.trail
  lastLogin : l'.lastLogin = l.lastLogin
  service : l'.service = l.service

open Kept

/-- The loop goes on with what a handler left, or it ends. -/
inductive Continues (l : Ledger) (keep : Bool) : Ledger → Prop
  | stops : Continues l keep { l with alive := false }
  | goesOn (h : keep = true) : Continues l keep l

/-- The click of the user on the request. -/
def Ledger.clicked (l : Ledger) : Ledger := (l.push (.primaryAuth .click)).clear2fa

/-- The rules for one event on a running connection. -/
inductive Reaction (env : Env) (h : Host) : Event → Ledger → Prop
  | kept {e : Event} {l' : Ledger} (hkept : Kept h.ledger l') : Reaction env h e l'
  | worldChange (w : World) :
      Reaction env h (.worldChange w) { h.ledger with service := w.isServiceSpecifiedUser }
  | loginRequest {lr : LoginRequest} {l l' : Ledger} {keep : Bool} (hauth : h.conn.authorized = false)
      (hlogin : LoginRequested env (silentLogin env h lr = true) h.ledger lr l keep)
      (hloop : Continues l keep l') : Reaction env h (.message (.loginRequest lr)) l'
  | auth2fa {tfa : Auth2fa} {l l' : Ledger} {keep : Bool} (hauth : h.conn.authorized = false)
      (haccepted : auth2faAccepted env h tfa = true)
      (hresumed : Resumed env (h.ledger.clear2fa.second .totp) l keep) (hloop : Continues l keep l') :
      Reaction env h (.message (.auth2fa tfa)) l'
  | auth2faAgain {tfa : Auth2fa} {l' : Ledger} (login : CmLogin) (hauth : h.conn.authorized = true)
      (haccepted : auth2faAccepted env h tfa = true)
      (hscope : authorizedScopeViolation env.build h.conn.authedConnId (.auth2fa tfa) = none)
      (hloop : Continues ((h.ledger.clear2fa.second .totp).announce login) true l') :
      Reaction env h (.message (.auth2fa tfa)) l'
  | switchUnmatched {s : SwitchSidesResponse} {lr : LoginRequest} {l l' : Ledger}
      (htaken : switchTaken env s = some lr) (hmatch : switchUuidMatches h.world lr s.uuid = false)
      (hscope : h.conn.authorized = true →
        authorizedScopeViolation env.build h.conn.authedConnId (.switchSidesResponse s) = none)
      (hstored : Stored h.ledger lr l) (hloop : Continues l true l') :
      Reaction env h (.message (.switchSidesResponse s)) l'
  | switchMatched {s : SwitchSidesResponse} {lr : LoginRequest} {l₁ l l' : Ledger} {keep : Bool}
      (hauth : h.conn.authorized = false) (htaken : switchTaken env s = some lr)
      (hmatch : switchUuidMatches h.world lr s.uuid = true) (hstored : Stored h.ledger lr l₁)
      (hresumed : Resumed env l₁.switched l keep) (hloop : Continues l keep l') :
      Reaction env h (.message (.switchSidesResponse s)) l'
  | switchAgain {s : SwitchSidesResponse} {lr : LoginRequest} {l l' : Ledger} (login : CmLogin)
      (hauth : h.conn.authorized = true) (htaken : switchTaken env s = some lr)
      (hmatch : switchUuidMatches h.world lr s.uuid = true)
      (hscope : authorizedScopeViolation env.build h.conn.authedConnId (.switchSidesResponse s) = none)
      (hstored : Stored h.ledger lr l) (hloop : Continues (l.switched.announce login) true l') :
      Reaction env h (.message (.switchSidesResponse s)) l'
  | authorize {l l' : Ledger} {keep : Bool} (hauth : h.conn.authorized = false)
      (hlogon : Logon env h.ledger.clicked l keep) (hloop : Continues l keep l') :
      Reaction env h .authorize l'
  | authorizeAgain {l' : Ledger} (hauth : h.conn.authorized = true)
      (hloop : Continues h.ledger.clicked true l') : Reaction env h .authorize l'
  | terminalAction {body : Bytes} {l' : Ledger} (hauth : h.conn.authorized = true)
      (htoken : h.conn.terminalUserToken.isSome = true)
      (hscope : authorizedScopeViolation env.build h.conn.authedConnId (.terminalAction body) = none)
      (hloop : Continues (h.ledger.push (.terminalAction true h.conn.authedConnId)) true l') :
      Reaction env h (.message (.terminalAction body)) l'

theorem Kept.of_ledgerKept {h h' : Host} (hkept : Host.LedgerKept h h') : Kept h.ledger h'.ledger := by
  rcases hkept with heq | heq <;> rw [heq]
  · exact ⟨rfl, .inl rfl, rfl, rfl, rfl⟩
  · exact ⟨rfl, .inr rfl, rfl, rfl, rfl⟩

theorem Kept.stop {l l' : Ledger} (hkept : Kept l l') : Kept l { l' with alive := false } :=
  ⟨hkept.login, hkept.socket, hkept.trail, hkept.lastLogin, hkept.service⟩

theorem Kept.continues {l l₁ l' : Ledger} {keep : Bool} (hkept : Kept l l₁) (hloop : Continues l₁ keep l') :
    Kept l l' := by
  cases hloop with
  | stops => exact hkept.stop
  | goesOn _ => exact hkept

namespace Host

variable (env : Env) (h : Host)

/-- The loop goes on after a message, or it ends. -/
theorem receive_continues (m : Message) :
    Continues (h.onMessage env m).1.ledger (h.onMessage env m).2 (h.receive env m).ledger := by
  unfold receive
  rcases h.onMessage env m with ⟨h₁, _ | _⟩
  · exact .stops
  · dsimp only
    split_ifs
    · exact .stops
    · exact .goesOn rfl

theorem serve_kept_or_terminalAction (m : Message) :
    Kept h.ledger (h.serve env m).1.ledger ∨
      (∃ body, m = .terminalAction body) ∧ h.conn.terminalUserToken.isSome = true ∧
        (h.serve env m).1.ledger = h.ledger.push (.terminalAction h.conn.authorized h.conn.authedConnId) :=
  (ledger_serve_cases env h m).imp_left of_ledgerKept

section Scoped

variable (m : Message) {l' : Ledger}
  (hscope : h.conn.authorized = true → authorizedScopeViolation env.build h.conn.authedConnId m = none)
include hscope

/-- The messages without a branch of their own go to the session, when there is one. -/
theorem serveIf_reaction (hloop : Continues
      (if h.conn.authorized && h.conn.portForwardSocket.isNone then h.serve env m else (h, true)).1.ledger
      (if h.conn.authorized && h.conn.portForwardSocket.isNone then h.serve env m else (h, true)).2 l') :
    Reaction env h (.message m) l' := by
  by_cases hserve : (h.conn.authorized && h.conn.portForwardSocket.isNone) = true
  · rw [if_pos hserve] at hloop
    have hauth : h.conn.authorized = true := (Bool.and_eq_true_iff.mp hserve).1
    rcases serve_kept_or_terminalAction env h m with hkept | ⟨⟨body, rfl⟩, htoken, hledger⟩
    · exact .kept (hkept.continues hloop)
    · rw [hledger, hauth] at hloop
      refine .terminalAction hauth htoken (hscope hauth) ?_
      cases hloop with
      | stops => exact .stops
      | goesOn _ => exact .goesOn rfl
  · rw [if_neg hserve] at hloop
    exact .kept (continues (.of_ledgerKept (.of_eq rfl)) hloop)

/-- A message that gets through to its handler follows the rules. -/
theorem dispatch_reaction (hlogin : ∀ lr, m = .loginRequest lr → h.conn.authorized = false)
    (hloop : Continues (h.dispatch env m).1.ledger (h.dispatch env m).2 l') :
    Reaction env h (.message m) l' := by
  cases m with
  | loginRequest lr =>
    have hauth := hlogin lr rfl
    exact .loginRequest hauth (onLoginRequest_requested env h lr hauth) hloop
  | auth2fa tfa =>
    change Continues (h.onAuth2fa env tfa).1.ledger (h.onAuth2fa env tfa).2 l' at hloop
    cases haccepted : auth2faAccepted env h tfa with
    | false =>
      obtain ⟨hledger, -⟩ := onAuth2fa_ignored env h haccepted
      exact .kept (continues (.of_ledgerKept (.of_eq hledger)) hloop)
    | true =>
      cases hauth : h.conn.authorized with
      | false => exact .auth2fa hauth haccepted (onAuth2fa_resumed env h haccepted hauth) hloop
      | true =>
        obtain ⟨hkeep, login, hledger⟩ := onAuth2fa_authorized env h haccepted hauth
        rw [hkeep, hledger] at hloop
        exact .auth2faAgain login hauth haccepted (hscope hauth) hloop
  | testDelay fromClient =>
    exact .kept (continues (.of_ledgerKept (.of_eq (ledger_onTestDelay h fromClient))) hloop)
  | switchSidesResponse s =>
    change Continues (h.onSwitchSidesResponse env s).1.ledger (h.onSwitchSidesResponse env s).2 l' at hloop
    cases htaken : switchTaken env s with
    | none =>
      rw [onSwitchSidesResponse_ignored env h htaken] at hloop
      exact .kept (continues (.of_ledgerKept (.of_eq rfl)) hloop)
    | some lr =>
      cases hmatch : switchUuidMatches h.world lr s.uuid with
      | false =>
        obtain ⟨hstored, hkeep⟩ := onSwitchSidesResponse_unmatched env h htaken hmatch
        rw [hkeep] at hloop
        exact .switchUnmatched htaken hmatch hscope hstored hloop
      | true =>
        cases hauth : h.conn.authorized with
        | false =>
          obtain ⟨l₁, hstored, hresumed⟩ := onSwitchSidesResponse_matched env h htaken hmatch hauth
          exact .switchMatched hauth htaken hmatch hstored hresumed hloop
        | true =>
          obtain ⟨hkeep, l, login, hstored, hledger⟩ :=
            onSwitchSidesResponse_authorized env h htaken hmatch hauth
          rw [hkeep, hledger] at hloop
          exact .switchAgain login hauth htaken hmatch (hscope hauth) hstored hloop
  | _ => exact serveIf_reaction env h _ hscope hloop

end Scoped

/-- Every message of the peer follows the rules. -/
theorem receive_reaction (m : Message) : Reaction env h (.message m) (h.receive env m).ledger := by
  have hloop := receive_continues env h m
  have hclosed : ∀ h' : Host, Kept h.ledger ((h'.onClose env).checkRemoveSession).ledger ↔
      Kept h.ledger (h'.onClose env).ledger := by simp
  unfold onMessage at hloop
  split at hloop
  · refine .kept (continues ?_ hloop)
    exact (hclosed h).mpr (.of_ledgerKept (LedgerKept.onClose env rfl))
  · cases hauth : h.conn.authorized with
    | false =>
      rw [if_neg (by simp [hauth])] at hloop
      exact dispatch_reaction env h m (by simp [hauth]) (fun _ _ => hauth) hloop
    | true =>
      rw [if_pos hauth] at hloop
      unfold guardAuthorized at hloop
      split at hloop
      · exact .kept (continues (.of_ledgerKept (.of_eq rfl)) hloop)
      · next hother =>
        split at hloop
        · next message _ =>
          refine .kept (continues (.of_ledgerKept ?_) hloop)
          exact ledgerKept_handleAuthorizedScopeViolation env h message
        · next hscope =>
          exact dispatch_reaction env h m (fun _ => hscope) (fun lr heq => absurd heq (hother lr)) hloop

theorem onAuthorize_reaction : Reaction env h .authorize (h.onAuthorize env).ledger := by
  unfold onAuthorize
  dsimp only
  have hledger : ((h.setConnAuditPrimaryAuth .click).updateConn fun c =>
    { c with require2fa := none }).ledger = h.ledger.clicked := rfl
  generalize ((h.setConnAuditPrimaryAuth .click).updateConn fun c => { c with require2fa := none }) = h₁ at hledger ⊢
  have hauth₁ : h₁.conn.authorized = h.conn.authorized := congrArg (·.login.authorized) hledger
  cases hauth : h.conn.authorized with
  | true =>
    rw [sendLogonResponseAndKeepAlive_of_authorized env h₁ (hauth₁.trans hauth)]
    refine .authorizeAgain hauth ?_
    rw [← hledger]
    dsimp only
    split_ifs
    · exact .stops
    · exact .goesOn rfl
  | false =>
    have hlogon := sendLogonResponseAndKeepAlive_logon env h₁ (hauth₁.trans hauth)
    rw [hledger] at hlogon
    refine .authorize hauth hlogon ?_
    rcases h₁.sendLogonResponseAndKeepAlive env with ⟨h₂, _ | _⟩
    · exact .stops
    · dsimp only
      split_ifs
      · exact .stops
      · exact .goesOn rfl

/-- Every event of a running connection follows the rules. -/
theorem react_reaction (e : Event) : Reaction env h e (h.react env e).ledger := by
  have hclose : ∀ h' : Host, h'.ledger = h.ledger → Kept h.ledger (h'.onClose env).stop.ledger :=
    fun h' heq => (of_ledgerKept (LedgerKept.onClose env heq)).stop
  have hsame : ∀ {h' : Host}, h'.ledger = h.ledger → Kept h.ledger h'.ledger :=
    fun heq => .of_ledgerKept (.of_eq heq)
  cases e with
  | message m => exact receive_reaction env h m
  | authorize => exact onAuthorize_reaction env h
  | close => exact .kept (hclose _ (by rw [ledger_sendCloseReasonNoRetry]; rfl))
  | cmErr e =>
    change Reaction env h _ (h.onCmErr env e).ledger
    unfold onCmErr
    split_ifs
    · exact .kept (hclose h rfl)
    · exact .kept (hsame rfl)
  | chatMessage text => exact .kept (hsame rfl)
  | switchPermission name enabled => exact .kept (hsame (ledger_switchPermission env h name enabled))
  | switchSidesBack =>
    change Reaction env h _ (h.onSwitchSidesBack env).ledger
    unfold onSwitchSidesBack
    split_ifs <;> exact .kept (hsame rfl)
  | voiceCallResponse accepted => exact .kept (hsame (ledger_handleVoiceCall env h accepted))
  | closeVoiceCall => exact .kept (hsame (ledger_closeVoiceCall env h))
  | testDelayTimer =>
    change Reaction env h _ h.onTestDelayTimer.ledger
    unfold onTestDelayTimer
    split_ifs <;> exact .kept (hsame rfl)
  | hangUp => exact .kept (hclose h rfl)
  | shutDown reason => exact .kept (hclose _ (ledger_sendCloseReasonNoRetry h reason))
  | worldChange w => exact .worldChange w

end Host

end UnyDesk
