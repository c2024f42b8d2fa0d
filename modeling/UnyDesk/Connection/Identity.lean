import UnyDesk.Connection.Reachable

/-!
# The identity of an authorized session

An authorized connection ignores login requests, so that the peer cannot become somebody else.
A switch-sides response carries a login request too, and a remote session takes it up at any
time: the stored request is replaced even when the uuid is wrong. A second-factor code that
comes after the authorization takes back the requirement it was for. These are the only messages
that change the identity, and only in a remote session.
-/

namespace UnyDesk

open Lib LoginState

/-- The message changes the stored request or the second factor that is required. -/
def rewritesIdentity (env : Env) (h : Host) (m : Message) : Bool :=
  h.conn.isAuthedRemoteConn && match m with
    | .auth2fa tfa => auth2faAccepted env h tfa
    | .switchSidesResponse s =>
      match switchTaken env s with
      | some lr => lr ≠ h.conn.lr || h.conn.require2fa.isSome && trustedDeviceFor h lr
      | none => false
    | _ => false

/-- The stored request and the required second factor. -/
def LoginState.identity (s : LoginState) : LoginRequest × Option Bytes := (s.lr, s.require2fa)

namespace Host

variable {env : Env} {h h' : Host} {m : Message} {s : SwitchSidesResponse} {kind : AuthConnType}

theorem LedgerKept.identity_eq (hkept : LedgerKept h h') : h'.ledger.login.identity = h.ledger.login.identity := by
  rcases hkept with heq | heq <;> rw [heq]

/-- The identity after a request was stored. -/
theorem handleLoginRequestWithoutValidation_identity (lr : LoginRequest) :
    (h.handleLoginRequestWithoutValidation lr).ledger.login.identity =
      (lr, if h.conn.require2fa.isSome && trustedDeviceFor h lr then none else h.conn.require2fa) := by
  unfold handleLoginRequestWithoutValidation
  dsimp only
  split_ifs with hwaived hwaived' hwaived'
  · rfl
  · exact absurd hwaived hwaived'
  · exact absurd hwaived' hwaived
  · rfl

/-- A response that an authorized connection takes up stores its request and nothing more. -/
theorem onSwitchSidesResponse_identity {lr : LoginRequest}
    (htaken : switchTaken env s = some lr) (hauth : h.conn.authorized = true) :
    (h.onSwitchSidesResponse env s).1.ledger.login.identity =
      (h.handleLoginRequestWithoutValidation lr).ledger.login.identity := by
  have hstored := handleLoginRequestWithoutValidation_stored h lr
  rw [onSwitchSidesResponse_eq env h htaken]
  by_cases hmatch : switchUuidMatches h.world lr s.uuid = true
  · rw [if_pos hmatch]
    have hauth₁ : ((h.handleLoginRequestWithoutValidation lr).dropSwitch
        lr.myId).acceptSwitch.conn.authorized = true := hstored.authorized_eq.trans hauth
    simp only [resumeLogon, sendLogonResponseAndKeepAlive_of_authorized env _ hauth₁]
    rfl
  · rw [if_neg hmatch]
    rfl

theorem onAuth2fa_identity {tfa : Auth2fa} (haccepted : auth2faAccepted env h tfa = true)
    (hauth : h.conn.authorized = true) :
    (h.onAuth2fa env tfa).1.ledger.login.identity = (h.conn.lr, none) := by
  obtain ⟨-, login, hledger⟩ := onAuth2fa_authorized env h haccepted hauth
  rw [hledger]
  rfl

/-- Every other message of an authorized session keeps the identity. -/
theorem onMessage_identity (hauth : h.conn.authorized = true) (hauth2fa : ∀ tfa, m ≠ .auth2fa tfa)
    (hswitch : ∀ s, m ≠ .switchSidesResponse s) :
    (h.onMessage env m).1.ledger.login.identity = h.ledger.login.identity := by
  have hreceived : (h.receive env m).ledger.login = (h.onMessage env m).1.ledger.login :=
    (receive_continues env h m).login_eq
  rw [← hreceived]
  have hreaction := receive_reaction env h m
  generalize (h.receive env m).ledger = l' at hreaction ⊢
  cases hreaction with
  | kept hkept => rw [hkept.login]
  | loginRequest hbefore _ _ => exact Bool.noConfusion (hbefore.symm.trans hauth)
  | auth2fa _ _ _ _ => exact absurd rfl (hauth2fa _)
  | auth2faAgain _ _ _ _ _ => exact absurd rfl (hauth2fa _)
  | switchUnmatched _ _ _ _ _ => exact absurd rfl (hswitch _)
  | switchMatched _ _ _ _ _ _ => exact absurd rfl (hswitch _)
  | switchAgain _ _ _ _ _ _ _ => exact absurd rfl (hswitch _)
  | terminalAction _ _ _ hloop =>
    rw [hloop.login_eq]
    rfl

/-- A session other than remote control turns codes and switch-sides responses away. -/
theorem onMessage_limited (hauth : h.conn.authorized = true)
    (hkind : h.conn.authedConnId = some kind) (hlimited : kind ≠ .remote)
    (hm : (∃ tfa, m = .auth2fa tfa) ∨ ∃ s, m = .switchSidesResponse s) :
    (h.onMessage env m).1.ledger.login.identity = h.ledger.login.identity := by
  have hviolation : (authorizedScopeViolation env.build (some kind) m).isSome = true := by
    apply authorizedScopeViolation_limited hlimited
    rcases hm with hm | hm
    · exact .inl hm
    · exact .inr (.inl hm)
  obtain ⟨message, hmessage⟩ := Option.isSome_iff_exists.mp hviolation
  have heq : h.onMessage env m = h.handleAuthorizedScopeViolation env message := by
    rcases hm with ⟨tfa, rfl⟩ | ⟨s, rfl⟩ <;> simp [onMessage, guardAuthorized, hauth, hkind, hmessage]
  rw [heq]
  exact (ledgerKept_handleAuthorizedScopeViolation env h message).identity_eq

section RemoteMessages

variable (hauth : h.conn.authorized = true) (hkind : h.conn.authedConnId = some .remote)
include hauth hkind

/-- A remote session is not filtered. -/
theorem onMessage_remote (hm : (∃ tfa, m = .auth2fa tfa) ∨ ∃ s, m = .switchSidesResponse s) :
    h.onMessage env m = h.dispatch env m := by
  rcases hm with ⟨tfa, rfl⟩ | ⟨s, rfl⟩ <;> simp [onMessage, guardAuthorized, hauth, hkind]

theorem onMessage_auth2fa_iff {tfa : Auth2fa} :
    (h.onMessage env (.auth2fa tfa)).1.ledger.login.identity = h.ledger.login.identity ↔
      auth2faAccepted env h tfa = false := by
  rw [onMessage_remote hauth hkind (.inl ⟨tfa, rfl⟩)]
  change (h.onAuth2fa env tfa).1.ledger.login.identity = _ ↔ _
  cases haccepted : auth2faAccepted env h tfa with
  | false => simp [(onAuth2fa_ignored env h haccepted).1]
  | true =>
    have hrequired : h.conn.require2fa ≠ none := by
      intro hnone
      simp [auth2faAccepted, hnone] at haccepted
    rw [onAuth2fa_identity haccepted hauth]
    simp [identity, hrequired.symm]

theorem onMessage_switchSidesResponse_iff :
    (h.onMessage env (.switchSidesResponse s)).1.ledger.login.identity = h.ledger.login.identity ↔
      ∀ lr, switchTaken env s = some lr →
        lr = h.conn.lr ∧ (h.conn.require2fa.isSome && trustedDeviceFor h lr) = false := by
  rw [onMessage_remote hauth hkind (.inr ⟨s, rfl⟩)]
  change (h.onSwitchSidesResponse env s).1.ledger.login.identity = _ ↔ _
  cases htaken : switchTaken env s with
  | none => simp [onSwitchSidesResponse_ignored env h htaken]
  | some lr =>
    rw [onSwitchSidesResponse_identity htaken hauth, handleLoginRequestWithoutValidation_identity]
    cases hrequired : h.conn.require2fa with
    | none => simp [identity, hrequired]
    | some totp =>
      cases htrusted : trustedDeviceFor h lr <;> simp [identity, hrequired, htrusted]

end RemoteMessages

/-- The identity is kept by exactly the messages that do not rewrite it. -/
theorem onMessage_identity_iff (hauth : h.conn.authorized = true) (hkind : h.conn.authedConnId = some kind) :
    (h.onMessage env m).1.ledger.login.identity = h.ledger.login.identity ↔ rewritesIdentity env h m = false := by
  by_cases hremote : kind = .remote
  · subst hremote
    have hisRemote : h.conn.isAuthedRemoteConn = true := by simp [Connection.isAuthedRemoteConn, hkind]
    unfold rewritesIdentity
    rw [hisRemote, Bool.true_and]
    split
    · exact onMessage_auth2fa_iff hauth hkind
    · next s =>
      rw [onMessage_switchSidesResponse_iff hauth hkind]
      cases switchTaken env s <;> simp
    · next hauth2fa hswitch => exact iff_of_true (onMessage_identity hauth hauth2fa hswitch) rfl
  · have hnot : rewritesIdentity env h m = false := by
      simp [rewritesIdentity, Connection.isAuthedRemoteConn, hkind, hremote]
    refine iff_of_true ?_ hnot
    by_cases hm : (∃ tfa, m = .auth2fa tfa) ∨ ∃ s, m = .switchSidesResponse s
    · exact onMessage_limited hauth hkind hremote hm
    · push Not at hm
      exact onMessage_identity hauth hm.1 hm.2

end Host

/-- In every reachable authorized connection, a message leaves the stored request and the
required second factor alone if and only if it is not, in a remote session, an accepted code or a
switch-sides response with another request or one that waives the second factor. -/
theorem identity_frozen_iff (env : Env) (world : World) (hash : HashMsg) (require2fa : Option Bytes)
    (events : List Event) (m : Message) :
    let h := (Host.start env world hash require2fa).run env events
    h.conn.authorized = true →
      (((h.onMessage env m).1.conn.lr = h.conn.lr ∧ (h.onMessage env m).1.conn.require2fa = h.conn.require2fa) ↔
        rewritesIdentity env h m = false) := by
  intro h hauth
  have hwf : h.ledger.WellFormed := Host.wellFormed_run world hash require2fa events
  obtain ⟨g, -, hkind, -⟩ := hwf.granted hauth
  rw [← Host.onMessage_identity_iff hauth hkind]
  exact Prod.mk_inj.symm

/-- A file transfer keeps its identity when a switch-sides response of another peer arrives. -/
theorem identity_frozen_file_transfer :
    let lr := { sampleRequest with union := some (.fileTransfer "/" false) }
    let other := { sampleRequest with myId := "300" }
    let h := (Host.start sampleEnv sampleWorld sampleHash none).run sampleEnv [.message (.loginRequest lr), .authorize]
    let m := .switchSidesResponse { uuid := [], lr := some other }
    h.conn.authorized = true ∧ (h.onMessage sampleEnv m).1.conn.lr = h.conn.lr ∧
      (h.onMessage sampleEnv m).1.conn.require2fa = h.conn.require2fa :=
  ⟨by decide, (identity_frozen_iff sampleEnv sampleWorld sampleHash none _ _ (by decide)).mpr (by decide)⟩

/-- A remote session becomes another peer by a switch-sides response with a wrong uuid. -/
theorem switch_sides_rewrites_identity :
    let other := { sampleRequest with myId := "300" }
    let h := (Host.start sampleEnv sampleWorld sampleHash none).run sampleEnv
      [.message (.loginRequest sampleRequest), .authorize]
    let m := .switchSidesResponse { uuid := [], lr := some other }
    h.conn.authorized = true ∧ h.conn.lr.myId = "200" ∧ (h.onMessage sampleEnv m).1.conn.lr.myId = "300" := by
  decide

end UnyDesk
