import UnyDesk.Connection.Reaction

/-!
# Reachable connections

What holds of every connection that `Connection::start` can lead to, whatever happens to it: an
unauthorized connection has no open port and does not come from a switch of sides, and an
authorized one has the kind and the port of a grant on its trail.

Two rules carry the security results. A grant happens in four ways only, each from a ledger
that is known before the logon starts; so a law of all grants is checked at these four. And a
connection that waits for its grant gets there in five ways only; so an invariant of waiting
connections is checked at these five.
-/

namespace UnyDesk

open Lib Ledger List

variable {l₀ : Ledger} {marks : List Mark} {l l' : Ledger} {g : Grant}

/-- The session is the one of a recorded grant; its port may have been released since. -/
def Ledger.HasGrant (l : Ledger) : Prop :=
  ∃ g, .granted g ∈ l.trail ∧ l.login.authedConnId = some g.kind ∧ (l.socket = none ∨ l.socket = g.portForwardSocket)

/-- The shape that every round of the loop keeps. -/
structure Ledger.WellFormed (l : Ledger) : Prop where
  socket : l.login.authorized = false → l.alive = true → l.socket = none
  fromSwitch : l.login.authorized = false → l.alive = true → l.login.fromSwitch = false
  granted : l.login.authorized = true → l.HasGrant

theorem Ledger.HasGrant.mono (h : l.HasGrant) (htrail : ∀ m ∈ l.trail, m ∈ l'.trail)
    (hkind : l'.login.authedConnId = l.login.authedConnId)
    (hsocket : l'.socket = l.socket ∨ l'.socket = none) : l'.HasGrant := by
  obtain ⟨g, hmem, heq, hport⟩ := h
  refine ⟨g, htrail _ hmem, hkind.trans heq, ?_⟩
  rcases hsocket with hsame | hnone
  · rw [hsame]
    exact hport
  · exact .inl hnone

theorem Grants.hasGrant {env : Env} (h : Grants env l l' g marks) : l'.HasGrant :=
  ⟨g, by rw [h.trail]; exact mem_cons_self, by rw [h.login], .inr h.openSocket⟩

section Phases

variable {env : Env} {l l' : Ledger}

theorem Asked.login_eq (h : Asked env l l') :
    l'.login = { l.login with terminalUserToken := l'.login.terminalUserToken } := by
  cases h with
  | plain => rfl
  | factor _ _ => rfl
  | user h => exact h.login_eq

/-- Asking the user leaves only factors and terminal users on the trail. -/
theorem Asked.exists_proofs (h : Asked env l l') :
    ∃ marks, l'.trail = marks ++ l.trail ∧ ∀ m ∈ marks, m.isProof = true := by
  cases h with
  | plain => exact ⟨[], rfl, by simp⟩
  | factor _ _ => exact ⟨[_], rfl, by simp [Mark.isProof]⟩
  | user h =>
    obtain ⟨marks, token, rfl, hproofs, -⟩ := h.exists_marks
    exact ⟨marks, rfl, hproofs⟩

theorem Asked.socket_eq (h : Asked env l l') : l'.socket = l.socket := by
  cases h with
  | plain => rfl
  | factor _ _ => rfl
  | user h => exact h.socket_eq

/-- The stored request and the kind of session that was selected are the same. -/
structure SameScope (l l' : Ledger) : Prop where
  lr : l'.login.lr = l.login.lr
  fileTransfer : l'.login.fileTransfer = l.login.fileTransfer
  viewCamera : l'.login.viewCamera = l.login.viewCamera
  terminal : l'.login.terminal = l.login.terminal
  portForwardAddress : l'.login.portForwardAddress = l.login.portForwardAddress
  terminalServiceId : l'.login.terminalServiceId = l.login.terminalServiceId

theorem Kept.sameScope (h : Kept l l') : SameScope l l' := by
  constructor <;> rw [h.login]

theorem Asked.sameScope (h : Asked env l l') : SameScope l l' := by
  constructor <;> rw [h.login_eq]

theorem SameScope.announce (h : SameScope l l') (login : CmLogin) : SameScope l (l'.announce login) :=
  ⟨h.lr, h.fileTransfer, h.viewCamera, h.terminal, h.portForwardAddress, h.terminalServiceId⟩

section Select

variable (lr : LoginRequest)

@[simp] theorem select_authorized :
    (l.select lr).login.authorized = l.login.authorized := by
  unfold select
  split <;> rfl

@[simp] theorem select_lr : (l.select lr).login.lr = l.login.lr := by
  unfold select
  split <;> rfl

@[simp] theorem select_require2fa :
    (l.select lr).login.require2fa = l.login.require2fa := by
  unfold select
  split <;> rfl

@[simp] theorem select_fromSwitch :
    (l.select lr).login.fromSwitch = l.login.fromSwitch := by
  unfold select
  split <;> rfl

@[simp] theorem select_socket : (l.select lr).socket = l.socket := by
  unfold select
  split <;> rfl

@[simp] theorem select_lastLogin : (l.select lr).lastLogin = l.lastLogin := by
  unfold select
  split <;> rfl

end Select

section Stored

variable {lr : LoginRequest} (h : Stored l lr l')
include h

theorem Stored.lastLogin_eq : l'.lastLogin = l.lastLogin := by
  cases h <;> rfl

theorem Stored.socket_eq : l'.socket = l.socket := by
  cases h <;> rfl

theorem Stored.fromSwitch_eq : l'.login.fromSwitch = l.login.fromSwitch := by
  cases h <;> rfl

theorem Stored.authedConnId_eq : l'.login.authedConnId = l.login.authedConnId := by
  cases h <;> rfl

theorem Stored.mem_trail : ∀ m ∈ l.trail, m ∈ l'.trail := by
  cases h with
  | kept => exact fun _ => mem_cons_of_mem _
  | waived _ => exact fun _ hm => mem_cons_of_mem _ (mem_cons_of_mem _ hm)

end Stored

end Phases

section WellFormed

variable {env : Env} {l l' : Ledger} {keep : Bool}

/-- A refused connection has nothing to show. -/
theorem Ledger.WellFormed.of_unauthorized_dead (hauth : l.login.authorized = false) (hdead : l.alive = false) :
    l.WellFormed :=
  ⟨fun _ halive => by simp [hdead] at halive, fun _ halive => by simp [hdead] at halive, fun h => by simp [hauth] at h⟩

theorem Ledger.WellFormed.of_granted (hauth : l.login.authorized = true) (hgrant : l.HasGrant) : l.WellFormed :=
  ⟨fun h => by simp [hauth] at h, fun h => by simp [hauth] at h, fun _ => hgrant⟩

theorem Continues.wellFormed (hloop : Continues l keep l') (h : l.WellFormed) : l'.WellFormed := by
  cases hloop with
  | stops =>
    exact ⟨fun _ halive => by simp at halive, fun _ halive => by simp at halive, h.granted⟩
  | goesOn _ => exact h

/-- A refused connection is dead. -/
theorem Refused.wellFormed (h : Refused l₀ l) (hloop : Continues l false l') : l'.WellFormed := by
  cases hloop with
  | stops => exact .of_unauthorized_dead h.authorized rfl
  | goesOn hkeep => cases hkeep

theorem Logon.hasGrant (h : Logon env l l' true) (hauth : l'.login.authorized = true)
    (hbefore : l.login.authorized = false) : l'.HasGrant := by
  obtain ⟨g, marks, hgrants⟩ := h.exists_grants hauth hbefore
  exact hgrants.hasGrant

theorem Resumed.wellFormed (h : Resumed env l₀ l keep) (hbefore : l₀.login.authorized = false)
    (hloop : Continues l keep l') : l'.WellFormed := by
  cases h with
  | refused hrefused => exact hrefused.wellFormed hloop
  | granted hlogon hgranted login =>
    exact hloop.wellFormed (.of_granted hgranted (hlogon.hasGrant hgranted hbefore))

theorem Approval.wellFormed {silent : Prop} (h : Approval env silent l₀ l keep)
    (hauth : l₀.login.authorized = false) (hsocket : l₀.socket = none)
    (hswitch : l₀.login.fromSwitch = false) (hloop : Continues l keep l') : l'.WellFormed := by
  cases h with
  | silent _ =>
    exact hloop.wellFormed ⟨fun _ _ => hsocket, fun _ _ => hswitch, fun h => by simp [hauth] at h⟩
  | silentFactor _ _ =>
    refine hloop.wellFormed ⟨fun _ _ => hsocket, fun _ _ => hswitch, fun h => ?_⟩
    exact absurd h (by simp [push, hauth])
  | refused hrefused => exact hrefused.wellFormed hloop
  | @asked l₁ login hasked hshows =>
    refine hloop.wellFormed ⟨fun _ _ => ?_, fun _ _ => ?_, fun h => ?_⟩
    · exact hasked.socket_eq.trans hsocket
    · change l₁.login.fromSwitch = false
      rw [hasked.login_eq]
      exact hswitch
    · change l₁.login.authorized = true at h
      rw [hasked.login_eq] at h
      simp [hauth] at h
  | granted method hlogon hgranted hshows =>
    exact hloop.wellFormed (.of_granted hgranted (hlogon.hasGrant hgranted hauth))

end WellFormed

namespace Host

variable {env : Env} {h : Host} {e : Event}

/-- One event keeps the shape. -/
theorem wellFormed_reaction {l' : Ledger} (halive : h.alive = true) (hwf : h.ledger.WellFormed)
    (hreaction : Reaction env h e l') : l'.WellFormed := by
  cases hreaction with
  | kept hkept =>
    refine ⟨fun hauth _ => ?_, fun hauth _ => ?_, fun hauth => ?_⟩
    · rw [hkept.login] at hauth
      rcases hkept.socket with heq | heq
      · exact heq.trans (hwf.socket hauth halive)
      · exact heq
    · rw [hkept.login] at hauth ⊢
      exact hwf.fromSwitch hauth halive
    · rw [hkept.login] at hauth
      refine (hwf.granted hauth).mono ?_ ?_ hkept.socket
      · rw [hkept.trail]
        exact fun _ => id
      · rw [hkept.login]
  | worldChange w => exact ⟨hwf.socket, hwf.fromSwitch, hwf.granted⟩
  | loginRequest hauth hlogin hloop =>
    cases hlogin with
    | refused hrefused => exact hrefused.wellFormed hloop
    | approved hstored happroval =>
      refine happroval.wellFormed ?_ ?_ ?_ hloop
      · rw [select_authorized]
        exact hstored.authorized_eq.trans hauth
      · rw [select_socket]
        exact hstored.socket_eq.trans (hwf.socket hauth halive)
      · rw [select_fromSwitch]
        exact hstored.fromSwitch_eq.trans (hwf.fromSwitch hauth halive)
  | auth2fa hauth _ hresumed hloop => exact hresumed.wellFormed hauth hloop
  | auth2faAgain login hauth _ _ hloop =>
    refine hloop.wellFormed (.of_granted hauth ?_)
    exact (hwf.granted hauth).mono (fun _ => mem_cons_of_mem _) rfl (.inl rfl)
  | switchUnmatched _ _ _ hstored hloop =>
    refine hloop.wellFormed ⟨fun hauth _ => ?_, fun hauth _ => ?_, fun hauth => ?_⟩
    · rw [hstored.authorized_eq] at hauth
      exact hstored.socket_eq.trans (hwf.socket hauth halive)
    · rw [hstored.authorized_eq] at hauth
      exact hstored.fromSwitch_eq.trans (hwf.fromSwitch hauth halive)
    · rw [hstored.authorized_eq] at hauth
      exact (hwf.granted hauth).mono hstored.mem_trail hstored.authedConnId_eq (.inl hstored.socket_eq)
  | switchMatched hauth _ _ hstored hresumed hloop =>
    exact hresumed.wellFormed (hstored.authorized_eq.trans hauth) hloop
  | switchAgain login hauth _ _ _ hstored hloop =>
    refine hloop.wellFormed (.of_granted (hstored.authorized_eq.trans hauth) ?_)
    refine (hwf.granted hauth).mono (fun m hm => ?_) hstored.authedConnId_eq (.inl hstored.socket_eq)
    exact mem_cons_of_mem _ (hstored.mem_trail m hm)
  | @authorize l l' keep hauth hlogon hloop =>
    cases keep with
    | false => exact hlogon.refused_of_false.wellFormed hloop
    | true =>
      have hgranted := hlogon.authorized_of_free (.inl rfl)
      exact hloop.wellFormed (.of_granted hgranted (hlogon.hasGrant hgranted hauth))
  | authorizeAgain hauth hloop =>
    refine hloop.wellFormed (.of_granted hauth ?_)
    exact (hwf.granted hauth).mono (fun _ => mem_cons_of_mem _) rfl (.inl rfl)
  | terminalAction hauth _ _ hloop =>
    refine hloop.wellFormed (.of_granted hauth ?_)
    exact (hwf.granted hauth).mono (fun _ => mem_cons_of_mem _) rfl (.inl rfl)

end Host

/-! ## The law of grants -/

/-- The ledgers from which a logon can end in a grant. -/
inductive GrantBase (env : Env) (h : Host) : Event → Ledger → Prop
  | login {lr : LoginRequest} {l : Ledger} (method : ConnAuditPrimaryAuth) (hstored : Stored h.ledger lr l) :
      GrantBase env h (.message (.loginRequest lr)) ((l.resetScope.select lr).push (.primaryAuth method))
  | auth2fa {tfa : Auth2fa} (haccepted : auth2faAccepted env h tfa = true) :
      GrantBase env h (.message (.auth2fa tfa)) (h.ledger.clear2fa.second .totp)
  | switch {s : SwitchSidesResponse} {lr : LoginRequest} {l : Ledger} (htaken : switchTaken env s = some lr)
      (hmatch : switchUuidMatches h.world lr s.uuid = true) (hstored : Stored h.ledger lr l) :
      GrantBase env h (.message (.switchSidesResponse s)) l.switched
  | authorize : GrantBase env h .authorize h.ledger.clicked

/-- Every grant on the trail satisfies the law, given what was recorded before it. -/
def GrantsJustified (Q : Grant → List Mark → Prop) (trail : List Mark) : Prop :=
  Justified (fun m earlier => ∀ g, m = .granted g → Q g earlier) trail

section Justification

variable {env : Env} {h : Host} {e : Event} {l l₁ l' : Ledger} {keep : Bool} {Q : Grant → List Mark → Prop}
  {lr : LoginRequest}

theorem GrantsJustified.plainlyExtends (hjust : GrantsJustified Q l.trail) (hplain : PlainlyExtends l l') :
    GrantsJustified Q l'.trail := by
  obtain ⟨marks, htrail, hmarks⟩ := hplain
  rw [htrail]
  refine justified_append (fun m hm _ g heq => ?_) hjust
  simp [heq, Mark.isPlain] at hmarks hm
  exact absurd (hmarks _ hm) (by simp)

theorem Grants.justified (hgrants : Grants env l l' g marks)
    (hjust : GrantsJustified Q l.trail) (hgrant : Q g (marks ++ l.trail)) : GrantsJustified Q l'.trail := by
  rw [hgrants.trail]
  refine ⟨fun g' heq => ?_, ?_⟩
  · cases heq
    exact hgrant
  · refine justified_append (fun m hm _ g' heq => ?_) hjust
    have hproof := hgrants.proofs m hm
    simp [heq, Mark.isProof] at hproof

theorem Continues.login_eq (hloop : Continues l keep l') : l'.login = l.login := by
  cases hloop <;> rfl

theorem Continues.trail_eq (hloop : Continues l keep l') : l'.trail = l.trail := by
  cases hloop <;> rfl

theorem plainlyExtends_select (l : Ledger) (lr : LoginRequest) : PlainlyExtends l (l.resetScope.select lr) := by
  have hreset : PlainlyExtends l l.resetScope := .cons rfl rfl
  refine hreset.trans ?_
  unfold select
  split <;> first | exact .cons rfl rfl | exact .of_eq rfl

theorem Stored.plainlyExtends_select (hstored : Stored l lr l₁) : PlainlyExtends l (l₁.resetScope.select lr) :=
  hstored.plainlyExtends.trans (UnyDesk.plainlyExtends_select l₁ lr)

theorem Asked.plainlyExtends (h : Asked env l l') : PlainlyExtends l l' := by
  cases h with
  | plain => exact .of_eq rfl
  | factor _ _ => exact .cons rfl rfl
  | user h => exact h.plainlyExtends

theorem GrantBase.plainlyExtends (hbase : GrantBase env h e l) : PlainlyExtends h.ledger l := by
  cases hbase with
  | login method hstored => exact hstored.plainlyExtends_select.trans (.cons rfl rfl)
  | auth2fa _ => exact .cons rfl rfl
  | switch _ _ hstored => exact hstored.plainlyExtends.trans (.cons rfl rfl)
  | authorize => exact .cons rfl rfl

theorem GrantBase.socket_eq (hbase : GrantBase env h e l) : l.socket = h.conn.portForwardSocket := by
  cases hbase with
  | login _ hstored => exact (select_socket _).trans hstored.socket_eq
  | auth2fa _ => rfl
  | switch _ _ hstored => exact hstored.socket_eq
  | authorize => rfl

/-- A connection is authorized by a grant of its own, and from then on it keeps its kind, its
scope and its terminal user. -/
inductive Authorized (env : Env) (h : Host) (e : Event) (l' : Ledger) : Prop
  | before (hauth : h.conn.authorized = true) (hlogin : l'.login = { h.ledger.login with
      lr := l'.login.lr, require2fa := l'.login.require2fa, fromSwitch := l'.login.fromSwitch })
  | granted {l l₁ : Ledger} {g : Grant} {marks : List Mark} (hauth : h.conn.authorized = false)
      (hbase : GrantBase env h e l) (hgrants : Grants env l l₁ g marks) (hlogin : l'.login = l₁.login)

theorem Stored.login_eq (h : Stored l lr l') :
    l'.login = { l.login with lr := lr, require2fa := l'.login.require2fa } := by
  cases h <;> rfl

theorem Stored.terminalUserToken_eq (h : Stored l lr l') : l'.login.terminalUserToken = l.login.terminalUserToken := by
  cases h <;> rfl

/-- What is added to the trail has no grant. -/
def Grantless (l l' : Ledger) : Prop := ∃ marks, l'.trail = marks ++ l.trail ∧ ∀ m ∈ marks, ∀ g, m ≠ .granted g

theorem Grantless.of_eq (h : l'.trail = l.trail) : Grantless l l' :=
  ⟨[], h, fun _ hm => absurd hm not_mem_nil⟩

theorem PlainlyExtends.grantless (h : PlainlyExtends l l') : Grantless l l' := by
  obtain ⟨marks, htrail, hplain⟩ := h
  refine ⟨marks, htrail, fun m hm g heq => ?_⟩
  have hmark := hplain m hm
  rw [heq] at hmark
  cases hmark

/-- What one event does: nothing is granted, or one of the four ledgers is. -/
inductive Outcome (env : Env) (h : Host) (e : Event) (l' : Ledger) : Prop
  | plain (htrail : Grantless h.ledger l') (hsame : l'.login.authorized = h.conn.authorized)
      (hlogin : h.conn.authorized = true → Authorized env h e l')
  | granted {l l₁ : Ledger} {g : Grant} {marks : List Mark} (hauth : h.conn.authorized = false)
      (hbase : GrantBase env h e l) (hgrants : Grants env l l₁ g marks) (hlogin : l'.login = l₁.login)
      (htrail : l'.trail = l₁.trail)

section Outcome

variable {l₀ l₁ l₂ : Ledger} {keep : Bool}

theorem Outcome.waits (hloop : Continues l₁ keep l') (hauth : h.conn.authorized = false)
    (htrail : PlainlyExtends h.ledger l₁) (hunauthorized : l₁.login.authorized = false) : Outcome env h e l' := by
  refine .plain ?_ ?_ fun hauth' => absurd hauth' (ne_true_of_eq_false hauth)
  · obtain ⟨marks, heq, hmarks⟩ := htrail.grantless
    exact ⟨marks, hloop.trail_eq.trans heq, hmarks⟩
  · rw [hloop.login_eq, hunauthorized, hauth]

theorem Outcome.stays (hloop : Continues l₁ keep l') (htrail : Grantless h.ledger l₁)
    (hlogin : l₁.login = { h.ledger.login with
      lr := l₁.login.lr, require2fa := l₁.login.require2fa, fromSwitch := l₁.login.fromSwitch }) :
    Outcome env h e l' := by
  refine .plain ?_ ?_ fun hauth => .before hauth ?_
  · obtain ⟨marks, heq, hmarks⟩ := htrail
    exact ⟨marks, hloop.trail_eq.trans heq, hmarks⟩
  · rw [hloop.login_eq, hlogin]
    rfl
  · rw [hloop.login_eq]
    exact hlogin

theorem Outcome.logon (hloop : Continues l₂ keep l') (hauth : h.conn.authorized = false)
    (hlogon : Logon env l₀ l₁ true) (hafter : l₁.login.authorized = true) (hbefore : l₀.login.authorized = false)
    (hbase : GrantBase env h e l₀) (hlogin : l₂.login = l₁.login) (htrail : l₂.trail = l₁.trail) :
    Outcome env h e l' := by
  obtain ⟨g, marks, hgrants⟩ := hlogon.exists_grants hafter hbefore
  exact .granted hauth hbase hgrants (hloop.login_eq.trans hlogin) (hloop.trail_eq.trans htrail)

theorem Outcome.resumes (hloop : Continues l₁ keep l') (hauth : h.conn.authorized = false)
    (hresumed : Resumed env l₀ l₁ keep) (hbefore : l₀.login.authorized = false) (hbase : GrantBase env h e l₀) :
    Outcome env h e l' := by
  cases hresumed with
  | refused hrefused =>
    exact .waits hloop hauth (hbase.plainlyExtends.trans hrefused.trail) hrefused.authorized
  | granted hlogon hafter login => exact .logon hloop hauth hlogon hafter hbefore hbase rfl rfl

end Outcome

section Reaction

variable (hreaction : Reaction env h e l')
include hreaction

theorem Reaction.outcome : Outcome env h e l' := by
  cases hreaction with
  | kept hkept =>
    refine .plain (.of_eq hkept.trail) (congrArg LoginState.authorized hkept.login) fun hauth => .before hauth ?_
    rw [hkept.login]
  | worldChange w => exact .plain (.of_eq rfl) rfl fun hauth => .before hauth rfl
  | @loginRequest lr _ _ _ hauth hlogin hloop =>
    cases hlogin with
    | refused hrefused => exact .waits hloop hauth hrefused.trail hrefused.authorized
    | @approved l _ _ hstored happroval =>
      have hbase := hstored.plainlyExtends_select
      have hselect : (l.resetScope.select lr).login.authorized = false :=
        (select_authorized lr).trans (hstored.authorized_eq.trans hauth)
      cases happroval with
      | silent _ => exact .waits hloop hauth hbase hselect
      | silentFactor _ _ => exact .waits hloop hauth (hbase.trans (.cons rfl rfl)) hselect
      | refused hrefused => exact .waits hloop hauth (hbase.trans hrefused.trail) hrefused.authorized
      | asked hasked _ =>
        have hasked' := congrArg LoginState.authorized hasked.login_eq
        exact .waits hloop hauth (hbase.trans hasked.plainlyExtends) (hasked'.trans hselect)
      | granted method hlogon hafter _ =>
        exact .logon hloop hauth hlogon hafter hselect (.login method hstored) rfl rfl
  | auth2fa hauth haccepted hresumed hloop => exact .resumes hloop hauth hresumed hauth (.auth2fa haccepted)
  | auth2faAgain login _ _ _ hloop => exact .stays hloop (PlainlyExtends.cons rfl rfl).grantless rfl
  | switchUnmatched _ _ _ hstored hloop =>
    exact .stays hloop hstored.plainlyExtends.grantless (by rw [hstored.login_eq])
  | switchMatched hauth htaken hmatch hstored hresumed hloop =>
    exact .resumes hloop hauth hresumed (hstored.authorized_eq.trans hauth) (.switch htaken hmatch hstored)
  | switchAgain login _ _ _ _ hstored hloop =>
    refine .stays hloop (hstored.plainlyExtends.trans (.cons rfl rfl)).grantless ?_
    cases hstored <;> rfl
  | @authorize l₁ _ keep hauth hlogon hloop =>
    have hclick : PlainlyExtends h.ledger h.ledger.clicked := .cons rfl rfl
    cases keep with
    | false =>
      have hrefused := hlogon.refused_of_false
      exact .waits hloop hauth (hclick.trans hrefused.trail) hrefused.authorized
    | true => exact .logon hloop hauth hlogon (hlogon.authorized_of_free (.inl rfl)) hauth .authorize rfl rfl
  | authorizeAgain _ hloop => exact .stays hloop (PlainlyExtends.cons rfl rfl).grantless rfl
  | terminalAction _ _ _ hloop =>
    refine .stays hloop ⟨[_], rfl, fun m hm g => ?_⟩ rfl
    rw [mem_singleton.mp hm]
    exact nofun

/-- The rule for laws of grants: it is enough to check the grants of the four ledgers. -/
theorem Reaction.justified (hjust : GrantsJustified Q h.trail)
    (hgrant : h.conn.authorized = false → ∀ l l' g marks, GrantBase env h e l →
      Grants env l l' g marks → Q g (marks ++ l.trail)) :
    GrantsJustified Q l'.trail := by
  cases hreaction.outcome with
  | plain htrail =>
    obtain ⟨marks, heq, hmarks⟩ := htrail
    rw [heq]
    exact justified_append (fun m hm _ g hg => absurd hg (hmarks m hm g)) hjust
  | @granted l _ g marks hauth hbase hgrants _ htrail =>
    rw [htrail]
    have hjustBase : GrantsJustified Q l.trail :=
      GrantsJustified.plainlyExtends (l := h.ledger) hjust hbase.plainlyExtends
    exact hgrants.justified hjustBase (hgrant hauth _ _ _ _ hbase hgrants)

/-- The rule for authorized connections: they were authorized before, or one of the four ledgers
was granted. -/
theorem Reaction.authorized (hgranted : l'.login.authorized = true) : Authorized env h e l' := by
  cases hreaction.outcome with
  | plain _ hsame hlogin => exact hlogin (hsame.symm.trans hgranted)
  | granted hauth hbase hgrants hlogin _ => exact .granted hauth hbase hgrants hlogin

/-- Nothing takes an authorization back. -/
theorem Reaction.unauthorized_before (hauth : l'.login.authorized = false) : h.conn.authorized = false := by
  cases hreaction.outcome with
  | plain _ hsame => exact hsame.symm.trans hauth
  | granted hbefore => exact hbefore

end Reaction

end Justification

/-! ## Waiting for a grant -/

/-- The ways in which a running connection stays unauthorized. -/
inductive Pending (env : Env) (h : Host) : Event → Ledger → Prop
  | kept {e : Event} {l' : Ledger} (hkept : Kept h.ledger l') : Pending env h e l'
  | worldChange (w : World) :
      Pending env h (.worldChange w) { h.ledger with service := w.isServiceSpecifiedUser }
  | silent {lr : LoginRequest} {l l' : Ledger} (hstored : Stored h.ledger lr l) (hsilent : silentLogin env h lr = true)
      (heq : l' = l.resetScope.select lr ∨ ∃ method, l' = (l.resetScope.select lr).push (.primaryAuth method)) :
      Pending env h (.message (.loginRequest lr)) l'
  | asked {lr : LoginRequest} {l l' : Ledger} {login : CmLogin} (hstored : Stored h.ledger lr l)
      (hasked : Asked env (l.resetScope.select lr) l') (hshows : l'.Shows login) :
      Pending env h (.message (.loginRequest lr)) (l'.announce login)
  | switchUnmatched {s : SwitchSidesResponse} {lr : LoginRequest} {l : Ledger}
      (htaken : switchTaken env s = some lr) (hmatch : switchUuidMatches h.world lr s.uuid = false)
      (hstored : Stored h.ledger lr l) : Pending env h (.message (.switchSidesResponse s)) l

section Waiting

variable {env : Env} {h : Host} {e : Event} {l l' : Ledger} {keep : Bool}

theorem Continues.eq_of_alive (hloop : Continues l keep l') (halive : l'.alive = true) : keep = true ∧ l' = l := by
  cases hloop with
  | stops => simp at halive
  | goesOn hkeep => exact ⟨hkeep, rfl⟩

theorem Continues.socket_eq (hloop : Continues l keep l') : l'.socket = l.socket := by
  cases hloop <;> rfl

theorem Resumed.not_pending (hresumed : Resumed env l₀ l keep) (hloop : Continues l keep l')
    (hauth : l'.login.authorized = false) (halive : l'.alive = true) : False := by
  obtain ⟨rfl, rfl⟩ := hloop.eq_of_alive halive
  cases hresumed with
  | granted _ hgranted _ =>
    change (login _).authorized = false at hauth
    simp [announce, hgranted] at hauth

/-- The rule for waiting connections: it is enough to check the five ways to stay unauthorized. -/
theorem Reaction.pending (hreaction : Reaction env h e l') (hauth : l'.login.authorized = false)
    (halive : l'.alive = true) : Pending env h e l' := by
  cases hreaction with
  | kept hkept => exact .kept hkept
  | worldChange w => exact .worldChange w
  | loginRequest _ hlogin hloop =>
    obtain ⟨rfl, rfl⟩ := hloop.eq_of_alive halive
    cases hlogin with
    | approved hstored happroval =>
      cases happroval with
      | silent hsilent => exact .silent hstored hsilent (.inl rfl)
      | silentFactor hsilent method => exact .silent hstored hsilent (.inr ⟨method, rfl⟩)
      | asked hasked hshows => exact .asked hstored hasked hshows
      | granted _ _ hgranted _ =>
        simp [announce, hgranted] at hauth
  | auth2fa _ _ hresumed hloop => exact (hresumed.not_pending hloop hauth halive).elim
  | auth2faAgain login hbefore _ _ hloop =>
    rw [hloop.login_eq] at hauth
    exact Bool.noConfusion (hbefore.symm.trans hauth)
  | switchUnmatched htaken hmatch _ hstored hloop =>
    obtain ⟨-, rfl⟩ := hloop.eq_of_alive halive
    exact .switchUnmatched htaken hmatch hstored
  | switchMatched _ _ _ _ hresumed hloop => exact (hresumed.not_pending hloop hauth halive).elim
  | switchAgain login hbefore _ _ _ hstored hloop =>
    rw [hloop.login_eq] at hauth
    exact Bool.noConfusion ((hstored.authorized_eq.trans hbefore).symm.trans hauth)
  | @authorize l l' keep _ hlogon hloop =>
    obtain ⟨rfl, rfl⟩ := hloop.eq_of_alive halive
    have hgranted := hlogon.authorized_of_free (.inl rfl)
    simp [hgranted] at hauth
  | authorizeAgain hbefore hloop =>
    rw [hloop.login_eq] at hauth
    exact Bool.noConfusion (hbefore.symm.trans hauth)
  | terminalAction hbefore _ _ hloop =>
    rw [hloop.login_eq] at hauth
    exact Bool.noConfusion (hbefore.symm.trans hauth)

end Waiting

namespace Host

variable {env : Env} {h : Host} {e : Event}

/-- A property of the ledger that every admitted reaction keeps is kept by every admitted step. -/
theorem step_ledger_invariant {I : Ledger → Prop} (hinv : I h.ledger)
    (hreaction : ∀ l', h.alive = true → Reaction env h e l' → I l') : I (h.step env e).ledger := by
  unfold step
  split_ifs with halive
  · exact hreaction _ halive (react_reaction env h e)
  · exact hinv

theorem ledger_announcePermissions : (h.announcePermissions env).ledger = h.ledger := by
  have hfold : ∀ (entries : List (Permission × Bool)) (h : Host),
      (entries.foldl (fun h entry => h.emit (.permission entry.1 entry.2)) h).ledger = h.ledger := by
    intro entries
    induction entries with
    | nil => exact fun _ => rfl
    | cons entry entries ih => exact fun h => ih _
  exact hfold _ _

/-- The ledger of a connection that was just opened. -/
theorem start_ledger (world : World) (hash : HashMsg) (require2fa : Option Bytes) :
    (start env world hash require2fa).ledger =
      { login :=
          { lr := {}, require2fa := require2fa, authorized := false, authedConnId := none
            fileTransfer := none, viewCamera := false, terminal := false, portForwardAddress := ""
            terminalServiceId := "", terminalUserToken := none, fromSwitch := false }
        socket := none
        trail := []
        lastLogin := none
        alive := true
        service := world.isServiceSpecifiedUser } := by
  unfold start
  dsimp only
  rw [ledger_announcePermissions]
  rfl

theorem wellFormed_start (world : World) (hash : HashMsg) (require2fa : Option Bytes) :
    (start env world hash require2fa).ledger.WellFormed := by
  rw [start_ledger]
  exact ⟨fun _ _ => rfl, fun _ _ => rfl, fun h => by simp at h⟩

theorem wellFormed_step (hwf : h.ledger.WellFormed) : (h.step env e).ledger.WellFormed :=
  step_ledger_invariant hwf fun _ halive => wellFormed_reaction halive hwf

/-- Every connection that can be reached has the shape. -/
theorem wellFormed_run (world : World) (hash : HashMsg) (require2fa : Option Bytes) (events : List Event) :
    ((start env world hash require2fa).run env events).ledger.WellFormed := by
  apply runEvents_invariant_of_step (I := fun h : Host => h.ledger.WellFormed)
  · exact fun h e hwf => wellFormed_step hwf
  · exact wellFormed_start world hash require2fa

/-- The scope fields of an authorized connection are the ones of its kind. -/
structure KindShown (l : Ledger) : Prop where
  fileTransfer : l.login.authedConnId = some .fileTransfer → l.login.fileTransfer.isSome = true
  viewCamera : l.login.authedConnId = some .viewCamera → l.login.viewCamera = true
  terminal : l.login.authedConnId = some .terminal → l.login.terminal = true

theorem kindShown_of_grants (hgrants : Grants env l l' g marks) : KindShown l' := by
  have hkind := hgrants.kind
  unfold kindWith at hkind
  refine ⟨fun h => ?_, fun h => ?_, fun h => ?_⟩ <;> rw [hgrants.login] at h ⊢ <;>
    rw [Option.some.inj h] at hkind <;> split_ifs at hkind <;> assumption

theorem kindShown_step (hshown : h.conn.authorized = true → KindShown h.ledger) :
    (h.step env e).conn.authorized = true → KindShown (h.step env e).ledger := by
  refine step_ledger_invariant (I := fun l => l.login.authorized = true → KindShown l) hshown ?_
  intro l' _ hreaction hgranted
  cases hreaction.authorized hgranted with
  | before hauth hlogin =>
    have hkept := hshown hauth
    refine ⟨?_, ?_, ?_⟩ <;> rw [hlogin]
    · exact hkept.fileTransfer
    · exact hkept.viewCamera
    · exact hkept.terminal
  | granted _ _ hgrants hlogin =>
    have hkept := kindShown_of_grants hgrants
    refine ⟨?_, ?_, ?_⟩ <;> rw [hlogin]
    · exact hkept.fileTransfer
    · exact hkept.viewCamera
    · exact hkept.terminal

end Host

end UnyDesk
