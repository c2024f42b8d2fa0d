import UnyDesk.Connection.Reachable

/-!
# What the user approves

The connection manager shows the last request that was announced to it, and the click of the
user accepts whatever is stored. Some requests are stored without an announcement: a throttled
one, one whose desktop could not be started, and the one that comes with a switch-sides response
with a wrong uuid. After such a request the user looks at one peer and accepts another.

As long as the requests that pass in silence repeat what is on the screen, the click grants what
the user sees.
-/

namespace UnyDesk

open Lib LoginRequest Host

section

variable (lr : LoginRequest)

namespace LoginRequest

def asksFileTransfer : Bool :=
  match lr.union with
  | some (.fileTransfer _ _) => true
  | _ => false

def asksViewCamera : Bool := lr.union = some .viewCamera

def asksTerminal : Bool :=
  match lr.union with
  | some (.terminal _) => true
  | _ => false

/-- The address of a port forward as it is announced, empty when there is none. -/
def announcedAddress : String := lr.tunnelTarget.getD ""

end LoginRequest

end

namespace CmLogin

/-- The kind of session on the screen. -/
def kind (login : CmLogin) : AuthConnType :=
  if login.isFileTransfer then .fileTransfer
  else if login.portForward ≠ "" then .portForward
  else if login.isViewCamera then .viewCamera
  else if login.isTerminal then .terminal
  else .remote

/-- The request has the peer and the address on the screen. -/
def showsPeer (login : CmLogin) (lr : LoginRequest) : Bool :=
  login.peerId = lr.myId && login.name = lr.myName && login.portForward = lr.announcedAddress

/-- The request asks for the kind of session on the screen. -/
def showsKind (login : CmLogin) (lr : LoginRequest) : Bool :=
  login.isFileTransfer = lr.asksFileTransfer && login.isViewCamera = lr.asksViewCamera
    && login.isTerminal = lr.asksTerminal

end CmLogin

/-- The session is the one on the screen. -/
structure CmLogin.Effective (login : CmLogin) (c : Connection) : Prop where
  peerId : c.lr.myId = login.peerId
  name : c.lr.myName = login.name
  kind : c.authedConnId = some login.kind
  portForward : c.portForwardSocket = if login.portForward = "" then none else some login.portForward

/-- The user can only accept a request on the screen, and a request that passes in silence does
not change what is on it. -/
def approvalGuard (env : Env) (h : Host) (e : Event) : Bool :=
  let shown := lastLogin h.toCm
  !h.alive || h.conn.authorized || match e with
    | .authorize => shown.isSome
    | .message (.loginRequest lr) =>
      !silentLogin env h lr || shown.all fun login => login.showsPeer lr && login.showsKind lr
    | .message (.switchSidesResponse s) =>
      match switchTaken env s with
      | some lr => switchUuidMatches h.world lr s.uuid || shown.all (·.showsPeer lr)
      | none => true
    | _ => true

/-- A waiting connection holds the request on the screen. -/
structure OnScreen (l : Ledger) (login : CmLogin) : Prop where
  fileTransfer : login.isFileTransfer = l.login.fileTransfer.isSome
  viewCamera : login.isViewCamera = l.login.viewCamera
  terminal : login.isTerminal = l.login.terminal
  peer : login.showsPeer l.login.lr = true

structure ApprovalInvariant (l : Ledger) : Prop where
  wellFormed : l.WellFormed
  onScreen : l.login.authorized = false → l.alive = true → ∀ login, l.lastLogin = some login → OnScreen l login

section Steps

variable {env : Env} {h : Host} {e : Event} {l l' : Ledger} {lr : LoginRequest} {login : CmLogin} {c : Connection}

theorem OnScreen.sameScope (hscreen : OnScreen l login) (hsame : SameScope l l') : OnScreen l' login := by
  refine ⟨?_, ?_, ?_, ?_⟩
  · rw [hsame.fileTransfer]
    exact hscreen.fileTransfer
  · rw [hsame.viewCamera]
    exact hscreen.viewCamera
  · rw [hsame.terminal]
    exact hscreen.terminal
  · rw [hsame.lr]
    exact hscreen.peer

/-- The scope of a request that was just selected. -/
theorem select_scope (lr : LoginRequest) : (l.resetScope.select lr).login.fileTransfer.isSome = lr.asksFileTransfer ∧
      (l.resetScope.select lr).login.viewCamera = lr.asksViewCamera ∧
      (l.resetScope.select lr).login.terminal = lr.asksTerminal ∧
      (l.resetScope.select lr).login.portForwardAddress = lr.announcedAddress := by
  unfold Ledger.select asksFileTransfer asksViewCamera asksTerminal announcedAddress tunnelTarget
  cases hunion : lr.union with
  | none => exact ⟨rfl, rfl, rfl, rfl⟩
  | some union => cases union <;> exact ⟨rfl, rfl, rfl, rfl⟩

theorem onScreen_select (hlr : l.login.lr = lr) (hpeer : login.showsPeer lr = true)
    (hkind : login.showsKind lr = true) : OnScreen (l.resetScope.select lr) login := by
  obtain ⟨hft, hvc, hterminal, -⟩ := select_scope (l := l) lr
  simp only [CmLogin.showsKind, Bool.and_eq_true, decide_eq_true_eq] at hkind
  refine ⟨hkind.1.1.trans hft.symm, hkind.1.2.trans hvc.symm, hkind.2.trans hterminal.symm, ?_⟩
  rw [select_lr]
  change login.showsPeer l.login.lr = true
  rw [hlr]
  exact hpeer

/-- What is announced for a selected request is on the screen. -/
theorem Ledger.Shows.onScreen (hshows : l'.Shows login) (hlr : l.login.lr = lr)
    (hsame : SameScope (l.resetScope.select lr) l') : OnScreen l' login := by
  obtain ⟨-, -, -, haddress⟩ := select_scope (l := l) lr
  have hlr' : l'.login.lr = lr := hsame.lr.trans ((select_lr lr).trans hlr)
  refine ⟨hshows.fileTransfer, hshows.viewCamera, hshows.terminal, ?_⟩
  have hport : login.portForward = lr.announcedAddress :=
    hshows.portForward.trans (hsame.portForwardAddress.trans haddress)
  have hpeerId := hshows.peerId
  have hname := hshows.name
  rw [hlr'] at hpeerId hname
  simp [CmLogin.showsPeer, hlr', hpeerId, hname, hport]

theorem Stored.onScreen (hstored : Stored l lr l') (hscreen : OnScreen l login)
    (hpeer : login.showsPeer lr = true) : OnScreen l' login := by
  cases hstored <;> exact ⟨hscreen.fileTransfer, hscreen.viewCamera, hscreen.terminal, hpeer⟩

/-- A waiting connection keeps what is on the screen. -/
theorem Pending.onScreen (hpending : Pending env h e l') (hguard : approvalGuard env h e = true)
    (halive : h.alive = true) (hauth : h.conn.authorized = false)
    (hscreen : ∀ login, h.ledger.lastLogin = some login → OnScreen h.ledger login) :
    ∀ login, l'.lastLogin = some login → OnScreen l' login := by
  intro login hlast
  cases hpending with
  | kept hkept =>
    rw [hkept.lastLogin] at hlast
    exact (hscreen login hlast).sameScope hkept.sameScope
  | worldChange w => exact (hscreen login hlast).sameScope ⟨rfl, rfl, rfl, rfl, rfl, rfl⟩
  | @silent lr l l' hstored hsilent heq =>
    have hlast' : lastLogin h.toCm = some login := by
      have hselect : (l.resetScope.select lr).lastLogin = h.ledger.lastLogin :=
        (select_lastLogin lr).trans hstored.lastLogin_eq
      rcases heq with rfl | ⟨method, rfl⟩
      · exact hselect.symm.trans hlast
      · exact hselect.symm.trans hlast
    have hshows : login.showsPeer lr = true ∧ login.showsKind lr = true := by
      simpa [approvalGuard, halive, hauth, hsilent, hlast'] using hguard
    have hselected := onScreen_select hstored.lr_eq hshows.1 hshows.2
    rcases heq with rfl | ⟨method, rfl⟩
    · exact hselected
    · exact hselected.sameScope ⟨rfl, rfl, rfl, rfl, rfl, rfl⟩
  | asked hstored hasked hshows =>
    obtain rfl : _ = login := Option.some.inj hlast
    exact (hshows.onScreen hstored.lr_eq hasked.sameScope).sameScope ⟨rfl, rfl, rfl, rfl, rfl, rfl⟩
  | @switchUnmatched _ lr _ htaken hmatch hstored =>
    have hlast' : lastLogin h.toCm = some login := hstored.lastLogin_eq.symm.trans hlast
    have hpeer : login.showsPeer lr = true := by
      simpa [approvalGuard, halive, hauth, htaken, hmatch, hlast'] using hguard
    exact hstored.onScreen (hscreen login hlast') hpeer

theorem ApprovalInvariant.step (hinv : ApprovalInvariant h.ledger) (hguard : approvalGuard env h e = true) :
    ApprovalInvariant (h.step env e).ledger := by
  refine step_ledger_invariant hinv fun l' halive hreaction => ?_
  refine ⟨wellFormed_reaction halive hinv.wellFormed hreaction, fun hauth' halive' => ?_⟩
  have hauth := hreaction.unauthorized_before hauth'
  exact (hreaction.pending hauth' halive').onScreen hguard halive hauth (hinv.onScreen hauth halive)

theorem normalizePortForwardTarget_ne_empty (pf : PortForward) : (normalizePortForwardTarget pf).1 ≠ "" := by
  unfold normalizePortForwardTarget
  simp

/-- The announced address is the tunnel of the request. -/
theorem tunnelTarget_eq (lr : LoginRequest) :
    lr.tunnelTarget = if lr.announcedAddress = "" then none else some lr.announcedAddress := by
  unfold announcedAddress tunnelTarget
  split
  · next pf _ => simp [normalizePortForwardTarget_ne_empty pf]
  · simp

/-- A grant for the request on the screen is what the screen says. -/
theorem Grants.effective {g : Grant} {marks : List Mark} (hgrants : Grants env l l' g marks)
    (hclosed : l.socket = none) (hscreen : OnScreen l login) (hstate : c.loginState = l'.login)
    (hsocket : c.portForwardSocket = l'.socket) : login.Effective c := by
  have hlogin := hstate.trans hgrants.login
  have hpeer := hscreen.peer
  simp only [CmLogin.showsPeer, Bool.and_eq_true, decide_eq_true_eq] at hpeer
  obtain ⟨⟨hpeerId, hname⟩, haddress⟩ := hpeer
  have hlr : c.lr = l.login.lr := congrArg LoginState.lr hlogin
  have hport : g.portForwardSocket = if login.portForward = "" then none else some login.portForward := by
    rw [hgrants.socket, hclosed, Option.none_or, tunnelTarget_eq, haddress]
  have hkind : g.kind = login.kind := by
    rw [hgrants.kind, hport]
    unfold Ledger.kindWith CmLogin.kind
    rw [← hscreen.fileTransfer, ← hscreen.viewCamera, ← hscreen.terminal]
    by_cases hempty : login.portForward = "" <;> simp [hempty]
  refine ⟨?_, ?_, ?_, ?_⟩
  · rw [hlr, hpeerId]
  · rw [hlr, hname]
  · exact (congrArg LoginState.authedConnId hlogin).trans (congrArg some hkind)
  · exact hsocket.trans (hgrants.openSocket.trans hport)

/-- A click that authorizes the connection grants what is on the screen. -/
theorem Reaction.effective (hreaction : Reaction env h .authorize l')
    (hauth : h.conn.authorized = false) (hgranted : l'.login.authorized = true)
    (hclosed : h.conn.portForwardSocket = none) (hscreen : OnScreen h.ledger login)
    (hstate : c.loginState = l'.login) (hsocket : c.portForwardSocket = l'.socket) :
    login.Effective c := by
  cases hreaction with
  | kept hkept =>
    rw [hkept.login] at hgranted
    exact Bool.noConfusion (hauth.symm.trans hgranted)
  | @authorize l _ keep _ hlogon hloop =>
    rw [hloop.login_eq] at hstate hgranted
    rw [hloop.socket_eq] at hsocket
    cases keep with
    | false => exact Bool.noConfusion (hlogon.refused_of_false.authorized.symm.trans hgranted)
    | true =>
      obtain ⟨g, marks, hgrants⟩ := hlogon.exists_grants hgranted hauth
      have hclicked : OnScreen h.ledger.clicked login := hscreen.sameScope ⟨rfl, rfl, rfl, rfl, rfl, rfl⟩
      exact hgrants.effective hclosed hclicked hstate hsocket
  | authorizeAgain hbefore _ => exact Bool.noConfusion (hauth.symm.trans hbefore)

end Steps

/-- What the user approves is what is granted, in every run in which the user only accepts what
is on the screen and the requests that pass in silence repeat it. -/
theorem approved_is_granted (env : Env) (world : World) (hash : HashMsg) (require2fa : Option Bytes)
    (events : List Event)
    (hguard : RunMeets (step env) (fun h e => approvalGuard env h e = true)
      (start env world hash require2fa) (events ++ [.authorize])) :
    let h := (start env world hash require2fa).run env events
    let h' := h.step env .authorize
    h.conn.authorized = false → h'.conn.authorized = true →
      ∃ login, lastLogin h.toCm = some login ∧ login.Effective h'.conn := by
  intro h h' hauth hgranted
  have hstart : ApprovalInvariant (start env world hash require2fa).ledger := by
    refine ⟨wellFormed_start world hash require2fa, fun _ _ login hlast => ?_⟩
    rw [start_ledger] at hlast
    cases hlast
  obtain ⟨hrun, hclick⟩ := runMeets_append.mp hguard
  have hinv : ApprovalInvariant h.ledger :=
    runEvents_invariant (I := fun h : Host => ApprovalInvariant h.ledger) (fun _ _ hinv hok => hinv.step hok)
      hstart hrun
  have halive : h.alive = true := by
    by_contra hdead
    simp [h', step, hdead, hauth] at hgranted
  have hshown : (lastLogin h.toCm).isSome = true := by
    have hclick : approvalGuard env h .authorize = true := hclick.1
    simpa [approvalGuard, halive, hauth] using hclick
  obtain ⟨login, hlast⟩ := Option.isSome_iff_exists.mp hshown
  have hreact : h' = h.react env .authorize := if_pos halive
  have hreaction := react_reaction env h .authorize
  rw [← hreact] at hreaction
  refine ⟨login, hlast, ?_⟩
  exact hreaction.effective hauth hgranted (hinv.wellFormed.socket hauth halive)
    (hinv.onScreen hauth halive login hlast) rfl rfl

/-- A port forward that the user accepts. -/
theorem approved_is_granted_port_forward :
    let lr := { sampleRequest with union := some (.portForward { host := "10.0.0.9", port := 22 }) }
    let h := (start sampleEnv sampleWorld sampleHash none).run sampleEnv [.message (.loginRequest lr)]
    let h' := h.step sampleEnv .authorize
    h'.conn.portForwardSocket = some "10.0.0.9:22" ∧ ∃ login, lastLogin h.toCm = some login ∧ login.Effective h'.conn :=
  ⟨by decide, approved_is_granted sampleEnv sampleWorld sampleHash none [_] (by decide) (by decide) (by decide)⟩

/-- The user is shown one peer and accepts another, whose switch-sides response had a wrong uuid. -/
theorem click_accepts_unseen_peer :
    let other := { sampleRequest with myId := "300", myName := "other" }
    let h := (start sampleEnv sampleWorld sampleHash none).run sampleEnv
      [.message (.loginRequest sampleRequest), .message (.switchSidesResponse { uuid := [], lr := some other })]
    let h' := h.step sampleEnv .authorize
    h.conn.authorized = false ∧ h'.conn.authorized = true ∧
      (lastLogin h.toCm).map (fun login => (login.peerId, login.name)) = some ("200", "peer") ∧
      (h'.conn.lr.myId, h'.conn.lr.myName) = ("300", "other") := by
  decide

end UnyDesk
