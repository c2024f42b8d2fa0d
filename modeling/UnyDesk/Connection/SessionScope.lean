import UnyDesk.Connection.Reachable

/-!
# Permission for the granted kind

The permission of a kind of session is checked when a login request selects it. What is granted
later is decided from the scope fields and, for a port forward, from the stored request. A
switch-sides response replaces the stored request without any check, so a port forward that
comes with it opens a connection to an address of the peer's choice without the permission.

As long as no such response is taken up, every grant has the permission of its kind.
-/

namespace UnyDesk

open Lib Ledger LoginRequest Host

def Mark.isScopeReset : Mark → Bool
  | .scopeReset => true
  | _ => false

def Mark.isPermission (option : String) : Mark → Bool
  | .permissionHeld held => held = option
  | _ => false

/-- The permission was checked and held for the login request that selected the scope. -/
def scopePermitted (option : String) (trail : List Mark) : Bool :=
  heldSince Mark.isScopeReset (Mark.isPermission option) trail

/-- The tunnel permission was checked and held for the request that is stored. -/
def tunnelPermitted (trail : List Mark) : Bool :=
  heldSince Mark.isLoginStored (Mark.isPermission keys.optionEnableTunnel) trail

/-- The permission that a grant needs, among the decisions before it. -/
structure ScopePermitted (g : Grant) (earlier : List Mark) : Prop where
  fileTransfer : g.kind = .fileTransfer → scopePermitted keys.optionEnableFileTransfer earlier = true
  viewCamera : g.kind = .viewCamera → scopePermitted keys.optionEnableCamera earlier = true
  terminal : g.kind = .terminal → scopePermitted keys.optionEnableTerminal earlier = true
  portForward : g.kind = .portForward ∨ g.portForwardSocket.isSome = true → tunnelPermitted earlier = true

/-- No switch-sides response that asks for a port forward is taken up by a waiting connection. -/
def scopeGuard (env : Env) (h : Host) (e : Event) : Bool :=
  !h.alive || h.conn.authorized || match e with
    | .message (.switchSidesResponse s) => ((switchTaken env s).bind (·.tunnelTarget)).isNone
    | _ => true

/-- The permissions that the scope of a waiting connection stands on. -/
structure ScopeHeld (l : Ledger) : Prop where
  fileTransfer : l.login.fileTransfer.isSome = true → scopePermitted keys.optionEnableFileTransfer l.trail = true
  viewCamera : l.login.viewCamera = true → scopePermitted keys.optionEnableCamera l.trail = true
  terminal : l.login.terminal = true → scopePermitted keys.optionEnableTerminal l.trail = true
  tunnel : l.login.lr.tunnelTarget.isSome = true → tunnelPermitted l.trail = true

structure ScopeInvariant (l : Ledger) : Prop where
  wellFormed : l.WellFormed
  grants : GrantsJustified ScopePermitted l.trail
  held : l.login.authorized = false → l.alive = true → ScopeHeld l

section Steps

variable {env : Env} {h : Host} {e : Event} {l l' : Ledger} {lr : LoginRequest} {marks trail : List Mark}

theorem Mark.not_isScopeReset_of_isProof {m : Mark} (h : m.isProof = true) : m.isScopeReset = false := by
  cases m <;> first | rfl | cases h

theorem scopePermitted_append {option : String}
    (hproofs : ∀ m ∈ marks, m.isProof = true) (h : scopePermitted option trail = true) :
    scopePermitted option (marks ++ trail) = true :=
  heldSince_append (fun m hm => Mark.not_isScopeReset_of_isProof (hproofs m hm)) h

theorem tunnelPermitted_append (hproofs : ∀ m ∈ marks, m.isProof = true)
    (h : tunnelPermitted trail = true) : tunnelPermitted (marks ++ trail) = true :=
  heldSince_append (fun m hm => Mark.not_isLoginStored_of_isProof (hproofs m hm)) h

/-- Factors and terminal users do not touch the permissions. -/
theorem ScopeHeld.proofs (hheld : ScopeHeld l) (marks : List Mark) (htrail : l'.trail = marks ++ l.trail)
    (hproofs : ∀ m ∈ marks, m.isProof = true) (hsame : SameScope l l') : ScopeHeld l' := by
  refine ⟨fun h => ?_, fun h => ?_, fun h => ?_, fun h => ?_⟩ <;> rw [htrail]
  · exact scopePermitted_append hproofs (hheld.fileTransfer (hsame.fileTransfer ▸ h))
  · exact scopePermitted_append hproofs (hheld.viewCamera (hsame.viewCamera ▸ h))
  · exact scopePermitted_append hproofs (hheld.terminal (hsame.terminal ▸ h))
  · exact tunnelPermitted_append hproofs (hheld.tunnel (hsame.lr ▸ h))

/-- One more factor does not touch the permissions. -/
theorem ScopeHeld.proof {m : Mark} (hheld : ScopeHeld l) (hm : m.isProof = true)
    (htrail : l'.trail = m :: l.trail) (hsame : SameScope l l') : ScopeHeld l' :=
  hheld.proofs [m] htrail (by simp [hm]) hsame

/-- A scope that was just selected stands on the permission of its kind. -/
theorem scopeHeld_select (hlr : l.login.lr = lr) : ScopeHeld (l.resetScope.select lr) := by
  have hunset : ∀ {P : Prop}, false = true → P := fun hfalse => by cases hfalse
  unfold select
  cases hunion : lr.union with
  | none =>
    refine ⟨hunset, hunset, hunset, fun h => ?_⟩
    simp [resetScope, tunnelTarget, hlr, hunion] at h
  | some union =>
    cases union with
    | fileTransfer dir showHidden =>
      refine ⟨fun _ => ?_, hunset, hunset, fun h => ?_⟩
      · exact heldSince_cons_of_test rfl rfl
      · simp [resetScope, tunnelTarget, hlr, hunion, push] at h
    | portForward pf =>
      refine ⟨hunset, hunset, hunset, fun _ => ?_⟩
      exact heldSince_cons_of_test rfl rfl
    | viewCamera =>
      refine ⟨hunset, fun _ => ?_, hunset, fun h => ?_⟩
      · exact heldSince_cons_of_test rfl rfl
      · simp [resetScope, tunnelTarget, hlr, hunion, push] at h
    | terminal serviceId =>
      refine ⟨hunset, hunset, fun _ => ?_, fun h => ?_⟩
      · exact heldSince_cons_of_test rfl rfl
      · simp [resetScope, tunnelTarget, hlr, hunion, push] at h

/-- A request that is only stored keeps the scope; without a port forward it needs no tunnel. -/
theorem Stored.scopeHeld (hstored : Stored l lr l') (hheld : ScopeHeld l) (htarget : lr.tunnelTarget = none) :
    ScopeHeld l' := by
  cases hstored with
  | kept =>
    refine ⟨fun h => heldSince_cons rfl (hheld.fileTransfer h), fun h => heldSince_cons rfl (hheld.viewCamera h),
      fun h => heldSince_cons rfl (hheld.terminal h), fun h => ?_⟩
    change lr.tunnelTarget.isSome = true at h
    simp [htarget] at h
  | waived _ =>
    refine ⟨fun h => heldSince_cons rfl (heldSince_cons rfl (hheld.fileTransfer h)),
      fun h => heldSince_cons rfl (heldSince_cons rfl (hheld.viewCamera h)),
      fun h => heldSince_cons rfl (heldSince_cons rfl (hheld.terminal h)), fun h => ?_⟩
    change lr.tunnelTarget.isSome = true at h
    simp [htarget] at h

theorem tunnelTarget_of_guard {s : SwitchSidesResponse} (htaken : switchTaken env s = some lr)
    (hguard : scopeGuard env h (.message (.switchSidesResponse s)) = true) (halive : h.alive = true)
    (hauth : h.conn.authorized = false) : lr.tunnelTarget = none := by
  simpa [scopeGuard, halive, hauth, htaken] using hguard

theorem Pending.scopeHeld (hpending : Pending env h e l') (hguard : scopeGuard env h e = true)
    (halive : h.alive = true) (hauth : h.conn.authorized = false) (hheld : ScopeHeld h.ledger) :
    ScopeHeld l' := by
  cases hpending with
  | kept hkept =>
    exact hheld.proofs [] hkept.trail (by simp) hkept.sameScope
  | worldChange w => exact ⟨hheld.fileTransfer, hheld.viewCamera, hheld.terminal, hheld.tunnel⟩
  | silent hstored _ heq =>
    have hselected := scopeHeld_select hstored.lr_eq
    rcases heq with rfl | ⟨method, rfl⟩
    · exact hselected
    · exact hselected.proof rfl rfl ⟨rfl, rfl, rfl, rfl, rfl, rfl⟩
  | asked hstored hasked _ =>
    obtain ⟨marks, htrail, hproofs⟩ := hasked.exists_proofs
    exact (scopeHeld_select hstored.lr_eq).proofs marks htrail hproofs (hasked.sameScope.announce _)
  | switchUnmatched htaken _ hstored =>
    exact hstored.scopeHeld hheld (tunnelTarget_of_guard htaken hguard halive hauth)

/-- The ledgers that a logon starts from stand on their permissions. -/
theorem GrantBase.scopeHeld (hbase : GrantBase env h e l) (hguard : scopeGuard env h e = true)
    (halive : h.alive = true) (hauth : h.conn.authorized = false) (hheld : ScopeHeld h.ledger) :
    ScopeHeld l := by
  cases hbase with
  | login method hstored =>
    exact (scopeHeld_select hstored.lr_eq).proof rfl rfl ⟨rfl, rfl, rfl, rfl, rfl, rfl⟩
  | auth2fa _ => exact hheld.proof rfl rfl ⟨rfl, rfl, rfl, rfl, rfl, rfl⟩
  | switch htaken _ hstored =>
    have hswitched := hstored.scopeHeld hheld (tunnelTarget_of_guard htaken hguard halive hauth)
    exact hswitched.proof rfl rfl ⟨rfl, rfl, rfl, rfl, rfl, rfl⟩
  | authorize => exact hheld.proof rfl rfl ⟨rfl, rfl, rfl, rfl, rfl, rfl⟩

/-- The kind of a grant is read off the scope, so it has the permission that the scope stands on. -/
theorem Grants.scopePermitted {g : Grant} {marks : List Mark} (hgrants : Grants env l l' g marks)
    (hclosed : l.socket = none) (hheld : ScopeHeld l) : ScopePermitted g (marks ++ l.trail) := by
  have hkind := hgrants.kind
  have hsocket : g.portForwardSocket = l.login.lr.tunnelTarget := by simpa [hclosed] using hgrants.socket
  unfold kindWith at hkind
  refine ⟨fun h => ?_, fun h => ?_, fun h => ?_, fun h => ?_⟩
  · refine scopePermitted_append hgrants.proofs (hheld.fileTransfer ?_)
    rw [h] at hkind
    split_ifs at hkind
    assumption
  · refine scopePermitted_append hgrants.proofs (hheld.viewCamera ?_)
    rw [h] at hkind
    split_ifs at hkind
    assumption
  · refine scopePermitted_append hgrants.proofs (hheld.terminal ?_)
    rw [h] at hkind
    split_ifs at hkind
    assumption
  · refine tunnelPermitted_append hgrants.proofs (hheld.tunnel ?_)
    rw [← hsocket]
    rcases h with h | h
    · rw [h] at hkind
      split_ifs at hkind
      assumption
    · exact h

theorem ScopeInvariant.step (hinv : ScopeInvariant h.ledger) (hguard : scopeGuard env h e = true) :
    ScopeInvariant (h.step env e).ledger := by
  refine step_ledger_invariant hinv fun l' halive hreaction => ?_
  refine ⟨wellFormed_reaction halive hinv.wellFormed hreaction, ?_, fun hauth' halive' => ?_⟩
  · refine hreaction.justified hinv.grants fun hauth l l' g marks hbase hgrants => ?_
    have hclosed : l.socket = none := hbase.socket_eq.trans (hinv.wellFormed.socket hauth halive)
    exact hgrants.scopePermitted hclosed (hbase.scopeHeld hguard halive hauth (hinv.held hauth halive))
  · have hpending := hreaction.pending hauth' halive'
    have hauth := hreaction.unauthorized_before hauth'
    exact hpending.scopeHeld hguard halive hauth (hinv.held hauth halive)

end Steps

/-- In every run in which no switch-sides response with a port forward is taken up before the
authorization, an authorized connection has the kind and the port of a grant before which the
permission of that kind was checked and held. -/
theorem session_scope_permitted (env : Env) (world : World) (hash : HashMsg) (require2fa : Option Bytes)
    (events : List Event)
    (hguard : RunMeets (step env) (fun h e => scopeGuard env h e = true) (start env world hash require2fa) events) :
    let h := (start env world hash require2fa).run env events
    h.conn.authorized = true → ∃ later g earlier, h.trail = later ++ .granted g :: earlier ∧
      h.conn.authedConnId = some g.kind ∧
      (h.conn.portForwardSocket.isSome = true → g.portForwardSocket = h.conn.portForwardSocket) ∧
      ScopePermitted g earlier := by
  intro h hauth
  have hstart : ScopeInvariant (start env world hash require2fa).ledger := by
    refine ⟨wellFormed_start world hash require2fa, ?_, fun _ _ => ?_⟩
    · rw [start_ledger]
      trivial
    · rw [start_ledger]
      exact ⟨nofun, nofun, nofun, nofun⟩
  have hinv : ScopeInvariant h.ledger :=
    runEvents_invariant (I := fun h : Host => ScopeInvariant h.ledger) (fun _ _ hinv hok => hinv.step hok) hstart hguard
  obtain ⟨g, hmem, hkind, hport⟩ := hinv.wellFormed.granted hauth
  obtain ⟨later, earlier, htrail⟩ := List.append_of_mem hmem
  refine ⟨later, g, earlier, htrail, hkind, fun hopen => ?_, ?_⟩
  · rcases hport with hnone | hsame
    · have hclosed : h.conn.portForwardSocket = none := hnone
      simp [hclosed] at hopen
    · exact hsame.symm
  · exact justified_iff.mp hinv.grants later _ earlier htrail g rfl

/-- A file transfer that the user accepts. -/
theorem session_scope_permitted_file_transfer :
    let lr := { sampleRequest with union := some (.fileTransfer "/" false) }
    let h := (start sampleEnv sampleWorld sampleHash none).run sampleEnv [.message (.loginRequest lr), .authorize]
    h.conn.authedConnId = some .fileTransfer ∧
      ∃ later g earlier, h.trail = later ++ .granted g :: earlier ∧ h.conn.authedConnId = some g.kind ∧
        (h.conn.portForwardSocket.isSome = true → g.portForwardSocket = h.conn.portForwardSocket) ∧
        ScopePermitted g earlier :=
  ⟨by decide, session_scope_permitted sampleEnv sampleWorld sampleHash none _ (by decide) (by decide)⟩

/-- A host that forbids tunnels and asked the peer to switch sides. -/
def switchingWorld : World :=
  { sampleWorld with
    option := fun name => if name = keys.optionEnableTunnel then "N" else ""
    switchSidesUuid := [("200", 3600000, List.replicate 16 7)] }

/-- The answer to the switch of sides opens a port although tunnels are forbidden. -/
theorem switch_sides_opens_port :
    let lr := { sampleRequest with union := some (.portForward { host := "10.0.0.9", port := 22 }) }
    let h := (start sampleEnv switchingWorld sampleHash none).run sampleEnv
      [.message (.switchSidesResponse { uuid := List.replicate 16 7, lr := some lr })]
    h.conn.authorized = true ∧ h.conn.authedConnId = some .portForward ∧ h.conn.portForwardSocket = some "10.0.0.9:22" ∧
      permission sampleEnv.build switchingWorld.option sampleEnv.controlPermissions keys.optionEnableTunnel = false ∧
      ∃ g earlier, h.trail = .granted g :: earlier ∧ g.kind = .portForward ∧ ¬ScopePermitted g earlier := by
  refine ⟨by decide, by decide, by decide, by decide, _, _, rfl, rfl, ?_⟩
  intro hpermitted
  exact absurd (hpermitted.portForward (.inl rfl)) (by decide)

end UnyDesk
