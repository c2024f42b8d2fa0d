import UnyDesk.Connection.Reachable

/-!
# Authorization

When a connection is authorized, a primary factor should have been accepted for the stored
request and, where one is required, a second factor for the same identity. Two paths break
this. A right second-factor code authorizes whatever request is stored, also one for which no
primary factor was ever accepted. And the waiver of a trusted device outlives the request it
was given for, so that a later request of another identity needs no second factor.

In every run that takes neither path, the law holds of every grant.
-/

namespace UnyDesk

open Lib Ledger Mark Host

def Mark.isPrimaryAuth : Mark → Bool
  | .primaryAuth _ => true
  | _ => false

/-- A click of the user or a matching switch of sides takes the place of a second factor. -/
def Mark.replacesSecond : Mark → Bool
  | .primaryAuth .click => true
  | .primaryAuth .switchSides => true
  | _ => false

/-- A second factor that was accepted for this identity. -/
def Mark.isSecondFor (lr : LoginRequest) : Mark → Bool
  | .twoFactor _ peerId name => peerId = lr.myId && name = lr.myName
  | _ => false

/-- A primary factor was accepted for the request that is stored. -/
def primaryAccepted (trail : List Mark) : Bool := heldSince Mark.isLoginStored Mark.isPrimaryAuth trail

/-- The factors that a grant needs, among the decisions before it. -/
structure FactorsAccepted (required : Bool) (g : Grant) (earlier : List Mark) : Prop where
  primary : primaryAccepted earlier = true
  second : required = true → heldSince Mark.isLoginStored Mark.replacesSecond earlier = true ∨
    earlier.any (Mark.isSecondFor g.lr) = true

/-- A new request is of the stored identity, unless the second factor is still required. -/
def keepsIdentity (required : Bool) (h : Host) (lr : LoginRequest) : Bool :=
  !required || h.conn.require2fa.isSome || (lr.myId = h.conn.lr.myId && lr.myName = h.conn.lr.myName)

/-- The events that stay clear of the two paths: an accepted code finds its primary factor, and
once the second factor was waived the identity does not change. -/
def factorsGuard (env : Env) (required : Bool) (h : Host) (e : Event) : Bool :=
  !h.alive || h.conn.authorized || match e with
    | .message (.auth2fa tfa) => !auth2faAccepted env h tfa || primaryAccepted h.trail
    | .message (.loginRequest lr) => keepsIdentity required h lr
    | .message (.switchSidesResponse s) =>
      match switchTaken env s with
      | some lr => switchUuidMatches h.world lr s.uuid || keepsIdentity required h lr
      | none => true
    | _ => true

/-- A waiting connection that needs no second factor any more had one for its identity. -/
def SecondSettled (required : Bool) (l : Ledger) : Prop :=
  required = true → l.login.require2fa = none → l.trail.any (Mark.isSecondFor l.login.lr) = true

/-- What the guarded runs keep. -/
structure FactorsInvariant (required : Bool) (l : Ledger) : Prop where
  wellFormed : l.WellFormed
  grants : GrantsJustified (FactorsAccepted required) l.trail
  settled : l.login.authorized = false → l.alive = true → SecondSettled required l

section Steps

variable {env : Env} {required : Bool} {h : Host} {e : Event} {l l' : Ledger} {lr : LoginRequest} {marks : List Mark}

/-- The factors of a grant, from what was on record before the logon. -/
theorem Grants.factorsAccepted {g : Grant} (hgrants : Grants env l l' g marks)
    (hprimary : primaryAccepted l.trail = true)
    (hsecond : required = true → (l.login.require2fa = none ∨ l.login.fromSwitch = true) →
      heldSince isLoginStored replacesSecond l.trail = true ∨ l.trail.any (isSecondFor l.login.lr) = true) :
    FactorsAccepted required g (marks ++ l.trail) := by
  have hnotStored : ∀ m ∈ marks, m.isLoginStored = false :=
    fun m hm => not_isLoginStored_of_isProof (hgrants.proofs m hm)
  refine ⟨heldSince_append hnotStored hprimary, fun hrequired => ?_⟩
  have hpassed : (l.login.require2fa = none ∨ l.login.fromSwitch = true) ∨
      .twoFactor .totp l.login.lr.myId l.login.lr.myName ∈ marks := by
    rcases hgrants.second with hnone | hfrom | hmark
    · exact .inl (.inl hnone)
    · exact .inl (.inr hfrom)
    · exact .inr hmark
  rw [hgrants.lr, List.any_append]
  rcases hpassed with hfree | hmark
  · rcases hsecond hrequired hfree with hreplaced | hany
    · exact .inl (heldSince_append hnotStored hreplaced)
    · exact .inr (by rw [hany, Bool.or_true])
  · right
    rw [Bool.or_eq_true]
    exact .inl (List.any_eq_true.mpr ⟨_, hmark, by simp [isSecondFor]⟩)

theorem any_of_plainlyExtends {test : Mark → Bool} (hplain : PlainlyExtends l l')
    (h : l.trail.any test = true) : l'.trail.any test = true := by
  obtain ⟨marks, htrail, -⟩ := hplain
  rw [htrail, List.any_append, h, Bool.or_true]

/-- A stored request that needs no second factor any more had one for its identity. -/
theorem Stored.secondSettled (hstored : Stored h.ledger lr l) (hkeeps : keepsIdentity required h lr = true)
    (hsettled : SecondSettled required h.ledger) : SecondSettled required l := by
  intro hrequired hnone
  cases hstored with
  | kept =>
    have hnone' : h.conn.require2fa = none := hnone
    have hsame : lr.myId = h.conn.lr.myId ∧ lr.myName = h.conn.lr.myName := by
      simpa [keepsIdentity, hrequired, hnone'] using hkeeps
    have hany := hsettled hrequired hnone
    have htest : isSecondFor h.ledger.login.lr = isSecondFor lr := by
      funext m
      cases m <;> simp [isSecondFor, hsame]
    rw [htest] at hany
    exact any_of_plainlyExtends (l := h.ledger) (.cons rfl rfl) hany
  | waived _ =>
    simp [clear2fa, second, store, isSecondFor]

/-- More decisions on the trail keep it settled. -/
theorem SecondSettled.plainlyExtends (hsettled : SecondSettled required l) (hplain : PlainlyExtends l l')
    (hlr : l'.login.lr = l.login.lr) (hrequire : l'.login.require2fa = l.login.require2fa) :
    SecondSettled required l' := by
  intro hrequired hnone
  rw [hrequire] at hnone
  rw [hlr]
  exact any_of_plainlyExtends hplain (hsettled hrequired hnone)

theorem SecondSettled.select (hsettled : SecondSettled required l) (lr : LoginRequest) :
    SecondSettled required (l.resetScope.select lr) :=
  hsettled.plainlyExtends (plainlyExtends_select l lr) (select_lr lr) (select_require2fa lr)

/-- A waiting connection stays settled. -/
theorem Pending.secondSettled (hpending : Pending env h e l')
    (hguard : factorsGuard env required h e = true) (halive : h.alive = true)
    (hauth : h.conn.authorized = false) (hsettled : SecondSettled required h.ledger) :
    SecondSettled required l' := by
  cases hpending with
  | kept hkept =>
    refine hsettled.plainlyExtends (.of_eq hkept.trail) ?_ ?_
    · rw [hkept.login]
    · rw [hkept.login]
  | worldChange w => exact hsettled
  | @silent lr _ _ hstored _ heq =>
    have hkeeps : keepsIdentity required h lr = true := by simpa [factorsGuard, halive, hauth] using hguard
    have hselected := (hstored.secondSettled hkeeps hsettled).select lr
    rcases heq with rfl | ⟨method, rfl⟩
    · exact hselected
    · exact hselected.plainlyExtends (.cons rfl rfl) rfl rfl
  | @asked lr _ l' _ hstored hasked _ =>
    have hkeeps : keepsIdentity required h lr = true := by simpa [factorsGuard, halive, hauth] using hguard
    refine ((hstored.secondSettled hkeeps hsettled).select lr).plainlyExtends hasked.plainlyExtends ?_ ?_
    · change l'.login.lr = _
      rw [hasked.login_eq]
    · change l'.login.require2fa = _
      rw [hasked.login_eq]
  | @switchUnmatched _ lr _ htaken hmatch hstored =>
    have hkeeps : keepsIdentity required h lr = true := by
      simpa [factorsGuard, halive, hauth, htaken, hmatch] using hguard
    exact hstored.secondSettled hkeeps hsettled

/-- The four grants have their factors. -/
theorem GrantBase.factorsAccepted {g : Grant} (hbase : GrantBase env h e l)
    (hgrants : Grants env l l' g marks) (hguard : factorsGuard env required h e = true)
    (halive : h.alive = true) (hauth : h.conn.authorized = false)
    (hinv : FactorsInvariant required h.ledger) : FactorsAccepted required g (marks ++ l.trail) := by
  apply hgrants.factorsAccepted
  · cases hbase with
    | login method hstored => exact heldSince_cons_of_test rfl rfl
    | auth2fa haccepted =>
      have hprimary : primaryAccepted h.trail = true := by
        simpa [factorsGuard, halive, hauth, haccepted] using hguard
      exact heldSince_cons rfl hprimary
    | switch _ _ _ => exact heldSince_cons_of_test rfl rfl
    | authorize => exact heldSince_cons_of_test rfl rfl
  · intro hrequired hfree
    cases hbase with
    | @login lr _ method hstored =>
      have hkeeps : keepsIdentity required h lr = true := by simpa [factorsGuard, halive, hauth] using hguard
      have hsettled := (hstored.secondSettled hkeeps (hinv.settled hauth halive)).select lr
      have hswitch : h.conn.fromSwitch = false := hinv.wellFormed.fromSwitch hauth halive
      rcases hfree with hnone | hfrom
      · exact .inr (any_of_plainlyExtends (.cons rfl rfl) (hsettled hrequired hnone))
      · rw [push_login, select_fromSwitch] at hfrom
        exact absurd (hstored.fromSwitch_eq.symm.trans hfrom) (by simp [hswitch])
    | auth2fa _ => exact .inr (by simp [second, clear2fa, isSecondFor])
    | switch _ _ _ => exact .inl (heldSince_cons_of_test rfl rfl)
    | authorize => exact .inl (heldSince_cons_of_test rfl rfl)

theorem FactorsInvariant.step (hinv : FactorsInvariant required h.ledger)
    (hguard : factorsGuard env required h e = true) :
    FactorsInvariant required (h.step env e).ledger := by
  refine step_ledger_invariant hinv fun l' halive hreaction => ?_
  refine ⟨wellFormed_reaction halive hinv.wellFormed hreaction, ?_, fun hauth' halive' => ?_⟩
  · exact hreaction.justified hinv.grants fun hauth l l' g marks hbase hgrants =>
      hbase.factorsAccepted hgrants hguard halive hauth hinv
  · have hpending := hreaction.pending hauth' halive'
    have hauth := hreaction.unauthorized_before hauth'
    exact hpending.secondSettled hguard halive hauth (hinv.settled hauth halive)

end Steps

/-- Authorization is sound in every run that stays clear of the two paths. An authorized
connection has a grant on its trail, and before every grant a primary factor was accepted for
the request it is for and, if the connection was opened with one required, a second factor for
its identity, a click or a matching switch of sides. -/
theorem authorization_sound (env : Env) (world : World) (hash : HashMsg) (require2fa : Option Bytes)
    (events : List Event)
    (hguard : RunMeets (step env) (fun h e => factorsGuard env require2fa.isSome h e = true)
      (start env world hash require2fa) events) :
    let h := (start env world hash require2fa).run env events
    (h.conn.authorized = true → ∃ g, .granted g ∈ h.trail) ∧
      ∀ later g earlier, h.trail = later ++ .granted g :: earlier → FactorsAccepted require2fa.isSome g earlier := by
  intro h
  have hstart : FactorsInvariant require2fa.isSome (start env world hash require2fa).ledger := by
    refine ⟨wellFormed_start world hash require2fa, ?_, fun _ _ hrequired hnone => ?_⟩
    · rw [start_ledger]
      trivial
    · rw [start_ledger] at hnone
      simp [show require2fa = none from hnone] at hrequired
  have hinv : FactorsInvariant require2fa.isSome h.ledger :=
    runEvents_invariant (I := fun h : Host => FactorsInvariant require2fa.isSome h.ledger)
      (fun _ _ hinv hok => hinv.step hok) hstart hguard
  refine ⟨fun hauth => ?_, fun later g earlier htrail => ?_⟩
  · obtain ⟨g, hmem, -⟩ := hinv.wellFormed.granted hauth
    exact ⟨g, hmem⟩
  · exact justified_iff.mp hinv.grants later _ earlier htrail g rfl

/-- A click on an announced request, with a second factor required at the start. -/
theorem authorization_sound_click :
    let events := [.message (.loginRequest sampleRequest), .authorize]
    let h := (start sampleEnv sampleWorld sampleHash (some [1])).run sampleEnv events
    h.conn.authorized = true ∧ ∀ later g earlier, h.trail = later ++ .granted g :: earlier →
      FactorsAccepted true g earlier :=
  ⟨by decide, (authorization_sound sampleEnv sampleWorld sampleHash (some [1]) _ (by decide)).2⟩

/-- A right second-factor code as the first and only message authorizes the connection. -/
theorem code_alone_authorizes :
    let h := (start sampleEnv sampleWorld sampleHash (some [1])).run sampleEnv
      [.message (.auth2fa { code := "123456" })]
    h.conn.authorized = true ∧ ∃ g earlier, h.trail = .granted g :: earlier ∧ ¬FactorsAccepted true g earlier := by
  refine ⟨by decide, _, _, rfl, fun hfactors => ?_⟩
  exact absurd hfactors.primary (by decide)

end UnyDesk
