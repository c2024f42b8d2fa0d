import UnyDesk.Connection.Reachable

/-!
# One grant

A connection is granted one session at most. From then on it has the kind, the terminal user and the port of this grant,
whatever its peer and the connection manager send.
-/

namespace UnyDesk

open Lib Ledger

/-- The grants of a trail, the latest one first. -/
def grantsOf (trail : List Mark) : List Grant :=
  trail.filterMap fun
    | .granted g => some g
    | _ => none

/-- Nothing was granted yet. -/
def Ledger.Waits (l : Ledger) : Prop := l.login.authorized = false ∧ grantsOf l.trail = []

/-- The session is the one of the only grant. -/
structure Ledger.Runs (l : Ledger) (g : Grant) : Prop where
  authorized : l.login.authorized = true
  once : grantsOf l.trail = [g]
  kind : l.login.authedConnId = some g.kind
  user : l.login.terminalUserToken = g.terminalUserToken

variable {env : Env} {h : Host} {e : Event} {l l' : Ledger} {g : Grant} {marks : List Mark}

theorem grantsOf_eq_nil (hmarks : ∀ m ∈ marks, ∀ g, m ≠ .granted g) : grantsOf marks = [] := by
  apply List.filterMap_eq_nil_iff.mpr
  intro m hm
  cases m with
  | granted g => exact absurd rfl (hmarks _ hm g)
  | _ => rfl

theorem Grantless.grantsOf_eq (hless : Grantless l l') : grantsOf l'.trail = grantsOf l.trail := by
  obtain ⟨marks, htrail, hmarks⟩ := hless
  rw [htrail, grantsOf, List.filterMap_append]
  exact congrArg (· ++ grantsOf l.trail) (grantsOf_eq_nil hmarks)

theorem Grants.grantsOf_eq (hgrants : Grants env l l' g marks) : grantsOf l'.trail = g :: grantsOf l.trail := by
  have hproofs : ∀ m ∈ marks, ∀ g, m ≠ .granted g := by
    intro m hm g heq
    have hproof := hgrants.proofs m hm
    rw [heq] at hproof
    cases hproof
  have hrest : Grantless l { l with trail := marks ++ l.trail } := ⟨marks, rfl, hproofs⟩
  rw [hgrants.trail]
  exact congrArg (g :: ·) hrest.grantsOf_eq

/-- What an event does to a connection that waits: it waits on, or it has its grant. -/
theorem Reaction.waits (hreaction : Reaction env h e l') (hwaits : h.ledger.Waits) : l'.Waits ∨ ∃ g, l'.Runs g := by
  cases hreaction.outcome with
  | plain htrail hsame => exact .inl ⟨hsame.trans hwaits.1, htrail.grantsOf_eq.trans hwaits.2⟩
  | @granted l l₁ g marks _ hbase hgrants hlogin htrail =>
    have hnone : grantsOf l.trail = [] := hbase.plainlyExtends.grantless.grantsOf_eq.trans hwaits.2
    refine .inr ⟨g, ?_, ?_, ?_, ?_⟩
    · rw [hlogin, hgrants.login]
    · rw [htrail, hgrants.grantsOf_eq, hnone]
    · rw [hlogin, hgrants.login]
    · rw [hlogin, hgrants.login]

/-- No event grants a second session, or changes the first one. -/
theorem Reaction.runs (hreaction : Reaction env h e l') (hruns : h.ledger.Runs g) : l'.Runs g := by
  cases hreaction.outcome with
  | plain htrail hsame hlogin =>
    cases hlogin hruns.authorized with
    | before _ hsession =>
      refine ⟨hsame.trans hruns.authorized, htrail.grantsOf_eq.trans hruns.once, ?_, ?_⟩
      · rw [hsession]
        exact hruns.kind
      · rw [hsession]
        exact hruns.user
    | granted hauth => exact absurd hruns.authorized (ne_true_of_eq_false hauth)
  | granted hauth => exact absurd hruns.authorized (ne_true_of_eq_false hauth)

/-- At every point of every run of a connection nothing was granted yet, and no port is open while it lives; or one
session was, and then this grant stays the only one, and the session keeps its kind, its terminal user and, until it is
released, its port. -/
theorem Host.granted_once (env : Env) (world : World) (hash : HashMsg) (require2fa : Option Bytes) (events : List Event) :
    let h := (start env world hash require2fa).run env events
    h.ledger.Waits ∧ (h.alive = true → h.ledger.socket = none) ∨
      ∃ g, ∀ later, (h.run env later).ledger.Runs g ∧
        ((h.run env later).ledger.socket = none ∨ (h.run env later).ledger.socket = g.portForwardSocket) := by
  intro h
  have hrun : h.ledger.Waits ∨ ∃ g, h.ledger.Runs g := by
    apply runEvents_invariant_of_step (I := fun h : Host => h.ledger.Waits ∨ ∃ g, h.ledger.Runs g)
    · intro h e hor
      refine step_ledger_invariant (I := fun l => l.Waits ∨ ∃ g, l.Runs g) hor fun l' _ hreaction => ?_
      rcases hor with hwaits | ⟨g, hruns⟩
      · exact hreaction.waits hwaits
      · exact .inr ⟨g, hreaction.runs hruns⟩
    · rw [start_ledger]
      exact .inl ⟨rfl, rfl⟩
  rcases hrun with hwaits | ⟨g, hruns⟩
  · exact .inl ⟨hwaits, (wellFormed_run world hash require2fa events).socket hwaits.1⟩
  · refine .inr ⟨g, fun later => ?_⟩
    have hlater : (h.run env later).ledger.Runs g := by
      apply runEvents_invariant_of_step (I := fun h : Host => h.ledger.Runs g)
      · exact fun h e hruns => step_ledger_invariant hruns fun l' _ hreaction => hreaction.runs hruns
      · exact hruns
    have happend : h.run env later = (start env world hash require2fa).run env (events ++ later) :=
      (runEvents_append ..).symm
    have hshape : (h.run env later).ledger.WellFormed := by
      rw [happend]
      exact wellFormed_run world hash require2fa (events ++ later)
    obtain ⟨g', hmem, -, hsocket⟩ := hshape.granted hlater.authorized
    -- the grant of the port is the only one
    have honly : g' ∈ grantsOf (h.run env later).ledger.trail := List.mem_filterMap.mpr ⟨_, hmem, rfl⟩
    rw [hlater.once] at honly
    exact ⟨hlater, List.mem_singleton.mp honly ▸ hsocket⟩

end UnyDesk
