import UnyDesk.Lib.Machine

/-!
# Simulations

A second machine follows a run of the first one when it answers every event with events of its own
and a relation between the two states is kept. What the relation says holds after every run. The steps
of the first machine may be admitted by a condition.
-/

namespace UnyDesk.Lib

variable {S T E F : Type*} {ok : S → E → Prop} {step : S → E → S} {R : S → T → Prop} {es : List E} {step' : T → E → T}

/-- What the second machine does during a run of the first. -/
def followed (step : S → E → S) (answer : S → E → List F) : S → List E → List F
  | _, [] => []
  | s, e :: es => answer s e ++ followed step answer (step s e) es

/-- The simulation rule: a relation that survives every admitted step and its answer relates the
states after every run. -/
theorem runEvents_simulation {step' : T → F → T} {answer : S → E → List F}
    (hstep : ∀ s t e, R s t → ok s e → R (step s e) (runEvents step' t (answer s e)))
    {s : S} {t : T} (hs : R s t) (hrun : RunMeets step ok s es) :
    R (runEvents step s es) (runEvents step' t (followed step answer s es)) := by
  induction es generalizing s t with
  | nil => exact hs
  | cons e es ih =>
    rw [followed, runEvents_append]
    exact ih (hstep s t e hs hrun.1) hrun.2

/-- The simulation rule for machines that take the same events. -/
theorem runEvents_lockstep
    (hstep : ∀ s t e, R s t → ok s e → R (step s e) (step' t e)) {s : S} {t : T} (hs : R s t)
    (hrun : RunMeets step ok s es) : R (runEvents step s es) (runEvents step' t es) := by
  induction es generalizing s t with
  | nil => exact hs
  | cons e es ih => exact ih (hstep s t e hs hrun.1) hrun.2

/-- Conditions that agree on related states are met by the same runs. -/
theorem runMeets_lockstep {ok' : T → E → Prop} (hstep : ∀ s t e, R s t → R (step s e) (step' t e))
    (hiff : ∀ s t e, R s t → (ok s e ↔ ok' t e)) {s : S} {t : T} (hs : R s t) :
    RunMeets step ok s es ↔ RunMeets step' ok' t es := by
  induction es generalizing s t with
  | nil => exact Iff.rfl
  | cons e es ih => exact and_congr (hiff s t e hs) (ih (hstep s t e hs))

end UnyDesk.Lib
