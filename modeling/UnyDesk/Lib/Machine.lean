import Mathlib.Data.List.Basic

/-!
# Runs and histories of reactive machines

A machine is a total step function; a run is a finite list of events. A guarded run is one
whose every event meets a condition in the state that receives it, so an invariant only has
to survive the steps that the condition admits.

A history lists what a machine did, newest entry first. It is justified when every entry is
supported by the entries that precede it in time.
-/

namespace UnyDesk.Lib

open List

variable {S E A : Type*} {ok : S → E → Prop} {I : S → Prop} {es : List E} {s : S} {P : A → List A → Prop}
  {test : A → Bool}

/-- The state reached by feeding a finite list of events to the machine. -/
def runEvents (step : S → E → S) : S → List E → S
  | s, [] => s
  | s, e :: es => runEvents step (step s e) es

theorem runEvents_append (step : S → E → S) (s : S) (es es' : List E) :
    runEvents step s (es ++ es') = runEvents step (runEvents step s es) es' := by
  induction es generalizing s with
  | nil => rfl
  | cons e es ih => exact ih (step s e)

/-- Every event of the run meets the condition in the state that receives it. -/
def RunMeets (step : S → E → S) (ok : S → E → Prop) : S → List E → Prop
  | _, [] => True
  | s, e :: es => ok s e ∧ RunMeets step ok (step s e) es

instance decidableRunMeets (step : S → E → S) (ok : S → E → Prop) [∀ s e, Decidable (ok s e)] :
    ∀ s es, Decidable (RunMeets step ok s es)
  | _, [] => .isTrue trivial
  | s, e :: es =>
    have := decidableRunMeets step ok (step s e) es
    inferInstanceAs (Decidable (ok s e ∧ RunMeets step ok (step s e) es))

section Guarded

variable {step : S → E → S} {ok ok' : S → E → Prop} {I P : S → Prop}

/-- A guarded run splits at every point. -/
theorem runMeets_append {es es' : List E} :
    RunMeets step ok s (es ++ es') ↔ RunMeets step ok s es ∧ RunMeets step ok (runEvents step s es) es' := by
  induction es generalizing s with
  | nil => simp [RunMeets, runEvents]
  | cons e es ih => simp only [cons_append, RunMeets, runEvents, ih, and_assoc]

/-- A run that meets two conditions meets both at once. -/
theorem runMeets_and (h : RunMeets step ok s es)
    (h' : RunMeets step ok' s es) : RunMeets step (fun s e => ok s e ∧ ok' s e) s es := by
  induction es generalizing s with
  | nil => trivial
  | cons e es ih => exact ⟨⟨h.1, h'.1⟩, ih h.2 h'.2⟩

/-- A condition on the events alone. -/
theorem runMeets_of_forall {P : E → Prop} (h : ∀ e ∈ es, P e) (s : S) : RunMeets step (fun _ e => P e) s es := by
  induction es generalizing s with
  | nil => trivial
  | cons e es ih => exact ⟨h e mem_cons_self, ih (fun e' he' => h e' (mem_cons_of_mem e he')) (step s e)⟩

/-- The run rule: an invariant kept by every admitted step holds after every guarded run. -/
theorem runEvents_invariant (hstep : ∀ s e, I s → ok s e → I (step s e))
    (hs : I s) (hrun : RunMeets step ok s es) : I (runEvents step s es) := by
  induction es generalizing s with
  | nil => exact hs
  | cons e es ih => exact ih (hstep s e hs hrun.1) hrun.2

/-- The guarantee rule: what an invariant gives at every admitted step holds along every guarded
run. -/
theorem runMeets_of_invariant {ok P : S → E → Prop}
    (hstep : ∀ s e, I s → ok s e → I (step s e)) (hgives : ∀ s e, I s → ok s e → P s e)
    (hs : I s) (hrun : RunMeets step ok s es) : RunMeets step P s es := by
  induction es generalizing s with
  | nil => trivial
  | cons e es ih => exact ⟨hgives s e hs hrun.1, ih (hstep s e hs hrun.1) hrun.2⟩

/-- The run rule without a condition on the events. -/
theorem runEvents_invariant_of_step (hstep : ∀ s e, I s → I (step s e)) (hs : I s) (es : List E) :
    I (runEvents step s es) := by
  induction es generalizing s with
  | nil => exact hs
  | cons e es ih => exact ih (hstep s e hs)

/-- The equivalence rule: conditions that agree wherever an invariant holds that one of them keeps are met by the same
runs. -/
theorem runMeets_congr
    (hstep : ∀ s e, I s → ok s e → I (step s e)) (hiff : ∀ s e, I s → (ok s e ↔ ok' s e))
    (hs : I s) : RunMeets step ok s es ↔ RunMeets step ok' s es := by
  induction es generalizing s with
  | nil => exact Iff.rfl
  | cons e es ih =>
    constructor
    · rintro ⟨hok, hrun⟩
      exact ⟨(hiff s e hs).mp hok, (ih (hstep s e hs hok)).mp hrun⟩
    · rintro ⟨hok, hrun⟩
      have hok' := (hiff s e hs).mpr hok
      exact ⟨hok', (ih (hstep s e hs hok')).mpr hrun⟩

/-- The exactness rule: where a step keeps a property exactly when it meets the condition, the runs that meet it at
every step are those with the property in every state. The invariant only has to survive the steps that keep both. -/
theorem runMeets_iff
    (hstep : ∀ s e, I s → P s → ok s e → I (step s e)) (hexact : ∀ s e, I s → P s → (P (step s e) ↔ ok s e))
    (hI : I s) (hP : P s) :
    (∀ es₁ es₂, es = es₁ ++ es₂ → P (runEvents step s es₁)) ↔ RunMeets step ok s es := by
  induction es generalizing s with
  | nil =>
    refine iff_of_true (fun es₁ es₂ heq => ?_) trivial
    rw [(append_eq_nil_iff.mp heq.symm).1]
    exact hP
  | cons e es ih =>
    constructor
    · intro h
      have hnext : P (step s e) := h [e] es rfl
      have hok : ok s e := (hexact s e hI hP).mp hnext
      exact ⟨hok, (ih (hstep s e hI hP hok) hnext).mp fun es₁ es₂ heq => h (e :: es₁) es₂ (by rw [heq]; rfl)⟩
    · rintro ⟨hok, hrun⟩ es₁ es₂ heq
      have hnext : P (step s e) := (hexact s e hI hP).mpr hok
      cases es₁ with
      | nil => exact hP
      | cons e' es₁ =>
        obtain ⟨rfl, htail⟩ := cons.inj heq
        exact (ih (hstep s e hI hP hok) hnext).mpr hrun es₁ es₂ htail

/-- The accumulation rule: where a step keeps a property that cannot come back exactly when it meets the condition, a run
ends with the property exactly when it meets the condition at every step. -/
theorem runEvents_iff
    (hstep : ∀ s e, I s → I (step s e)) (hexact : ∀ s e, I s → (P (step s e) ↔ P s ∧ ok s e)) (hs : I s)
    (es : List E) : P (runEvents step s es) ↔ P s ∧ RunMeets step ok s es := by
  induction es generalizing s with
  | nil => exact (and_iff_left trivial).symm
  | cons e es ih =>
    change P (runEvents step (step s e) es) ↔ P s ∧ ok s e ∧ RunMeets step ok (step s e) es
    rw [ih (hstep s e hs), hexact s e hs, and_assoc]

end Guarded

/-- What the steps of a run cost together. -/
def runCost (step : S → E → S) (cost : S → E → ℕ) : S → List E → ℕ
  | _, [] => 0
  | s, e :: es => cost s e + runCost step cost (step s e) es

/-- The potential rule: where the potential goes down by what an admitted step costs, a guarded run costs no more than
the potential of the state that it starts in. -/
theorem runCost_le {step : S → E → S} {cost : S → E → ℕ} (potential : S → ℕ)
    (hstep : ∀ s e, I s → ok s e → I (step s e))
    (hcost : ∀ s e, I s → ok s e → cost s e + potential (step s e) ≤ potential s) (hs : I s)
    (hrun : RunMeets step ok s es) : runCost step cost s es ≤ potential s := by
  induction es generalizing s with
  | nil => exact Nat.zero_le _
  | cons e es ih =>
    have hrest := ih (hstep s e hs hrun.1) hrun.2
    exact Nat.le_trans (Nat.add_le_add_left hrest (cost s e)) (hcost s e hs hrun.1)

/-- A run of a machine whose steps can stop it. -/
def tryEvents (step : S → E → Option S) : S → List E → Option S
  | s, [] => some s
  | s, e :: es => (step s e).bind fun s' => tryEvents step s' es

/-- The rule for stops: where a step goes on exactly when it meets the condition, so does the run. -/
theorem isSome_tryEvents_iff {step : S → E → Option S}
    (hstep : ∀ s e s', I s → step s e = some s' → I s') (hexact : ∀ s e, I s → ((step s e).isSome ↔ ok s e))
    (hs : I s) (es : List E) :
    (tryEvents step s es).isSome ↔ RunMeets (fun s e => (step s e).getD s) ok s es := by
  induction es generalizing s with
  | nil => exact iff_of_true rfl trivial
  | cons e es ih =>
    have hfirst := hexact s e hs
    rw [tryEvents, RunMeets, ← hfirst]
    cases hnext : step s e with
    | none => exact iff_of_false Bool.false_ne_true fun h => Bool.false_ne_true h.1
    | some s' =>
      rw [Option.bind_some, Option.getD_some, ih (hstep s e s' hs hnext)]
      exact (and_iff_right rfl).symm

/-- Each entry of a newest-first history is supported by the entries before it. -/
def Justified (P : A → List A → Prop) : List A → Prop
  | [] => True
  | a :: earlier => P a earlier ∧ Justified P earlier

/-- A justified history read entry by entry. -/
theorem justified_iff {history : List A} :
    Justified P history ↔ ∀ later a earlier, history = later ++ a :: earlier → P a earlier := by
  induction history with
  | nil => simp [Justified]
  | cons b rest ih =>
    constructor
    · rintro ⟨hb, hrest⟩ later a earlier heq
      cases later with
      | nil =>
        obtain ⟨rfl, rfl⟩ := cons.inj heq
        exact hb
      | cons c later => exact ih.mp hrest later a earlier (cons.inj heq).2
    · intro h
      refine ⟨h [] b rest rfl, ih.mpr fun later a earlier heq => ?_⟩
      exact h (b :: later) a earlier (by rw [heq, cons_append])

/-- Entries that need no support can be added to a justified history. -/
theorem justified_append {entries history : List A}
    (hentries : ∀ a ∈ entries, ∀ earlier, P a earlier) (h : Justified P history) :
    Justified P (entries ++ history) := by
  induction entries with
  | nil => exact h
  | cons a entries ih =>
    refine ⟨hentries a mem_cons_self _, ih fun b hb => ?_⟩
    exact hentries b (mem_cons_of_mem a hb)

/-- The entries recorded after the most recent one that satisfies the test. -/
def sinceLast (test : A → Bool) (history : List A) : List A :=
  history.takeWhile fun a => !test a

@[simp] theorem sinceLast_cons_of_true {a : A} (h : test a = true)
    (history : List A) : sinceLast test (a :: history) = [] := by
  simp [sinceLast, h]

@[simp] theorem sinceLast_cons_of_false {a : A} (h : test a = false)
    (history : List A) : sinceLast test (a :: history) = a :: sinceLast test history := by
  simp [sinceLast, h]

/-- An entry that satisfies the test was recorded after the most recent stop. -/
def heldSince (stop test : A → Bool) (history : List A) : Bool := (sinceLast stop history).any test

section HeldSince

variable {stop test : A → Bool} {a : A} {history : List A}

theorem heldSince_cons_of_test (hstop : stop a = false) (htest : test a = true) :
    heldSince stop test (a :: history) = true := by
  simp [heldSince, hstop, htest]

/-- A later entry that is no stop does not undo what was recorded. -/
theorem heldSince_cons (hstop : stop a = false) (h : heldSince stop test history = true) :
    heldSince stop test (a :: history) = true := by
  unfold heldSince at h ⊢
  rw [sinceLast_cons_of_false hstop, any_cons, h, Bool.or_true]

theorem heldSince_append {entries : List A} (hentries : ∀ a ∈ entries, stop a = false)
    (h : heldSince stop test history = true) : heldSince stop test (entries ++ history) = true := by
  induction entries with
  | nil => exact h
  | cons a entries ih =>
    refine heldSince_cons (hentries a mem_cons_self) (ih fun b hb => ?_)
    exact hentries b (mem_cons_of_mem a hb)

end HeldSince

end UnyDesk.Lib
