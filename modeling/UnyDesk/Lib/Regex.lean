import Mathlib.Data.List.Basic

/-!
# Regular expressions

Expressions over classes of characters. A word is accepted when the derivatives of the expression
along it end in one that takes the empty word; the meaning of an expression is given by how its
words are put together. Expressions match a whole word, as between `^` and `$`.
-/

namespace UnyDesk.Lib

open List

variable {C : Type*}

inductive Regex (C : Type*)
  | empty
  | chars (p : C → Bool)
  | seq (r s : Regex C)
  | alt (r s : Regex C)
  | star (r : Regex C)

namespace Regex

/-- The words of an expression. -/
inductive Matches : Regex C → List C → Prop
  | empty : Matches empty []
  | chars {p : C → Bool} {c : C} (h : p c = true) : Matches (chars p) [c]
  | seq {r s : Regex C} {u v : List C} (hr : Matches r u) (hs : Matches s v) : Matches (seq r s) (u ++ v)
  | altLeft {r s : Regex C} {u : List C} (hr : Matches r u) : Matches (alt r s) u
  | altRight {r s : Regex C} {u : List C} (hs : Matches s u) : Matches (alt r s) u
  | starNil {r : Regex C} : Matches (star r) []
  | starCons {r : Regex C} {u v : List C} (hr : Matches r u) (hs : Matches (star r) v) : Matches (star r) (u ++ v)

/-- The expression without words. -/
def fail : Regex C := chars fun _ => false

def plus (r : Regex C) : Regex C := seq r (star r)

def optional (r : Regex C) : Regex C := alt r empty

/-- At most so many repetitions. -/
def upTo (r : Regex C) : ℕ → Regex C
  | 0 => empty
  | n + 1 => optional (seq r (upTo r n))

/-- One to so many repetitions. -/
def oneTo (r : Regex C) (n : ℕ) : Regex C := seq r (upTo r (n - 1))

def nullable : Regex C → Bool
  | empty => true
  | chars _ => false
  | seq r s => r.nullable && s.nullable
  | alt r s => r.nullable || s.nullable
  | star _ => true

/-- What may follow a character. -/
def deriv (c : C) : Regex C → Regex C
  | empty => fail
  | chars p => if p c then empty else fail
  | seq r s => alt (seq (deriv c r) s) (if r.nullable then deriv c s else fail)
  | alt r s => alt (deriv c r) (deriv c s)
  | star r => seq (deriv c r) (star r)

def accepts : Regex C → List C → Bool
  | r, [] => r.nullable
  | r, c :: w => (deriv c r).accepts w

section Meaning

variable {r s : Regex C} {w : List C}

theorem not_matches_fail : ¬ Matches fail w := by
  intro h
  cases h with
  | chars h => exact Bool.false_ne_true h

theorem matches_seq_iff : Matches (seq r s) w ↔ ∃ u v, w = u ++ v ∧ Matches r u ∧ Matches s v := by
  constructor
  · intro h
    cases h with
    | seq hr hs => exact ⟨_, _, rfl, hr, hs⟩
  · rintro ⟨u, v, rfl, hr, hs⟩
    exact .seq hr hs

theorem matches_alt_iff : Matches (alt r s) w ↔ Matches r w ∨ Matches s w := by
  constructor
  · intro h
    cases h with
    | altLeft hr => exact .inl hr
    | altRight hs => exact .inr hs
  · rintro (hr | hs)
    · exact .altLeft hr
    · exact .altRight hs

theorem matches_empty_iff : Matches (empty : Regex C) w ↔ w = [] := by
  constructor
  · intro h
    cases h
    rfl
  · rintro rfl
    exact .empty

theorem matches_chars_iff {p : C → Bool} : Matches (chars p) w ↔ ∃ c, w = [c] ∧ p c = true := by
  constructor
  · intro h
    cases h with
    | chars h => exact ⟨_, rfl, h⟩
  · rintro ⟨c, rfl, h⟩
    exact .chars h

theorem matches_star_flatten {pieces : List (List C)} (h : ∀ u ∈ pieces, Matches r u) :
    Matches (star r) pieces.flatten := by
  induction pieces with
  | nil => exact .starNil
  | cons u pieces ih =>
    rw [flatten_cons]
    exact .starCons (h u mem_cons_self) (ih fun v hv => h v (mem_cons_of_mem u hv))

/-- A repetition is cut into the words it repeats. -/
theorem matches_star_iff : Matches (star r) w ↔
    ∃ pieces : List (List C), w = pieces.flatten ∧ ∀ u ∈ pieces, Matches r u := by
  constructor
  · intro h
    generalize hs : star r = s at h
    induction h with
    | starNil => exact ⟨[], rfl, fun u hu => absurd hu not_mem_nil⟩
    | starCons hr _ _ ih =>
      obtain rfl := Regex.star.inj hs
      obtain ⟨pieces, rfl, hpieces⟩ := ih rfl
      refine ⟨_ :: pieces, rfl, fun u hu => ?_⟩
      rcases mem_cons.mp hu with rfl | hu
      · exact hr
      · exact hpieces u hu
    | _ => cases hs
  · rintro ⟨pieces, rfl, h⟩
    exact matches_star_flatten h

theorem nullable_iff : r.nullable = true ↔ Matches r [] := by
  induction r with
  | empty => exact iff_of_true rfl .empty
  | chars p => simp [nullable, matches_chars_iff]
  | seq r s ihr ihs =>
    rw [nullable, Bool.and_eq_true, ihr, ihs, matches_seq_iff]
    constructor
    · rintro ⟨hr, hs⟩
      exact ⟨[], [], rfl, hr, hs⟩
    · rintro ⟨u, v, huv, hr, hs⟩
      obtain ⟨rfl, rfl⟩ := append_eq_nil_iff.mp huv.symm
      exact ⟨hr, hs⟩
  | alt r s ihr ihs => rw [nullable, Bool.or_eq_true, ihr, ihs, matches_alt_iff]
  | star r ih => exact iff_of_true rfl .starNil

/-- The first letter of a sequence belongs to its first word, unless that is empty. -/
theorem matches_seq_cons_iff {c : C} : Matches (seq r s) (c :: w) ↔
    (∃ u v, w = u ++ v ∧ Matches r (c :: u) ∧ Matches s v) ∨ Matches r [] ∧ Matches s (c :: w) := by
  rw [matches_seq_iff]
  constructor
  · rintro ⟨u, v, huv, hr, hs⟩
    cases u with
    | nil => exact .inr ⟨hr, huv ▸ hs⟩
    | cons d u =>
      obtain ⟨rfl, rfl⟩ := cons.inj huv
      exact .inl ⟨u, v, rfl, hr, hs⟩
  · rintro (⟨u, v, rfl, hr, hs⟩ | ⟨hr, hs⟩)
    · exact ⟨c :: u, v, rfl, hr, hs⟩
    · exact ⟨[], c :: w, rfl, hr, hs⟩

/-- The first letter of a repetition belongs to the first word that is not empty. -/
theorem matches_star_cons_iff {c : C} : Matches (star r) (c :: w) ↔
    ∃ u v, w = u ++ v ∧ Matches r (c :: u) ∧ Matches (star r) v := by
  constructor
  · intro h
    obtain ⟨pieces, hw, hpieces⟩ := matches_star_iff.mp h
    clear h
    induction pieces with
    | nil => exact absurd hw (cons_ne_nil c w)
    | cons u pieces ih =>
      have hrest : ∀ v ∈ pieces, Matches r v := fun v hv => hpieces v (mem_cons_of_mem _ hv)
      cases u with
      | nil => exact ih hw hrest
      | cons d u =>
        obtain ⟨rfl, rfl⟩ := cons.inj hw
        exact ⟨u, pieces.flatten, rfl, hpieces _ mem_cons_self, matches_star_flatten hrest⟩
  · rintro ⟨u, v, rfl, hr, hs⟩
    exact .starCons hr hs

/-- The derivative has the words that follow the character. -/
theorem matches_deriv_iff {c : C} : Matches (deriv c r) w ↔ Matches r (c :: w) := by
  induction r generalizing w with
  | empty => simp [deriv, matches_empty_iff, not_matches_fail]
  | chars p =>
    rw [deriv, matches_chars_iff]
    by_cases hp : p c = true
    · simp [hp, matches_empty_iff]
    · simp [hp, not_matches_fail]
  | seq r s ihr ihs =>
    rw [deriv, matches_alt_iff, matches_seq_iff, matches_seq_cons_iff]
    simp only [ihr]
    by_cases hnull : r.nullable = true
    · rw [if_pos hnull, ihs, and_iff_right (nullable_iff.mp hnull)]
    · rw [if_neg hnull, iff_false_intro not_matches_fail, iff_false_intro (mt nullable_iff.mpr hnull), false_and]
  | alt r s ihr ihs => rw [deriv, matches_alt_iff, matches_alt_iff, ihr, ihs]
  | star r ih =>
    rw [deriv, matches_seq_iff, matches_star_cons_iff]
    simp only [ih]

/-- Derivatives decide the words of an expression. -/
theorem accepts_iff : r.accepts w = true ↔ Matches r w := by
  induction w generalizing r with
  | nil => exact nullable_iff
  | cons c w ih => exact ih.trans matches_deriv_iff

end Meaning

section Repeated

variable {p : C → Bool} {w : List C}

theorem matches_upTo_iff {n : ℕ} : Matches (upTo (chars p) n) w ↔ w.length ≤ n ∧ ∀ c ∈ w, p c = true := by
  induction n generalizing w with
  | zero =>
    rw [upTo, matches_empty_iff, Nat.le_zero, length_eq_zero_iff]
    constructor
    · rintro rfl
      exact ⟨rfl, fun c hc => absurd hc not_mem_nil⟩
    · exact And.left
  | succ n ih =>
    rw [upTo, optional, matches_alt_iff, matches_seq_iff, matches_empty_iff]
    constructor
    · rintro (⟨u, v, rfl, hu, hv⟩ | rfl)
      · obtain ⟨c, rfl, hc⟩ := matches_chars_iff.mp hu
        obtain ⟨hlength, hall⟩ := ih.mp hv
        exact ⟨Nat.succ_le_succ hlength, forall_mem_cons.mpr ⟨hc, hall⟩⟩
      · exact ⟨Nat.zero_le _, fun c hc => absurd hc not_mem_nil⟩
    · rintro ⟨hlength, hall⟩
      cases w with
      | nil => exact .inr rfl
      | cons c w =>
        obtain ⟨hc, hw⟩ := forall_mem_cons.mp hall
        exact .inl ⟨[c], w, rfl, .chars hc, ih.mpr ⟨Nat.le_of_succ_le_succ hlength, hw⟩⟩

theorem matches_oneTo_iff {n : ℕ} (hn : 0 < n) :
    Matches (oneTo (chars p) n) w ↔ w ≠ [] ∧ w.length ≤ n ∧ ∀ c ∈ w, p c = true := by
  rw [oneTo, matches_seq_iff]
  constructor
  · rintro ⟨u, v, rfl, hu, hv⟩
    obtain ⟨c, rfl, hc⟩ := matches_chars_iff.mp hu
    obtain ⟨hlength, hall⟩ := matches_upTo_iff.mp hv
    refine ⟨cons_ne_nil c v, ?_, forall_mem_cons.mpr ⟨hc, hall⟩⟩
    rw [length_append, length_singleton]
    omega
  · rintro ⟨hne, hlength, hall⟩
    cases w with
    | nil => exact absurd rfl hne
    | cons c w =>
      obtain ⟨hc, hw⟩ := forall_mem_cons.mp hall
      rw [length_cons] at hlength
      exact ⟨[c], w, rfl, .chars hc, matches_upTo_iff.mpr ⟨by omega, hw⟩⟩

theorem matches_plus_chars (hne : w ≠ []) (hall : ∀ c ∈ w, p c = true) : Matches (plus (chars p)) w := by
  cases w with
  | nil => exact absurd rfl hne
  | cons c w =>
    obtain ⟨hc, hw⟩ := forall_mem_cons.mp hall
    have hpieces : (w.map fun d => [d]).flatten = w := by
      rw [← flatMap_def]
      exact flatMap_singleton' w
    refine .seq (.chars hc) (matches_star_iff.mpr ⟨w.map fun d => [d], hpieces.symm, fun u hu => ?_⟩)
    obtain ⟨d, hd, rfl⟩ := mem_map.mp hu
    exact .chars (hw d hd)

end Repeated

end Regex

end UnyDesk.Lib
