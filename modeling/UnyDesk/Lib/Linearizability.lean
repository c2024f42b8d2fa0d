import Mathlib.Data.List.Nodup

/-!
# Histories and sequential orders

Operations on a shared object overlap: a history lists their calls and their returns. It is explained by a sequential
order of operations if the order replays on the specification with the results that were returned, and puts no
operation behind one that was called after it had returned. An operation that is under way may be in the order or not.

The order is found step by step: an operation enters it at one moment between its call and its return.
-/

namespace UnyDesk.Lib

open List

variable {I O R S : Type*}

/-- A call or a return of an operation, which its id names. -/
inductive Action (I O R : Type*)
  | call (i : I) (op : O)
  | ret (i : I) (result : R)
deriving DecidableEq

/-- An operation with its result, at its place in a sequential order. -/
structure Effect (I O R : Type*) where
  id : I
  op : O
  result : R

/-- The order run from the first state on the specification: every operation has the result that the order gives it. -/
def Replays (apply : S → O → S × R) : S → List (Effect I O R) → S → Prop
  | s, [], s' => s = s'
  | s, e :: order, s' => (apply s e.op).2 = e.result ∧ Replays apply (apply s e.op).1 order s'

/-- The order explains the history and leads to the state. -/
structure Linearizes (apply : S → O → S × R) (start : S) (history : List (Action I O R)) (order : List (Effect I O R))
    (s : S) : Prop where
  once : (order.map Effect.id).Nodup
  called : ∀ e ∈ order, .call e.id e.op ∈ history
  returned : ∀ i result, .ret i result ∈ history → ∃ e ∈ order, e.id = i ∧ e.result = result
  /-- What was called behind the return of an operation stands behind it. -/
  realTime : ∀ before i result after, history = before ++ .ret i result :: after → ∀ j op, .call j op ∈ after →
    ∀ order₁ e order₂, order = order₁ ++ e :: order₂ → e.id = j → ∀ e' ∈ order₂, e'.id ≠ i
  replays : Replays apply start order s

section Rules

variable {apply : S → O → S × R} {start s s' : S} {history : List (Action I O R)} {order : List (Effect I O R)}

theorem replays_append {order' : List (Effect I O R)} :
    Replays apply start (order ++ order') s' ↔ ∃ s, Replays apply start order s ∧ Replays apply s order' s' := by
  induction order generalizing start with
  | nil => simp [Replays]
  | cons e order ih => simp only [cons_append, Replays, ih, and_assoc, exists_and_left]

namespace Linearizes

theorem nil (s : S) : Linearizes apply s ([] : List (Action I O R)) [] s where
  once := nodup_nil
  called := nofun
  returned := nofun
  realTime _ _ _ _ heq := absurd heq (by simp)
  replays := rfl

section Linearizes

variable (h : Linearizes apply start history order s) {e : Effect I O R}
include h

/-- The rule for a call: an operation that is not in the order changes nothing. -/
theorem call {i : I} (op : O) (hfresh : ∀ e ∈ order, e.id ≠ i) :
    Linearizes apply start (history ++ [.call i op]) order s where
  once := h.once
  called e he := mem_append_left _ (h.called e he)
  returned j result hj := by
    refine h.returned j result ((mem_append.mp hj).resolve_right fun hmem => ?_)
    exact nomatch mem_singleton.mp hmem
  realTime before j result after heq k op' hk order₁ e order₂ horder hek e' he' := by
    rcases eq_nil_or_concat after with rfl | ⟨after, last, rfl⟩
    · exact nomatch hk
    · rw [concat_eq_append] at heq hk
      rw [← cons_append, ← append_assoc] at heq
      obtain ⟨hhistory, hlast⟩ := append_inj' heq rfl
      rcases mem_append.mp hk with hold | hnew
      · exact h.realTime before j result after hhistory k op' hold order₁ e order₂ horder hek e' he'
      · have hcall : Action.call k op' = .call i op :=
          (mem_singleton.mp hnew).trans (cons.inj hlast).1.symm
        have hki : k = i := (Action.call.inj hcall).1
        exact absurd (hek.trans hki) (hfresh e (horder ▸ mem_append_right _ mem_cons_self))
  replays := h.replays

/-- The rule for the moment at which an operation takes effect. -/
theorem takeEffect (hcall : .call e.id e.op ∈ history)
    (hfresh : ∀ e' ∈ order, e'.id ≠ e.id) (hopen : ∀ result, .ret e.id result ∉ history)
    (happly : apply s e.op = (s', e.result)) : Linearizes apply start history (order ++ [e]) s' where
  once := by
    rw [map_append, nodup_append]
    refine ⟨h.once, nodup_singleton _, fun i hi j hj => ?_⟩
    obtain ⟨e', he', rfl⟩ := mem_map.mp hi
    rw [mem_singleton.mp hj]
    exact hfresh e' he'
  called e' he' := by
    rcases mem_append.mp he' with hold | hnew
    · exact h.called e' hold
    · rw [mem_singleton.mp hnew]
      exact hcall
  returned i result hret := by
    obtain ⟨e', he', hresult⟩ := h.returned i result hret
    exact ⟨e', mem_append_left _ he', hresult⟩
  realTime before i result after heq j op hj order₁ e₁ order₂ horder he₁ e' he' := by
    have hret : Action.ret i result ∈ history := heq ▸ mem_append_right _ mem_cons_self
    rcases eq_nil_or_concat order₂ with rfl | ⟨order₂, last, rfl⟩
    · exact nomatch he'
    · rw [concat_eq_append] at horder he'
      rw [← cons_append, ← append_assoc] at horder
      obtain ⟨hold, hlast⟩ := append_inj' horder rfl
      rcases mem_append.mp he' with hmem | hmem
      · exact h.realTime before i result after heq j op hj order₁ e₁ order₂ hold he₁ e' hmem
      · rw [mem_singleton.mp hmem, ← (cons.inj hlast).1]
        rintro rfl
        exact hopen result hret
  replays := replays_append.mpr ⟨s, h.replays, by rw [happly], by rw [happly]; rfl⟩

/-- The rule for a return: the operation is in the order, with this result. -/
theorem ret (he : e ∈ order) : Linearizes apply start (history ++ [.ret e.id e.result]) order s where
  once := h.once
  called e' he' := mem_append_left _ (h.called e' he')
  returned i result hret := by
    rcases mem_append.mp hret with hold | hnew
    · exact h.returned i result hold
    · obtain ⟨rfl, rfl⟩ := Action.ret.inj (mem_singleton.mp hnew)
      exact ⟨e, he, rfl, rfl⟩
  realTime before i result after heq j op hj order₁ e₁ order₂ horder he₁ e' he' := by
    rcases eq_nil_or_concat after with rfl | ⟨after, last, rfl⟩
    · exact nomatch hj
    · rw [concat_eq_append] at heq hj
      rw [← cons_append, ← append_assoc] at heq
      obtain ⟨hhistory, hlast⟩ := append_inj' heq rfl
      refine h.realTime before i result after hhistory j op ((mem_append.mp hj).resolve_right fun hmem => ?_)
        order₁ e₁ order₂ horder he₁ e' he'
      exact nomatch (mem_singleton.mp hmem).trans (cons.inj hlast).1.symm
  replays := h.replays

end Linearizes

end Linearizes

end Rules

end UnyDesk.Lib
