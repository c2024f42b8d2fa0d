import Mathlib.Data.List.Basic

/-!
# Tables that follow a policy

A table of flags follows a policy when every flag that is set is allowed. A change of the policy
makes some entries stale; setting a stale entry to an allowed value repairs it. A handler that
changes the policy is right when it repairs every entry that it made stale.
-/

namespace UnyDesk.Lib

variable {N : Type*}

/-- Every flag that is set is allowed, except perhaps the stale ones. -/
def FollowsExcept (stale : List N) (allowed table : N → Bool) : Prop :=
  ∀ n, n ∉ stale → table n = true → allowed n = true

namespace FollowsExcept

variable {stale stale' : List N} {allowed allowed' table added : N → Bool}

/-- A change of the policy that only takes back stale entries. -/
theorem change (h : FollowsExcept stale allowed table) (hstale : stale ⊆ stale')
    (hallowed : ∀ n, n ∉ stale' → allowed n = true → allowed' n = true) :
    FollowsExcept stale' allowed' table := by
  intro n hn hset
  exact hallowed n hn (h n (fun hmem => hn (hstale hmem)) hset)

theorem mono (h : FollowsExcept stale allowed table) (hstale : stale ⊆ stale') :
    FollowsExcept stale' allowed table :=
  h.change hstale fun _ _ => id

/-- A stale entry is repaired by setting it to an allowed value. -/
theorem update [DecidableEq N] {n : N} {value : Bool} (h : FollowsExcept (n :: stale) allowed table)
    (hvalue : value = true → allowed n = true) :
    FollowsExcept stale allowed (Function.update table n value) := by
  intro k hk hset
  by_cases heq : k = n
  · subst heq
    rw [Function.update_self] at hset
    exact hvalue hset
  · rw [Function.update_of_ne heq] at hset
    exact h k (by simp [heq, hk]) hset

/-- An entry that is not set needs no repair. -/
theorem of_unset {n : N} (h : FollowsExcept (n :: stale) allowed table) (hunset : table n = false) :
    FollowsExcept stale allowed table := by
  intro k hk hset
  have hne : k ≠ n := by
    rintro rfl
    simp [hunset] at hset
  exact h k (by simp [hne, hk]) hset

/-- Allowed entries can be added. -/
theorem join (h : FollowsExcept stale allowed table) (hadded : ∀ n, added n = true → allowed n = true) :
    FollowsExcept stale allowed (fun n => added n || table n) := by
  intro n hn hset
  rcases Bool.or_eq_true_iff.mp hset with hset | hset
  · exact hadded n hset
  · exact h n hn hset

end FollowsExcept

end UnyDesk.Lib
