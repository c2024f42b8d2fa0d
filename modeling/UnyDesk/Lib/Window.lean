import Mathlib.Algebra.Group.Action.Defs
import Mathlib.Algebra.Order.BigOperators.Group.List
import Mathlib.Algebra.Order.Ring.Nat
import Mathlib.Data.List.DropRight

/-!
# Sliding windows

A window holds the newest values of a stream. When it is full the oldest value makes room for the next one, so that it
is always the end of what was pushed. The mean of a window is the whole part of the exact one.
-/

namespace UnyDesk.Lib.Window

open List

variable {α : Type*} {size : ℕ} {values : List α}

/-- The oldest value leaves a window that is full. -/
def push (size : ℕ) (window : List α) (value : α) : List α :=
  (if size ≤ window.length then window.tail else window) ++ [value]

theorem length_rtake (size : ℕ) (values : List α) : (values.rtake size).length = min size values.length := by
  rw [rtake, length_drop]
  omega

/-- A window that holds the end of a stream holds the end of the longer one. -/
theorem push_rtake (hsize : 0 < size) (values : List α) (value : α) :
    push size (values.rtake size) value = (values ++ [value]).rtake size := by
  obtain ⟨size, rfl⟩ := Nat.exists_eq_succ_of_ne_zero hsize.ne'
  rw [rtake_concat_succ, push, length_rtake]
  congr 1
  split
  · rename_i hfull
    rw [rtake, rtake, tail_drop]
    congr 1
    omega
  · rename_i hroom
    have hall : values.length ≤ size := by omega
    rw [rtake, rtake, Nat.sub_eq_zero_of_le hall, Nat.sub_eq_zero_of_le (Nat.le_succ_of_le hall)]

/-- A smaller window is the end of a larger one. -/
theorem rtake_suffix_rtake {size size' : ℕ} (h : size ≤ size') (values : List α) :
    values.rtake size <:+ values.rtake size' := by
  rw [rtake, rtake]
  exact drop_suffix_drop_left values (by omega)

theorem mem_of_mem_rtake {value : α} (h : value ∈ values.rtake size) : value ∈ values :=
  mem_of_mem_drop h

theorem rtake_ne_nil (hvalues : values ≠ []) (hsize : 0 < size) : values.rtake size ≠ [] := by
  have hpos : 0 < values.length := length_pos_iff.mpr hvalues
  rw [rtake, ne_eq, drop_eq_nil_iff]
  omega

section Mean

variable {values : List ℕ}

def mean (values : List ℕ) : ℕ := values.sum / values.length

/-- The mean is at least what all values are at least. -/
theorem le_mean {low : ℕ} (hvalues : values ≠ []) (h : ∀ value ∈ values, low ≤ value) : low ≤ mean values := by
  have hsum := card_nsmul_le_sum values low h
  rw [smul_eq_mul] at hsum
  rw [mean, Nat.le_div_iff_mul_le (length_pos_iff.mpr hvalues), mul_comm]
  exact hsum

theorem mean_constant {value : ℕ} (hvalues : values ≠ []) (h : ∀ other ∈ values, other = value) :
    mean values = value := by
  rw [mean, eq_replicate_of_mem h, sum_replicate, length_replicate, smul_eq_mul]
  exact Nat.mul_div_cancel_left value (length_pos_iff.mpr hvalues)

end Mean

end UnyDesk.Lib.Window
