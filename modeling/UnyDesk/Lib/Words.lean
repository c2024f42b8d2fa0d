import Mathlib.Algebra.Group.Nat.Defs

/-!
# Words in two halves

A word is cut into a high and a low half of half its width. Put together from halves that are read with a
sign, the halves give the word back as long as the top bit of the low half is clear. When it is set, the
low half reaches into the high one.
-/

namespace UnyDesk.Lib.Words

open BitVec

variable {v w : ℕ}

/-- The upper bits of a word. -/
def high (w : ℕ) (x : BitVec v) : BitVec w := (x >>> w).setWidth w

/-- The lower bits of a word. -/
def low (w : ℕ) (x : BitVec v) : BitVec w := x.setWidth w

/-- The word of two halves that are read with their signs. -/
def joinSigned (v : ℕ) (high low : BitVec w) : BitVec v := (high.signExtend v <<< w) ||| low.signExtend v

/-- An arithmetic shift moves the same bits into the high half. -/
theorem high_eq_sshiftRight (hv : v = w + w) (x : BitVec v) : (x.sshiftRight w).setWidth w = high w x := by
  refine eq_of_getLsbD_eq fun i hi => ?_
  have hlt : w + i < v := by omega
  have hnot : ¬ v ≤ i := by omega
  simp [high, getLsbD_sshiftRight, hlt, hnot, -getLsbD_eq_getElem]

/-- Masking the lower bits first does not change the low half. -/
theorem low_eq_and (hv : w ≤ v) (x : BitVec v) : (x &&& (allOnes w).setWidth v).setWidth w = low w x := by
  refine eq_of_getLsbD_eq fun i hi => ?_
  have hlt : i < v := by omega
  simp [low, hi, hlt, -getLsbD_eq_getElem]

theorem toNat_high (hv : v = w + w) (x : BitVec v) : (high w x).toNat = x.toNat / 2 ^ w := by
  have hpow : 2 ^ v = 2 ^ w * 2 ^ w := by rw [hv, Nat.pow_add]
  have hlt : x.toNat / 2 ^ w < 2 ^ w := Nat.div_lt_of_lt_mul (hpow ▸ x.isLt)
  simp [high, Nat.shiftRight_eq_div_pow, Nat.mod_eq_of_lt hlt]

theorem toNat_low (x : BitVec v) : (low w x).toNat = x.toNat % 2 ^ w := by
  simp [low]

section JoinSigned

variable (hv : v = w + w) (hw : 0 < w) {x : BitVec v}
include hv hw

/-- Read with signs, the halves give the word back, with the top bit of the low half spread over the
high one. -/
theorem getLsbD_joinSigned (x : BitVec v) (i : ℕ) :
    (joinSigned v (high w x) (low w x)).getLsbD i = (x.getLsbD i || decide (w ≤ i ∧ i < v) && x.getLsbD (w - 1)) := by
  by_cases hi : i < v
  · by_cases hlow : i < w
    · have hnot : ¬ w ≤ i := by omega
      simp [joinSigned, high, low, getLsbD_signExtend, hi, hlow, hnot, -getLsbD_eq_getElem]
    · have hhigh : i - w < w := by omega
      have hback : w + (i - w) = i := by omega
      have hle : w ≤ i := by omega
      have hiv : i - w < v := by omega
      simp [joinSigned, high, low, getLsbD_signExtend, msb_setWidth, hi, hlow, hhigh, hback, hle, hiv, hw,
        -getLsbD_eq_getElem]
  · rw [getLsbD_of_ge _ i (by omega), getLsbD_of_ge x i (by omega)]
    simp [hi]

/-- Without the top bit of the low half, the signs do not matter. -/
theorem joinSigned_of_low (h : x.getLsbD (w - 1) = false) : joinSigned v (high w x) (low w x) = x := by
  refine eq_of_getLsbD_eq fun i hi => ?_
  rw [getLsbD_joinSigned hv hw, h, Bool.and_false, Bool.or_false]

/-- With the top bit of the low half, the high half is all ones. -/
theorem joinSigned_of_high (h : x.getLsbD (w - 1) = true) :
    2 ^ v - 2 ^ w ≤ (joinSigned v (high w x) (low w x)).toNat := by
  have hones : high w (joinSigned v (high w x) (low w x)) = BitVec.allOnes w := by
    refine BitVec.eq_of_getLsbD_eq fun i hi => ?_
    have hbit := getLsbD_joinSigned hv hw x (w + i)
    have hin : w ≤ w + i ∧ w + i < v := by omega
    rw [h, Bool.and_true, decide_eq_true hin, Bool.or_true] at hbit
    rw [high, BitVec.getLsbD_setWidth, BitVec.getLsbD_ushiftRight, hbit, BitVec.getLsbD_allOnes, Bool.and_true]
  have hquotient := congrArg BitVec.toNat hones
  rw [toNat_high hv, BitVec.toNat_allOnes] at hquotient
  have hmul : (2 ^ w - 1) * 2 ^ w ≤ (joinSigned v (high w x) (low w x)).toNat :=
    hquotient ▸ Nat.div_mul_le_self _ _
  have hpow : 2 ^ v = 2 ^ w * 2 ^ w := by rw [hv, Nat.pow_add]
  rw [Nat.sub_mul, Nat.one_mul] at hmul
  omega

/-- A word whose top bit is clear is given back exactly when the top bit of its low half is clear. -/
theorem joinSigned_eq_iff (hx : x.toNat < 2 ^ (v - 1)) :
    joinSigned v (high w x) (low w x) = x ↔ x.toNat % 2 ^ w < 2 ^ (w - 1) := by
  have hbit : x.getLsbD (w - 1) = (2 ^ (w - 1) ≤ x.toNat % 2 ^ w : Bool) := by
    have hmsb := BitVec.msb_eq_decide (x.setWidth w)
    rw [BitVec.msb_eq_getLsbD_last, BitVec.getLsbD_setWidth, BitVec.toNat_setWidth, decide_eq_true (by omega),
      Bool.true_and] at hmsb
    exact hmsb
  cases hlow : x.getLsbD (w - 1) with
  | false =>
    refine iff_of_true (joinSigned_of_low hv hw hlow) ?_
    rw [hlow] at hbit
    exact Nat.not_le.mp (of_decide_eq_false hbit.symm)
  | true =>
    have hge := joinSigned_of_high hv hw hlow
    refine iff_of_false (fun heq => ?_) ?_
    · rw [heq] at hge
      have hpow : 2 ^ v = 2 * 2 ^ (v - 1) := by
        rw [← Nat.pow_succ', Nat.succ_eq_add_one, Nat.sub_add_cancel (by omega)]
      have hle : 2 ^ w ≤ 2 ^ (v - 1) := Nat.pow_le_pow_right (by decide) (by omega)
      omega
    · rw [hlow] at hbit
      exact Nat.not_lt.mpr (of_decide_eq_true hbit.symm)

end JoinSigned

end UnyDesk.Lib.Words
