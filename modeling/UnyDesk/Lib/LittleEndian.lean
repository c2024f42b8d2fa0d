import Mathlib.Algebra.Group.Nat.Defs

/-!
# Numbers of a fixed width, lowest byte first

A writer puts the lowest bytes of a number, a reader takes as many bytes off the front. The reader gives
back what was written, up to the width, and leaves what follows.
-/

namespace UnyDesk.Lib.LittleEndian

open List

variable {bytes : List UInt8}

/-- The lowest bytes of a number. -/
def put : ℕ → ℕ → List UInt8
  | 0, _ => []
  | width + 1, n => UInt8.ofNat n :: put width (n / 256)

/-- The number of some bytes. -/
def value : List UInt8 → ℕ
  | [] => 0
  | b :: bytes => b.toNat + value bytes * 256

/-- The number at the front, and the bytes that follow. -/
def get (width : ℕ) (bytes : List UInt8) : ℕ × List UInt8 := (value (bytes.take width), bytes.drop width)

@[simp] theorem length_put (width n : ℕ) : (put width n).length = width := by
  induction width generalizing n with
  | zero => rfl
  | succ width ih => rw [put, length_cons, ih]

theorem value_put (width n : ℕ) : value (put width n) = n % 256 ^ width := by
  induction width generalizing n with
  | zero => simp [put, value, Nat.mod_one]
  | succ width ih =>
    have hsplit : n % 256 ^ (width + 1) = n % 256 + 256 * (n / 256 % 256 ^ width) := by
      rw [Nat.pow_succ', Nat.mod_mul]
    rw [put, value, ih, hsplit, UInt8.toNat_ofNat']
    omega

theorem value_append (bytes rest : List UInt8) :
    value (bytes ++ rest) = value bytes + value rest * 256 ^ bytes.length := by
  induction bytes with
  | nil => simp [value]
  | cons b bytes ih =>
    rw [cons_append, value, value, ih, length_cons, Nat.pow_succ', Nat.add_mul,
      Nat.mul_assoc, Nat.mul_comm 256 (256 ^ bytes.length), Nat.add_assoc]

theorem value_zeros (count : ℕ) : value (List.replicate count 0) = 0 := by
  induction count with
  | zero => rfl
  | succ count ih => rw [replicate_succ, value, ih]; rfl

theorem value_lt (bytes : List UInt8) : value bytes < 256 ^ bytes.length := by
  induction bytes with
  | nil => exact Nat.one_pos
  | cons b bytes ih =>
    have hb := b.toNat_lt
    rw [value, length_cons, Nat.pow_succ]
    omega

/-- A written number is read back, and what follows is left. -/
theorem get_put_append (width n : ℕ) (rest : List UInt8) :
    get width (put width n ++ rest) = (n % 256 ^ width, rest) := by
  have htake : (put width n ++ rest).take width = put width n := take_left' (length_put width n)
  have hdrop : (put width n ++ rest).drop width = rest := drop_left' (length_put width n)
  rw [get, htake, hdrop, value_put]

/-- A read that fails where bytes are missing. -/
def get? (width : ℕ) (bytes : List UInt8) : Option (ℕ × List UInt8) :=
  if width ≤ bytes.length then some (get width bytes) else none

/-- Bytes that are passed over; fails where they are missing. -/
def skip? (count : ℕ) (bytes : List UInt8) : Option (List UInt8) :=
  if count ≤ bytes.length then some (bytes.drop count) else none

theorem get?_of_le {width : ℕ} (h : width ≤ bytes.length) :
    get? width bytes = some (value (bytes.take width), bytes.drop width) := if_pos h

theorem skip?_of_le {count : ℕ} (h : count ≤ bytes.length) : skip? count bytes = some (bytes.drop count) := if_pos h

/-- A field that begins behind others. -/
theorem get?_drop {start width : ℕ} (h : start + width ≤ bytes.length) :
    get? width (bytes.drop start) = some (value ((bytes.drop start).take width), bytes.drop (start + width)) := by
  have hrest : width ≤ (bytes.drop start).length := by
    rw [length_drop]
    omega
  rw [get?_of_le hrest, drop_drop]

theorem skip?_drop {start count : ℕ} (h : start + count ≤ bytes.length) :
    skip? count (bytes.drop start) = some (bytes.drop (start + count)) := by
  have hrest : count ≤ (bytes.drop start).length := by
    rw [length_drop]
    omega
  rw [skip?_of_le hrest, drop_drop]

end UnyDesk.Lib.LittleEndian
