import Mathlib.Algebra.Group.Int.Defs
import Mathlib.Algebra.Group.Nat.Defs

/-!
# Numbers in decimal

A text is read as a whole number of a fixed width: digits, with a sign in front if there is one. The
digits of a number that fits are read as the number.
-/

namespace UnyDesk.Lib

open Nat

/-- `str::parse` of a number with a sign and with this many bits besides it. -/
def parseInt (bits : ℕ) (text : List Char) : Option ℤ :=
  let negative := text.head? = some '-'
  let number := if negative || text.head? = some '+' then text.tail else text
  if number ≠ [] && number.all Char.isDigit then
    let magnitude : ℤ := Nat.ofDigitChars 10 number 0
    let value := if negative then -magnitude else magnitude
    if -(2 ^ bits) ≤ value && value < 2 ^ bits then some value else none
  else none

section Digits

variable {bits n : ℕ}

theorem isDigit_of_mem_digits {c : Char} (hc : c ∈ Nat.toDigits 10 n) : c.isDigit = true :=
  isDigit_of_mem_toDigits (by decide) (by decide) hc

theorem not_mem_digits {c : Char} (hc : c.isDigit = false) : c ∉ Nat.toDigits 10 n := fun hmem =>
  Bool.false_ne_true (hc.symm.trans (isDigit_of_mem_digits hmem))

/-- A number that fits is read back from its digits. -/
theorem parseInt_digits (hn : n < 2 ^ bits) : parseInt bits (Nat.toDigits 10 n) = some (n : ℤ) := by
  have hhead : ∀ c, c.isDigit = false → (toDigits 10 n).head? ≠ some c := fun c hc hhead =>
    not_mem_digits hc (List.mem_of_head? hhead)
  have hvalue : ofDigitChars 10 (toDigits 10 n) 0 = n := ofDigitChars_ten_toDigits
  have hall : (toDigits 10 n).all Char.isDigit = true := List.all_eq_true.mpr fun c hc => isDigit_of_mem_digits hc
  have hlt : (n : ℤ) < 2 ^ bits := by exact_mod_cast hn
  have hrange : -(2 ^ bits) ≤ (n : ℤ) ∧ (n : ℤ) < 2 ^ bits := by omega
  simp only [parseInt, hhead '-' (by decide), hhead '+' (by decide), toDigits_ne_nil, hall, hvalue, hrange,
    decide_false, Bool.or_self, Bool.false_eq_true, ↓reduceIte, ne_eq, not_false_eq_true, decide_true, Bool.and_self]

end Digits

end UnyDesk.Lib
