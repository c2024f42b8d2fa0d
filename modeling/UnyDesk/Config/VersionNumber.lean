import Mathlib.Data.Prod.Lex
import Mathlib.Tactic.NormNum
import UnyDesk.Lib.Decimal
import UnyDesk.Lib.SplitText

/-!
# Version numbers

A version of three numbers, with a patch behind it if there is one, is made one number, so that
versions can be compared. The first two numbers have a thousand places each. The last one is
multiplied by ten to leave space for the patch: there are a hundred places for the one and ten for
the other, and what is larger runs into the next number.
-/

namespace UnyDesk

open Lib Option Nat

namespace VersionNumber

/-- `i64` arithmetic. -/
def wrapI64 (n : ℤ) : ℤ := n.bmod (2 ^ 64)

/-- `str::parse::<i64>` -/
def parseI64 (text : List Char) : Option ℤ := parseInt 63 text

/-- The number so far, and the last component. -/
def addComponent : ℤ × ℤ → List Char → ℤ × ℤ
  | (n, _), x =>
    let last := (parseI64 x).getD 0
    (wrapI64 (wrapI64 (n * 1000) + last), last)

/-- The first part of a version. -/
def mainNumber (v : List Char) : ℤ :=
  let (n, last) := (splitText ".".toList v).foldl addComponent (0, 0)
  wrapI64 (wrapI64 (n - last) + wrapI64 (last * 10))

def getVersionNumber (v : List Char) : ℤ :=
  match splitText "-".toList v with
  | [] => 0
  | [v] => mainNumber v
  | v :: patch :: _ => wrapI64 (mainNumber v + (parseI64 patch).getD 0)

/-- A version with numbers below a thousand. -/
structure Version where
  major : Fin 1000
  minor : Fin 1000
  micro : Fin 1000
  patch : Option (Fin 1000)

namespace Version

variable (v : Version)

def patchNumber : ℕ := v.patch.elim 0 Fin.val

/-- `a.b.c` -/
def mainText : List Char :=
  Nat.toDigits 10 v.major ++ ".".toList ++ (Nat.toDigits 10 v.minor ++ ".".toList ++ Nat.toDigits 10 v.micro)

/-- `a.b.c` or `a.b.c-p` -/
def text : List Char := v.mainText ++ v.patch.elim [] fun p => "-".toList ++ Nat.toDigits 10 p

/-- Versions are ordered by their numbers, the first one first. -/
def key : ℕ ×ₗ ℕ ×ₗ ℕ ×ₗ ℕ := toLex (v.major.val, toLex (v.minor.val, toLex (v.micro.val, v.patchNumber)))

/-- The last two numbers have the places that are left for them. -/
structure Fits : Prop where
  micro : v.micro.val < 100
  patch : v.patchNumber < 10

end Version

section Reading

variable {v w : Version}

theorem wrapI64_eq {n : ℤ} (hmin : -(2 ^ 63) ≤ n) (hmax : n < 2 ^ 63) : wrapI64 n = n :=
  Int.bmod_eq_of_le (by omega) (by omega)

theorem parseI64_digits (n : Fin 1000) : (parseI64 (Nat.toDigits 10 n)).getD 0 = n.val := by
  have hn : n.val < 2 ^ 63 := by omega
  rw [parseI64, parseInt_digits hn, getD_some]

theorem splitText_mainText : splitText ".".toList v.mainText =
    [Nat.toDigits 10 v.major, Nat.toDigits 10 v.minor, Nat.toDigits 10 v.micro] := by
  have hdot : ∀ n : ℕ, '.' ∉ toDigits 10 n := fun n => not_mem_digits (by decide)
  have hmajor := @splitText_append_sep _ _ '.' [] _ (hdot v.major)
    (toDigits 10 v.minor ++ ['.'] ++ toDigits 10 v.micro)
  have hminor := @splitText_append_sep _ _ '.' [] _ (hdot v.minor) (toDigits 10 v.micro)
  have hmicro := @splitText_of_not_mem _ _ '.' [] _ (hdot v.micro)
  rw [hminor, hmicro] at hmajor
  exact hmajor

/-- The weights of the components. -/
theorem mainNumber_mainText :
    mainNumber v.mainText = 1000000 * v.major.val + 1000 * v.minor.val + 10 * v.micro.val := by
  have hmajor := v.major.isLt
  have hminor := v.minor.isLt
  have hmicro := v.micro.isLt
  rw [mainNumber, splitText_mainText]
  simp only [List.foldl_cons, List.foldl_nil, addComponent, parseI64_digits]
  simp (disch := omega) only [wrapI64_eq]
  omega

theorem not_mem_mainText : '-' ∉ v.mainText := by
  have hdash : ∀ n : ℕ, '-' ∉ toDigits 10 n := fun n => not_mem_digits (by decide)
  simp [Version.mainText, hdash]

theorem getVersionNumber_text : getVersionNumber v.text =
    1000000 * v.major.val + 1000 * v.minor.val + 10 * v.micro.val + v.patchNumber := by
  have hmajor := v.major.isLt
  have hminor := v.minor.isLt
  have hmicro := v.micro.isLt
  cases hpatch : v.patch with
  | none =>
    have hsplit : splitText "-".toList v.text = [v.mainText] := by
      rw [Version.text, hpatch, elim_none, List.append_nil]
      exact splitText_of_not_mem not_mem_mainText
    rw [getVersionNumber, hsplit, Version.patchNumber, hpatch]
    exact mainNumber_mainText.trans (Int.add_zero _).symm
  | some p =>
    have hp := p.isLt
    have hsplit : splitText "-".toList v.text = [v.mainText, toDigits 10 p] := by
      have hcut := @splitText_append_sep _ _ '-' [] _ (@not_mem_mainText v) (toDigits 10 p)
      rw [@splitText_of_not_mem _ _ '-' [] _ (not_mem_digits (by decide)), List.append_assoc] at hcut
      rw [Version.text, hpatch]
      exact hcut
    rw [getVersionNumber, hsplit, Version.patchNumber, hpatch, elim_some]
    simp only [mainNumber_mainText, parseI64_digits]
    exact wrapI64_eq (by omega) (by omega)

theorem key_lt_iff : v.key < w.key ↔ v.major < w.major ∨ v.major = w.major ∧ (v.minor < w.minor ∨
    v.minor = w.minor ∧ (v.micro < w.micro ∨ v.micro = w.micro ∧ v.patchNumber < w.patchNumber)) := by
  simp only [Version.key, Prod.Lex.toLex_lt_toLex, Fin.lt_def, Fin.ext_iff]

/-- What does not fit runs into the next number: a later version has no larger number. -/
theorem exists_later_le (hv : ¬ v.Fits) (hminor : v.minor.val < 999) (hmicro : v.micro.val < 999) :
    ∃ w : Version, v.key < w.key ∧ getVersionNumber w.text ≤ getVersionNumber v.text := by
  by_cases hpatch : v.patchNumber < 10
  · have hlarge : 100 ≤ v.micro.val := not_lt.mp fun hlt => hv ⟨hlt, hpatch⟩
    refine ⟨⟨v.major, ⟨v.minor.val + 1, by omega⟩, 0, none⟩, ?_, ?_⟩
    · exact key_lt_iff.mpr (.inr ⟨rfl, .inl (lt_succ_self _)⟩)
    · rw [getVersionNumber_text, getVersionNumber_text]
      simp only [Version.patchNumber, elim_none, Fin.val_zero]
      omega
  · refine ⟨⟨v.major, v.minor, ⟨v.micro.val + 1, by omega⟩, none⟩, ?_, ?_⟩
    · exact key_lt_iff.mpr (.inr ⟨rfl, .inr ⟨rfl, .inl (lt_succ_self _)⟩⟩)
    · rw [getVersionNumber_text, getVersionNumber_text]
      simp only [Version.patchNumber, elim_none] at hpatch ⊢
      omega

/-- `1.1.100` and `1.2.0` have one number. -/
theorem exists_later_le_hundred : ∃ w : Version, Version.key ⟨1, 1, 100, none⟩ < w.key ∧
    getVersionNumber w.text ≤ getVersionNumber (Version.text ⟨1, 1, 100, none⟩) :=
  exists_later_le (fun hfits => absurd hfits.micro (by decide)) (by decide) (by decide)

end Reading

/-- The numbers order the versions: a version below another one has the smaller number, if its last two numbers are
within the places that are left for them. -/
theorem versionNumber_lt {v w : Version} (hv : v.Fits) (h : v.key < w.key) :
    getVersionNumber v.text < getVersionNumber w.text := by
  have hmicro := hv.micro
  have hpatch := hv.patch
  have hminor := v.minor.isLt
  rw [key_lt_iff, Fin.lt_def, Fin.ext_iff, Fin.lt_def, Fin.ext_iff, Fin.lt_def, Fin.ext_iff] at h
  rw [getVersionNumber_text, getVersionNumber_text]
  omega

/-- `1.1.10-1` and `1.1.11`. -/
theorem versionNumber_lt_patch :
    getVersionNumber (Version.text ⟨1, 1, 10, some 1⟩) < getVersionNumber (Version.text ⟨1, 1, 11, none⟩) :=
  versionNumber_lt ⟨by decide, by decide⟩ (key_lt_iff.mpr (by decide))

/-- `1.1.1-10` and `1.1.2` have one number. -/
theorem not_versionNumber_lt_ten :
    ¬ ∀ v w : Version, v.key < w.key → getVersionNumber v.text < getVersionNumber w.text := by
  intro h
  have hlt := h ⟨1, 1, 1, some 10⟩ ⟨1, 1, 2, none⟩ (key_lt_iff.mpr (by decide))
  rw [getVersionNumber_text, getVersionNumber_text] at hlt
  exact absurd hlt (by decide)

end VersionNumber

end UnyDesk
