import Mathlib.Data.Nat.Basic
import Mathlib.Order.Basic
import UnyDesk.Lib.FileSystem

/-!
# Copies of a file that grows

A file grows at its end, and its header is written again from time to time. A copy that is read from it piece by piece, each
piece at a position that the copy has reached, agrees with it behind the header. When the copy is as long as the file, the
header is all that it needs.
-/

namespace UnyDesk.Lib

open List

variable {B : Type*} [Inhabited B] {pos : ℕ} {old bytes : List B}

/-- The bytes behind a write that leaves no gap. -/
theorem getElem?_overwrite (hpos : pos ≤ old.length) (i : ℕ) :
    (overwrite old pos bytes)[i]? =
      if i < pos then old[i]? else if i < pos + bytes.length then bytes[i - pos]? else old[i]? := by
  have hgap : replicate (pos - old.length) (default : B) = [] := by simp [hpos]
  have htake : (old.take pos).length = pos := by simp [hpos]
  unfold overwrite
  rw [hgap, append_nil, append_assoc]
  split_ifs with hbefore hinside
  · rw [getElem?_append_left (by omega), getElem?_take_of_lt hbefore]
  · rw [getElem?_append_right (by omega), htake, getElem?_append_left (by omega)]
  · rw [getElem?_append_right (by omega), htake, getElem?_append_right (by omega), getElem?_drop]
    congr 1
    omega

theorem length_overwrite (hpos : pos ≤ old.length) :
    (overwrite old pos bytes).length = max old.length (pos + bytes.length) := by
  unfold overwrite
  simp only [length_append, length_take, length_replicate, length_drop]
  omega

theorem overwrite_nil {old : List B} (hpos : pos ≤ old.length) : overwrite old pos [] = old := by
  apply ext_getElem?
  intro i
  rw [getElem?_overwrite hpos, length_nil, Nat.add_zero]
  split_ifs with hbefore
  · rfl
  · rfl

/-- One write after another is one write. -/
theorem overwrite_append {old bytes more : List B} (hpos : pos ≤ old.length) :
    overwrite (overwrite old pos bytes) (pos + bytes.length) more = overwrite old pos (bytes ++ more) := by
  have hlong : pos + bytes.length ≤ (overwrite old pos bytes).length := by
    rw [length_overwrite hpos]
    exact le_max_right _ _
  apply ext_getElem?
  intro i
  rw [getElem?_overwrite hlong, getElem?_overwrite hpos, getElem?_overwrite hpos, length_append]
  by_cases hbefore : i < pos
  · rw [if_pos (by omega), if_pos hbefore, if_pos hbefore]
  · by_cases hinside : i < pos + bytes.length
    · rw [if_pos hinside, if_neg hbefore, if_pos hinside, if_neg hbefore, if_pos (by omega),
        getElem?_append_left (by omega)]
    · rw [if_neg hinside, if_neg hbefore, if_neg hinside, if_neg hbefore]
      by_cases hmore : i < pos + bytes.length + more.length
      · rw [if_pos hmore, if_pos (by omega), getElem?_append_right (by omega)]
        congr 1
        omega
      · rw [if_neg hmore, if_neg (by omega)]

/-- The copy has come as far as the position and agrees with the file behind the header. -/
structure Copies (header : ℕ) (copy file : List B) (pos : ℕ) : Prop where
  reached : pos ≤ copy.length
  le : copy.length ≤ file.length
  agree : ∀ i, header ≤ i → i < copy.length → copy[i]? = file[i]?

namespace Copies

variable {header pos : ℕ} {copy file bytes : List B}

omit [Inhabited B] in
theorem nil (header : ℕ) (file : List B) : Copies header [] file 0 :=
  ⟨le_rfl, Nat.zero_le _, fun i _ hi => absurd hi (Nat.not_lt_zero i)⟩

section

variable (h : Copies header copy file pos)
include h

omit [Inhabited B] in
/-- The file grows. -/
theorem append (bytes : List B) : Copies header copy (file ++ bytes) pos := by
  refine ⟨h.reached, ?_, fun i hheader hi => ?_⟩
  · rw [length_append]
    exact Nat.le_add_right_of_le h.le
  · rw [getElem?_append_left (hi.trans_le h.le)]
    exact h.agree i hheader hi

/-- The header is written again. -/
theorem rewrite {start : ℕ} (hheader : start + bytes.length ≤ header)
    (hstart : start ≤ file.length) : Copies header copy (overwrite file start bytes) pos := by
  refine ⟨h.reached, ?_, fun i hi hlt => ?_⟩
  · rw [length_overwrite hstart]
    exact h.le.trans (le_max_left _ _)
  · rw [getElem?_overwrite hstart, if_neg (by omega), if_neg (by omega)]
    exact h.agree i hi hlt

/-- A piece is read from the file into the copy. -/
theorem read {start : ℕ} (hstart : start ≤ copy.length) (n : ℕ) :
    Copies header (overwrite copy start ((file.drop start).take n)) file pos := by
  have hle := h.le
  have hpiece : ((file.drop start).take n).length ≤ file.length - start := by
    rw [length_take, length_drop]
    exact min_le_right _ _
  refine ⟨?_, ?_, fun i hheader hi => ?_⟩
  · rw [length_overwrite hstart]
    exact h.reached.trans (le_max_left _ _)
  · rw [length_overwrite hstart]
    omega
  · rw [length_overwrite hstart] at hi
    rw [getElem?_overwrite hstart]
    split_ifs with hbefore hinside
    · exact h.agree i hheader (by omega)
    · have hn : i - start < n := by
        rw [length_take] at hinside
        omega
      rw [getElem?_take_of_lt hn, getElem?_drop]
      congr 1
      omega
    · exact h.agree i hheader (by omega)

end

omit [Inhabited B] in
/-- The copy is known to have come further. -/
theorem reach (h : Copies header copy file pos) {pos' : ℕ} (hpos : pos' ≤ copy.length) : Copies header copy file pos' :=
  ⟨hpos, h.le, h.agree⟩

/-- A copy as long as the file is the file once it has its header. -/
theorem complete (h : Copies header copy file pos) (hlength : file.length ≤ copy.length) :
    overwrite copy 0 (file.take header) = file := by
  have hle := h.le
  apply ext_getElem?
  intro i
  rw [getElem?_overwrite (Nat.zero_le _), if_neg (Nat.not_lt_zero i), Nat.sub_zero, Nat.zero_add, length_take]
  split_ifs with hi
  · exact getElem?_take_of_lt (by omega)
  · by_cases hlt : i < copy.length
    · exact h.agree i (by omega) hlt
    · rw [getElem?_eq_none (by omega), getElem?_eq_none (by omega)]

end Copies

end UnyDesk.Lib
