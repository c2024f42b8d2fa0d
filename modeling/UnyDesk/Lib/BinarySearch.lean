import Mathlib.Data.List.Pairwise
import Mathlib.Order.Lattice

/-!
# Binary search

The search of a sorted list halves the part in which an element may lie until one place is left, and looks at the
element there once more. In a list that increases strictly it finds every element at its only place.
-/

namespace UnyDesk.Lib.BinarySearch

variable {A : Type*} [LinearOrder A] {i : ℕ}

/-- The place that is left of the part of the given size that starts at the base. -/
def narrow (xs : List A) (x : A) (base size : ℕ) : ℕ :=
  if 1 < size then
    let half := size / 2
    let mid := base + half
    match xs[mid]? with
    | none => narrow xs x base (size - half)
    | some y => narrow xs x (if x < y then base else mid) (size - half)
  else base
termination_by size

/-- `binary_search`, where it finds something. -/
def search (xs : List A) (x : A) : Option ℕ :=
  let base := narrow xs x 0 xs.length
  if xs[base]? = some x then some base else none

variable {xs : List A} {x : A}

theorem getElem?_of_search (h : search xs x = some i) : xs[i]? = some x := by
  simp only [search] at h
  split at h
  next hfound =>
    cases h
    exact hfound
  next => cases h

section Sorted

variable (hsorted : xs.Pairwise (· < ·))
include hsorted

/-- The place of an element stays in the part that is searched. -/
theorem narrow_eq {i base size : ℕ} (hi : xs[i]? = some x) (hbase : base ≤ i)
    (hsize : i < base + size) : narrow xs x base size = i := by
  induction size using Nat.strongRecOn generalizing base with
  | _ size ih =>
    unfold narrow
    split
    next hlarge =>
      have hlt : size - size / 2 < size := by omega
      obtain ⟨hilt, hix⟩ := List.getElem?_eq_some_iff.mp hi
      dsimp only
      cases hmid : xs[base + size / 2]? with
      | none =>
        have hlong := List.getElem?_eq_none_iff.mp hmid
        exact ih _ hlt hbase (by omega)
      | some y =>
        obtain ⟨hmidlt, hmidy⟩ := List.getElem?_eq_some_iff.mp hmid
        dsimp only
        split
        next hless =>
          have hbefore : i < base + size / 2 := by
            by_contra hafter
            obtain heq | hgt := Nat.eq_or_lt_of_le (Nat.not_lt.mp hafter)
            · have hsame : y = x := by
                rw [← hmidy, ← hix]
                simp only [heq]
              exact absurd hless (hsame ▸ lt_irrefl x)
            · have hgreater := List.pairwise_iff_getElem.mp hsorted _ _ hmidlt hilt hgt
              rw [hmidy, hix] at hgreater
              exact lt_asymm hless hgreater
          exact ih _ hlt hbase (by omega)
        next hnot =>
          have hafter : base + size / 2 ≤ i := by
            by_contra hbefore
            have hgreater := List.pairwise_iff_getElem.mp hsorted _ _ hilt hmidlt (Nat.not_le.mp hbefore)
            rw [hmidy, hix] at hgreater
            exact hnot hgreater
          exact ih _ hlt hafter (by omega)
    next hsmall => omega

/-- In a list that increases strictly the search finds exactly what is there. -/
theorem search_eq_some_iff : search xs x = some i ↔ xs[i]? = some x := by
  constructor
  · exact getElem?_of_search
  · intro hi
    have hilt : i < xs.length := (List.getElem?_eq_some_iff.mp hi).1
    have hbase : narrow xs x 0 xs.length = i := narrow_eq hsorted hi (Nat.zero_le i) (by omega)
    simp only [search, hbase, hi, if_true]

theorem isSome_search_iff : (search xs x).isSome ↔ x ∈ xs := by
  rw [Option.isSome_iff_exists, List.mem_iff_getElem?]
  exact exists_congr fun _ => search_eq_some_iff hsorted

/-- What is left when the element that was found is removed. -/
theorem mem_eraseIdx_search (h : search xs x = some i) {y : A} : y ∈ xs.eraseIdx i ↔ y ≠ x ∧ y ∈ xs := by
  have hi : xs[i]? = some x := getElem?_of_search h
  rw [List.mem_eraseIdx_iff_getElem?]
  constructor
  · rintro ⟨j, hji, hj⟩
    refine ⟨fun hyx => hji ?_, List.mem_of_getElem? hj⟩
    rw [hyx] at hj
    exact Option.some.inj (((search_eq_some_iff hsorted).mpr hj).symm.trans h)
  · rintro ⟨hyx, hy⟩
    obtain ⟨j, hj⟩ := List.mem_iff_getElem?.mp hy
    refine ⟨j, fun hji => hyx ?_, hj⟩
    rw [hji] at hj
    exact Option.some.inj (hj.symm.trans hi)

end Sorted

end UnyDesk.Lib.BinarySearch
