import Mathlib.Data.List.Basic

/-!
# Maps as lists of entries

A map whose order of iteration is not determined is a list of entries in some order. A change of the entry of a key
keeps the order, and a property of all values is kept by changes that keep it.
-/

namespace UnyDesk.Lib.Entries

open List

variable {K V : Type*} [DecidableEq K]

def modify (key : K) (change : V → V) (entries : List (K × V)) : List (K × V) :=
  entries.map fun entry => if entry.1 = key then (entry.1, change entry.2) else entry

def erase (key : K) (entries : List (K × V)) : List (K × V) := entries.filter (·.1 ≠ key)

def insert (key : K) (value : V) (entries : List (K × V)) : List (K × V) := erase key entries ++ [(key, value)]

variable {key key' : K} {value : V} {change : V → V} {entries : List (K × V)}

theorem lookup_modify : (modify key change entries).lookup key = (entries.lookup key).map change := by
  induction entries with
  | nil => rfl
  | cons entry entries ih =>
    rw [modify, map_cons]
    by_cases h : entry.1 = key
    · have hkey : (key == entry.1) = true := beq_iff_eq.mpr h.symm
      rw [if_pos h, lookup_cons, lookup_cons, hkey]
      rfl
    · have hkey : (key == entry.1) = false := beq_eq_false_iff_ne.mpr (Ne.symm h)
      rw [if_neg h, lookup_cons, lookup_cons, hkey]
      exact ih

section Lookup

variable [BEq K] [LawfulBEq K]

theorem lookup_erase_self : (erase key entries).lookup key = none := by
  rw [lookup_eq_none_iff]
  intro entry hentry
  have hne : entry.1 ≠ key := by simpa using (mem_filter.mp hentry).2
  exact bne_iff_ne.mpr hne.symm

theorem lookup_erase_of_ne (h : key' ≠ key) : (erase key entries).lookup key' = entries.lookup key' := by
  induction entries with
  | nil => rfl
  | cons entry entries ih =>
    by_cases hkey : entry.1 = key
    · have hskip : (key' == entry.1) = false := beq_eq_false_iff_ne.mpr (hkey ▸ h)
      rw [erase, filter_cons_of_neg (by simpa using hkey), lookup_cons, hskip]
      exact ih
    · rw [erase, filter_cons_of_pos (by simpa using hkey), lookup_cons, lookup_cons]
      cases key' == entry.1 with
      | true => rfl
      | false => exact ih

theorem lookup_insert_self : (insert key value entries).lookup key = some value := by
  rw [insert, lookup_append, lookup_erase_self]
  simp

theorem lookup_insert_of_ne (h : key' ≠ key) : (insert key value entries).lookup key' = entries.lookup key' := by
  have hone : lookup key' [(key, value)] = none := by
    simp [lookup_cons, beq_eq_false_iff_ne.mpr h]
  rw [insert, lookup_append, lookup_erase_of_ne h, hone, Option.or_none]

end Lookup

section Forall

variable {P : V → Prop}

section

variable (h : ∀ entry ∈ entries, P entry.2)
include h

theorem forall_modify (hchange : ∀ value, P value → P (change value)) :
    ∀ entry ∈ modify key change entries, P entry.2 := by
  intro entry hentry
  obtain ⟨old, hold, rfl⟩ := mem_map.mp hentry
  split
  · exact hchange old.2 (h old hold)
  · exact h old hold

theorem forall_erase : ∀ entry ∈ erase key entries, P entry.2 :=
  fun entry hentry => h entry (mem_filter.mp hentry).1

theorem forall_insert (hvalue : P value) :
    ∀ entry ∈ insert key value entries, P entry.2 := by
  intro entry hentry
  rcases mem_append.mp hentry with hentry | hentry
  · exact forall_erase h entry hentry
  · rw [mem_singleton.mp hentry]
    exact hvalue

end

end Forall

end UnyDesk.Lib.Entries
