import Mathlib.Data.List.Infix

/-!
# Path texts

A path is a text that is read as a list of components. Its lexical normal form leaves out `.` and lets `..` take the name
before it away; what is above a root is the root. Components without `..` only lead further down.
-/

namespace UnyDesk.Lib

open List

/-- A component of a path, where `H` is what a path may begin with apart from a root. -/
inductive PathComponent (H : Type)
  | head (h : H)
  | rootDir
  | curDir
  | parentDir
  | normal (name : List Char)
deriving DecidableEq

namespace PathText

/-- The parts between the separators. -/
def splitBy (sep : Char → Bool) : List Char → List (List Char)
  | [] => [[]]
  | c :: cs =>
    if sep c then [] :: splitBy sep cs
    else
      match splitBy sep cs with
      | [] => [[c]]
      | part :: parts => (c :: part) :: parts

section Split

variable {sep : Char → Bool} {c : Char}

theorem splitBy_ne_nil (path : List Char) : splitBy sep path ≠ [] := by
  cases path with
  | nil => exact cons_ne_nil _ _
  | cons c cs =>
    unfold splitBy
    split
    · exact cons_ne_nil _ _
    · split <;> exact cons_ne_nil _ _

/-- A separator parts a path in two. -/
theorem splitBy_append_sep (hc : sep c = true) (path path' : List Char) :
    splitBy sep (path ++ c :: path') = splitBy sep path ++ splitBy sep path' := by
  induction path with
  | nil => simp [splitBy, hc]
  | cons d ds ih =>
    obtain ⟨part, parts, hparts⟩ := exists_cons_of_ne_nil (show splitBy sep ds ≠ [] from splitBy_ne_nil ds)
    by_cases hd : sep d = true
    · simp [splitBy, hd, ih]
    · simp [splitBy, hd, ih, hparts]

/-- A text without separators is one part. -/
theorem splitBy_of_free {path : List Char} (hfree : ∀ c ∈ path, sep c = false) : splitBy sep path = [path] := by
  induction path with
  | nil => rfl
  | cons d ds ih =>
    obtain ⟨hd, hds⟩ := forall_mem_cons.mp hfree
    simp [splitBy, hd, ih hds]

/-- The parts have no separators. -/
theorem free_of_mem_splitBy {path part : List Char} (h : part ∈ splitBy sep path) : ∀ c ∈ part, sep c = false := by
  induction path generalizing part with
  | nil =>
    rw [mem_singleton.mp h]
    exact nofun
  | cons d ds ih =>
    obtain ⟨first, parts, hparts⟩ := exists_cons_of_ne_nil (show splitBy sep ds ≠ [] from splitBy_ne_nil ds)
    by_cases hd : sep d = true
    · rw [splitBy, if_pos hd] at h
      obtain rfl | h := mem_cons.mp h
      · exact nofun
      · exact ih h
    · rw [splitBy, if_neg hd, hparts] at h
      obtain rfl | h := mem_cons.mp h
      · refine forall_mem_cons.mpr ⟨Bool.eq_false_iff.mpr hd, ih ?_⟩
        rw [hparts]
        exact mem_cons_self
      · refine ih ?_
        rw [hparts]
        exact mem_cons_of_mem _ h

/-- A text without separators after a path extends its last part. -/
theorem splitBy_append_free (path : List Char) {suffix : List Char} (hfree : ∀ c ∈ suffix, sep c = false) :
    ∃ parts last, splitBy sep path = parts ++ [last] ∧ splitBy sep (path ++ suffix) = parts ++ [last ++ suffix] := by
  induction path with
  | nil => exact ⟨[], [], rfl, splitBy_of_free hfree⟩
  | cons d ds ih =>
    obtain ⟨parts, last, hpath, hlong⟩ := ih
    by_cases hd : sep d = true
    · exact ⟨[] :: parts, last, by simp [splitBy, hd, hpath], by simp [splitBy, hd, hlong]⟩
    · cases parts with
      | nil => exact ⟨[], d :: last, by simp [splitBy, hd, hpath], by simp [splitBy, hd, hlong]⟩
      | cons part parts => exact ⟨(d :: part) :: parts, last, by simp [splitBy, hd, hpath], by simp [splitBy, hd, hlong]⟩

end Split

section Parent

variable {H : Type}

/-- The path without its last component, if that is no head or root. -/
def parent (path : List (PathComponent H)) : Option (List (PathComponent H)) :=
  match path.getLast? with
  | some (.normal _) | some .curDir | some .parentDir => some path.dropLast
  | some (.head _) | some .rootDir | none => none

theorem length_of_parent {path path' : List (PathComponent H)} (h : parent path = some path') :
    path.length = path'.length + 1 := by
  rw [parent] at h
  cases hlast : path.getLast? with
  | none =>
    rw [hlast] at h
    cases h
  | some last =>
    have hpos : 0 < path.length := length_pos_of_mem (mem_of_getLast? hlast)
    have hdropped : path' = path.dropLast := by
      rw [hlast] at h
      cases last <;> cases h <;> rfl
    rw [hdropped, length_dropLast]
    omega

end Parent

section Normalise

variable {H : Type}

/-- The components so far, and one more. -/
def normaliseStep (stack : List (PathComponent H)) : PathComponent H → List (PathComponent H)
  | .curDir => stack
  | .parentDir =>
    match stack.getLast? with
    | some (.normal _) => stack.dropLast
    | some .rootDir => stack
    | _ => stack ++ [.parentDir]
  | c => stack ++ [c]

/-- The lexical normal form. -/
def normalise (components : List (PathComponent H)) : List (PathComponent H) := components.foldl normaliseStep []

/-- What a normal form leads to from another one. -/
def Below (form form' : List (PathComponent H)) : Prop := ∃ names : List (List Char), form' = form ++ names.map .normal

theorem below_foldl_normaliseStep {components : List (PathComponent H)}
    (h : ∀ c ∈ components, c = .curDir ∨ ∃ name, c = .normal name) (stack : List (PathComponent H)) :
    Below stack (components.foldl normaliseStep stack) := by
  induction components generalizing stack with
  | nil => exact ⟨[], by simp⟩
  | cons c cs ih =>
    obtain ⟨hc, hcs⟩ := forall_mem_cons.mp h
    obtain rfl | ⟨name, rfl⟩ := hc
    · exact ih hcs stack
    · obtain ⟨names, hnames⟩ := ih hcs (stack ++ [.normal name])
      exact ⟨name :: names, by simp [normaliseStep, hnames]⟩

/-- Names lead below. -/
theorem below_normalise_append (components : List (PathComponent H)) {more : List (PathComponent H)}
    (h : ∀ c ∈ more, c = .curDir ∨ ∃ name, c = .normal name) : Below (normalise components) (normalise (components ++ more)) := by
  unfold normalise
  rw [foldl_append]
  exact below_foldl_normaliseStep h _

end Normalise

end PathText

end UnyDesk.Lib
