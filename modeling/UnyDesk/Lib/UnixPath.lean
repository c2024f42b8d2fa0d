import Mathlib.Data.List.DropRight

/-!
# The path grammar of Unix

A path is a text of bytes with parts between slashes. An empty part and a single dot lead nowhere, two dots lead to
the directory above, and every other part is a name. A name ends with an extension after its last dot, unless that dot
is its first byte; what stands before it is the stem.
-/

namespace UnyDesk.Lib.UnixPath

open List

def slash : UInt8 := 0x2F

def dot : UInt8 := 0x2E

inductive Component
  | rootDir
  | curDir
  | parentDir
  | normal (name : List UInt8)
deriving DecidableEq

abbrev Path := List Component

/-- Where a part between slashes leads. -/
def ofPart (part : List UInt8) : Option Component :=
  if part = [] ∨ part = [dot] then none
  else if part = [dot, dot] then some .parentDir
  else some (.normal part)

def names (text : List UInt8) : Path := (text.splitOn slash).filterMap ofPart

/-- The components of a path; a dot is one of them only at the front of a relative path. -/
def components (text : List UInt8) : Path :=
  if text.head? = some slash then .rootDir :: names text
  else if (text.splitOn slash).head? = some [dot] then .curDir :: names text
  else names text

/-- A path behind another one. -/
def push (base path : Path) : Path :=
  match path with
  | .rootDir :: _ => path
  | .curDir :: rest => if base = [] then path else base ++ rest
  | _ => base ++ path

def fileName (path : Path) : Option (List UInt8) :=
  match path.getLast? with
  | some (.normal name) => some name
  | _ => none

/-- What stands before the last dot of a name, and what stands behind it. -/
def splitAtDot (name : List UInt8) : Option (List UInt8) × Option (List UInt8) :=
  if name = [dot, dot] then (some name, none)
  else if dot ∈ name then
    let before := (name.rdropWhile (· ≠ dot)).dropLast
    if before = [] then (some name, none) else (some before, some (name.rtakeWhile (· ≠ dot)))
  else (none, some name)

def fileStem (path : Path) : Option (List UInt8) :=
  (fileName path).bind fun name => (splitAtDot name).1.or (splitAtDot name).2

def extension (path : Path) : Option (List UInt8) :=
  (fileName path).bind fun name => (splitAtDot name).1.bind fun _ => (splitAtDot name).2

/-- The path with another extension; a path without a file name stays as it is. -/
def withExtension (path : Path) (ext : List UInt8) : Path :=
  match fileStem path with
  | some stem => path.dropLast ++ [.normal (if ext = [] then stem else stem ++ dot :: ext)]
  | none => path

section Names

variable {front back part text : List UInt8}

theorem names_append (front back : List UInt8) : names (front ++ slash :: back) = names front ++ names back := by
  rw [names, splitOn_append_cons_self, filterMap_append]
  rfl

/-- A name is one component. -/
theorem names_of_part (hslash : slash ∉ part) (hne : part ≠ []) (hdot : part ≠ [dot]) (hdots : part ≠ [dot, dot]) :
    names part = [.normal part] := by
  have hpart : ofPart part = some (.normal part) := by
    rw [ofPart, if_neg (not_or.mpr ⟨hne, hdot⟩), if_neg hdots]
  rw [names, splitOn_eq_singleton hslash, filterMap_cons, hpart]
  rfl

/-- Without dots, only slashes lead nowhere. -/
theorem eq_slash_of_names_eq_nil (hdot : dot ∉ text) (h : names text = []) : ∀ b ∈ text, b = slash := by
  induction text with
  | nil => simp
  | cons b text ih =>
    obtain ⟨hb, htext⟩ : dot ≠ b ∧ dot ∉ text := by simpa using hdot
    by_cases hslash : b = slash
    · have hrest : names text = [] := by
        rw [hslash] at h
        exact (append_eq_nil_iff.mp ((names_append [] text).symm.trans h)).2
      exact forall_mem_cons.mpr ⟨hslash, ih htext hrest⟩
    · obtain ⟨part, parts, hparts⟩ := exists_cons_of_ne_nil (splitOn_ne_nil slash text)
      have hsplit : (b :: text).splitOn slash = (b :: part) :: parts := by
        rw [splitOn_cons_eq_if_modifyHead, if_neg (by simpa using hslash), hparts]
        rfl
      rw [names, hsplit, filterMap_eq_nil_iff] at h
      have hnone := h (b :: part) mem_cons_self
      rw [ofPart, if_neg (by simp [Ne.symm hb])] at hnone
      split at hnone <;> cases hnone

section Components

variable (hslash : slash ∉ part) (hne : part ≠ []) (hdot : part ≠ [dot]) (hdots : part ≠ [dot, dot])
include hne hdot

/-- A text whose first part is a name has the components of its parts. -/
theorem components_eq_names {parts : List (List UInt8)} (h : text.splitOn slash = part :: parts) :
    components text = names text := by
  have hhead : text.head? ≠ some slash := by
    intro hfirst
    obtain ⟨rest, rfl⟩ := head?_eq_some_iff.mp hfirst
    rw [splitOn_cons_eq_if_modifyHead, if_pos (beq_self_eq_true slash)] at h
    exact hne (cons.inj h).1.symm
  rw [components, if_neg hhead, h, head?_cons, if_neg (by simpa using hdot)]

include hslash hdots

theorem components_of_part : components part = [.normal part] := by
  rw [components_eq_names hne hdot (splitOn_eq_singleton hslash), names_of_part hslash hne hdot hdots]

theorem components_append (back : List UInt8) : components (part ++ slash :: back) = .normal part :: names back := by
  have hsplit := splitOn_append_cons_self_of_not_mem hslash back
  rw [components_eq_names hne hdot hsplit, names_append, names_of_part hslash hne hdot hdots]
  rfl

end Components

end Names

section Extension

variable {front ext name : List UInt8} {path : Path}

/-- A dot that is the last one cuts a name. -/
theorem splitAtDot_append (hfront : front ≠ []) (hext : dot ∉ ext) (hdots : front ++ dot :: ext ≠ [dot, dot]) :
    splitAtDot (front ++ dot :: ext) = (some front, some ext) := by
  have hstop : ∀ b ∈ ext.reverse, decide (b ≠ dot) = true := by
    intro b hb
    exact decide_eq_true fun heq => hext (heq ▸ mem_reverse.mp hb)
  have hbefore : ((front ++ dot :: ext).rdropWhile (· ≠ dot)).dropLast = front := by
    rw [rdropWhile, reverse_append, reverse_cons, append_assoc, dropWhile_append_of_pos hstop]
    simp
  have hafter : (front ++ dot :: ext).rtakeWhile (· ≠ dot) = ext := by
    rw [rtakeWhile, reverse_append, reverse_cons, append_assoc, takeWhile_append_of_pos hstop]
    simp
  have hmem : dot ∈ front ++ dot :: ext := mem_append_right front mem_cons_self
  rw [splitAtDot, if_neg hdots, if_pos hmem, hbefore, hafter, if_neg hfront]

theorem splitAtDot_cons (hext : dot ∉ ext) : splitAtDot (dot :: ext) = (some (dot :: ext), none) := by
  have hstop : ∀ b ∈ ext.reverse, decide (b ≠ dot) = true := by
    intro b hb
    exact decide_eq_true fun heq => hext (heq ▸ mem_reverse.mp hb)
  have hbefore : ((dot :: ext).rdropWhile (· ≠ dot)).dropLast = [] := by
    rw [rdropWhile, reverse_cons, dropWhile_append_of_pos hstop]
    simp
  have hdots : dot :: ext ≠ [dot, dot] := by
    rintro heq
    rw [(cons.inj heq).2] at hext
    exact hext mem_cons_self
  rw [splitAtDot, if_neg hdots, if_pos mem_cons_self]
  simp only [hbefore, if_true]

theorem splitAtDot_of_not_mem (h : dot ∉ name) : splitAtDot name = (none, some name) := by
  have hdots : name ≠ [dot, dot] := by
    rintro rfl
    exact h mem_cons_self
  rw [splitAtDot, if_neg hdots, if_neg h]

@[simp] theorem fileName_append (path : Path) (name : List UInt8) : fileName (path ++ [.normal name]) = some name := by
  simp [fileName]

section FileName

variable {before after : Option (List UInt8)} (h : splitAtDot name = (before, after))
include h

theorem fileStem_append : fileStem (path ++ [.normal name]) = before.or after := by
  rw [fileStem, fileName_append, Option.bind_some, h]

theorem extension_append : extension (path ++ [.normal name]) = before.bind fun _ => after := by
  rw [extension, fileName_append, Option.bind_some, h]

theorem withExtension_append {stem : List UInt8} (hstem : before.or after = some stem) (hext : ext ≠ []) :
    withExtension (path ++ [.normal name]) ext = path ++ [.normal (stem ++ dot :: ext)] := by
  rw [withExtension, fileStem_append h, hstem]
  dsimp only
  rw [if_neg hext, dropLast_concat]

end FileName

/-- A new extension leaves the depth of a path as it was. -/
theorem length_withExtension (path : Path) (ext : List UInt8) : (withExtension path ext).length = path.length := by
  rw [withExtension]
  split
  · next stem hstem =>
    have hne : path ≠ [] := by
      rintro rfl
      cases hstem
    rw [length_append, length_dropLast, length_singleton]
    exact Nat.sub_add_cancel (length_pos_iff.mpr hne)
  · rfl

end Extension

end UnyDesk.Lib.UnixPath
