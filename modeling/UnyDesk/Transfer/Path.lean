import UnyDesk.Lib.FileSystem
import UnyDesk.Proto.Message

/-!
# Destination paths of a transfer

The names in a transfer come from the peer. They are checked as texts, joined to the base path
of the job and extended by `.download` and `.digest`. The operating system then reads a text by
its components, so that two texts can lead to one file; the checks of a non-Windows build are
modelled.
-/

namespace UnyDesk

open Lib List

/-- The parts of a path text between its separators. -/
def segments : List Char → List (List Char)
  | [] => [[]]
  | c :: cs =>
    if c = '/' then [] :: segments cs
    else
      match segments cs with
      | [] => [[c]]
      | s :: rest => (c :: s) :: rest

/-- A file of the system, by the components that lead to it. -/
abbrev Location := List (List Char)

/-- A component that the system passes over. -/
def skippedSegment (s : List Char) : Bool := s = [] ∨ s = ['.']

/-- The marker of a path that starts at the root. -/
def rootMarker (path : List Char) : Location := if path.head? = some '/' then [['/']] else []

/-- The file that a path text leads to. -/
def locate (path : String) : Location :=
  rootMarker path.toList ++ (segments path.toList).filter fun s => !skippedSegment s

/-- `validate_file_name_no_traversal`. -/
def validateFileNameNoTraversal (name : String) : Except String Unit :=
  if name.toList.any (· = '\x00') then .error "file name contains null bytes"
  else if (segments name.toList).any (· = ['.', '.']) then .error "path traversal detected in file name"
  else if name.toList.head? = some '/' then .error "absolute path detected in file name"
  else .ok ()

section

variable (base name : String)

/-- `PathBuf::join` on path texts. -/
def pathJoin : String :=
  if name.toList.head? = some '/' then name
  else if base.toList.getLast? = none ∨ base.toList.getLast? = some '/' then base ++ name
  else base ++ "/" ++ name

/-- `TransferJob::join`. -/
def joinPath : String := if name = "" then base else pathJoin base name

/-- `join_validated_path`; the check for symbolic links ends with what the system reports. -/
def joinValidatedPath (symlinkCheck : Except String Unit) : Except String String := do
  validateFileNameNoTraversal name
  symlinkCheck
  return joinPath base name

end

theorem joinValidatedPath_eq_ok {base name path : String} {symlinkCheck : Except String Unit}
    (h : joinValidatedPath base name symlinkCheck = .ok path) : path = joinPath base name := by
  unfold joinValidatedPath at h
  cases hname : validateFileNameNoTraversal name with
  | error e => simp [hname, bind, Except.bind] at h
  | ok u =>
    cases symlinkCheck with
    | error e => simp [hname, bind, Except.bind] at h
    | ok u => simpa [hname, bind, Except.bind, pure, Except.pure] using h.symm

/-- The file that receives the blocks of a destination. -/
def downloadPath (path : String) : String := path ++ ".download"

/-- The file that keeps the digest of a destination while it is received. -/
def digestPath (path : String) : String := path ++ ".digest"

section Locate

variable {path suffix : String} {base name : String}

section

variable (path : List Char)

/-- What precedes the last separator. -/
def stem : Location :=
  rootMarker path ++ (segments path).dropLast.filter fun s => !skippedSegment s

/-- What follows the last separator. -/
def lastSegment : List Char := (segments path).getLast?.getD []

theorem segments_ne_nil : segments path ≠ [] := by
  cases path with
  | nil => simp [segments]
  | cons c cs =>
    unfold segments
    split
    · simp
    · cases segments cs <;> simp

theorem segments_eq : segments path = (segments path).dropLast ++ [lastSegment path] := by
  have hne := segments_ne_nil path
  unfold lastSegment
  rw [getLast?_eq_getLast_of_ne_nil hne, Option.getD_some, dropLast_append_getLast hne]

end

/-- Text without a separator extends the last component. -/
theorem segments_append {suffix : List Char} (hsuffix : '/' ∉ suffix) (path : List Char) :
    segments (path ++ suffix) = (segments path).dropLast ++ [lastSegment path ++ suffix] := by
  induction path with
  | nil =>
    simp only [nil_append, segments, lastSegment]
    induction suffix with
    | nil => rfl
    | cons c cs ih =>
      have hc : c ≠ '/' := fun heq => hsuffix (heq ▸ mem_cons_self)
      have hcs := ih fun hmem => hsuffix (mem_cons_of_mem c hmem)
      simp_all [segments]
  | cons c cs ih =>
    have hne := segments_ne_nil cs
    by_cases hc : c = '/'
    · simp [segments, hc, ih, lastSegment, dropLast_cons_of_ne_nil hne, getLast?_cons,
        getLast?_eq_getLast_of_ne_nil hne]
    · simp only [cons_append, segments, hc, if_false, ih, lastSegment]
      obtain ⟨s, rest, hsegments⟩ := exists_cons_of_ne_nil hne
      cases rest with
      | nil => simp [hsegments]
      | cons t rest => simp [hsegments]

theorem rootMarker_append {suffix : List Char} (hsuffix : '/' ∉ suffix) (path : List Char) :
    rootMarker (path ++ suffix) = rootMarker path := by
  cases path with
  | nil =>
    cases suffix with
    | nil => rfl
    | cons c cs =>
      have hc : c ≠ '/' := fun heq => hsuffix (heq ▸ mem_cons_self)
      simp [rootMarker, hc]
  | cons c cs => simp [rootMarker]

/-- A suffix of two or more characters makes a component of its own name. -/
theorem locate_append (hsuffix : '/' ∉ suffix.toList)
    (hlength : 2 ≤ suffix.toList.length) :
    locate (path ++ suffix) = stem path.toList ++ [lastSegment path.toList ++ suffix.toList] := by
  have hkept : skippedSegment (lastSegment path.toList ++ suffix.toList) = false := by
    have hlong : 2 ≤ (lastSegment path.toList ++ suffix.toList).length := by
      rw [length_append]
      omega
    unfold skippedSegment
    rw [decide_eq_false_iff_not]
    rintro (h | h) <;> simp [h] at hlong
  unfold locate stem
  rw [String.toList_append, rootMarker_append hsuffix, segments_append hsuffix, filter_append, append_assoc]
  simp [hkept]

theorem locate_downloadPath (path : String) :
    locate (downloadPath path) = stem path.toList ++ [lastSegment path.toList ++ ".download".toList] :=
  locate_append (by decide) (by decide)

theorem locate_digestPath (path : String) :
    locate (digestPath path) = stem path.toList ++ [lastSegment path.toList ++ ".digest".toList] :=
  locate_append (by decide) (by decide)

theorem locate_eq (path : String) :
    locate path = stem path.toList ++ [lastSegment path.toList].filter fun s => !skippedSegment s := by
  unfold locate stem
  conv_lhs => rw [segments_eq path.toList]
  rw [filter_append, append_assoc]

/-- An extended path leads to another file than the path itself. -/
theorem locate_append_ne (hsuffix : '/' ∉ suffix.toList)
    (hlength : 2 ≤ suffix.toList.length) : locate (path ++ suffix) ≠ locate path := by
  rw [locate_append hsuffix hlength, locate_eq]
  intro h
  have hlast := append_cancel_left h
  cases hskip : skippedSegment (lastSegment path.toList) with
  | true => simp [hskip] at hlast
  | false =>
    have hnil : suffix.toList = [] := by simpa [hskip] using hlast
    rw [hnil] at hlength
    simp at hlength

theorem locate_downloadPath_ne (path : String) : locate (downloadPath path) ≠ locate path :=
  locate_append_ne (by decide) (by decide)

theorem locate_digestPath_ne (path : String) : locate (digestPath path) ≠ locate path :=
  locate_append_ne (by decide) (by decide)

/-- Received blocks and a digest are never kept in one file. -/
theorem locate_downloadPath_ne_digestPath (path path' : String) :
    locate (downloadPath path) ≠ locate (digestPath path') := by
  rw [locate_downloadPath, locate_digestPath]
  intro h
  have hnames := (cons.inj (append_inj_right' h rfl)).1
  have hd : ".download".toList.getLast? = some 'd' := by decide
  have ht : ".digest".toList.getLast? = some 't' := by decide
  have hlast := congrArg getLast? hnames
  rw [getLast?_append, getLast?_append, hd, ht] at hlast
  simp at hlast

/-- The components of a relative name. -/
def components (name : String) : Location := (segments name.toList).filter fun s => !skippedSegment s

theorem segments_append_slash (path name : List Char) :
    segments (path ++ '/' :: name) = segments path ++ segments name := by
  induction path with
  | nil => simp [segments]
  | cons c cs ih =>
    obtain ⟨s, rest, hsegments⟩ := exists_cons_of_ne_nil (segments_ne_nil cs)
    by_cases hc : c = '/'
    · simp [segments, hc, ih]
    · simp [segments, hc, ih, hsegments]

theorem rootMarker_append_slash (path name : List Char) :
    rootMarker (path ++ '/' :: name) = if path = [] then [['/']] else rootMarker path := by
  cases path <;> simp [rootMarker]

/-- A name that the checks accept is not an absolute path. -/
theorem head?_ne_of_valid {name : String} (h : validateFileNameNoTraversal name = .ok ()) :
    name.toList.head? ≠ some '/' := by
  intro hroot
  unfold validateFileNameNoTraversal at h
  split at h
  · simp at h
  split at h
  · simp at h
  simp at h

theorem locate_pathJoin (hname : name.toList.head? ≠ some '/') :
    locate (pathJoin base name) = locate base ++ components name := by
  rw [pathJoin, if_neg hname]
  rcases eq_nil_or_concat base.toList with hnil | ⟨stem, last, hlast⟩
  · simp [locate, components, hnil, rootMarker, segments, skippedSegment, hname]
  · by_cases hslash : last = '/'
    · -- The base ends with a separator, which adds an empty component.
      have hbase : base.toList = stem ++ '/' :: [] := by simpa [hslash] using hlast
      rw [if_pos (.inr (by simp [hbase]))]
      simp only [locate, components, String.toList_append, hbase, append_assoc, cons_append,
        nil_append, segments_append_slash, rootMarker_append_slash, filter_append]
      simp [segments, skippedSegment]
    · have hne : stem ++ [last] ≠ [] := by simp
      rw [if_neg (by simp [hlast, hslash])]
      simp only [locate, components, String.toList_append, append_assoc]
      rw [show "/".toList = ['/'] from rfl, hlast]
      simp only [singleton_append, concat_eq_append]
      rw [segments_append_slash, rootMarker_append_slash, if_neg hne, filter_append]

/-- The place of an entry is its components below the base path. -/
theorem locate_joinPath (hname : name.toList.head? ≠ some '/') :
    locate (joinPath base name) = locate base ++ components name := by
  unfold joinPath
  split
  next hempty => simp [hempty, components, segments, skippedSegment]
  next => exact locate_pathJoin hname

end Locate

end UnyDesk
