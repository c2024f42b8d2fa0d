import Mathlib.Data.List.DropRight
import UnyDesk.Clipboard.PasteTask

/-!
# Paths below a directory

A path is inside a directory when its components are those of the directory and then some that never climb above it.
A path with text added to its last name stays inside, and so does one whose last name is replaced, unless the path was
the directory itself.
-/

namespace UnyDesk

open Lib List Option Nat

/-- How deep below its start a walk ends, unless it climbs above it. -/
def walkDepth : ℕ → Location → Option ℕ
  | depth, [] => some depth
  | depth, part :: rest =>
    if part ≠ ['.', '.'] then walkDepth (depth + 1) rest
    else if depth = 0 then none
    else walkDepth (depth - 1) rest

/-- The walk never climbs above its start. -/
def Stays (parts : Location) : Prop := (walkDepth 0 parts).isSome = true

instance : DecidablePred Stays := fun parts => inferInstanceAs (Decidable ((walkDepth 0 parts).isSome = true))

/-- The path is the directory or lies below it. -/
def Inside (targetDir path : String) : Prop := ∃ rest, locate path = locate targetDir ++ rest ∧ Stays rest

/-- The path lies below the directory, under a name of its own. -/
def Below (targetDir path : String) : Prop :=
  ∃ rest name, locate path = locate targetDir ++ (rest ++ [name]) ∧ Stays rest ∧ name ≠ ['.', '.']

section Walk

variable {parts parts' : Location} {name : List Char}

theorem walkDepth_append (depth : ℕ) (parts parts' : Location) :
    walkDepth depth (parts ++ parts') = (walkDepth depth parts).bind fun depth => walkDepth depth parts' := by
  induction parts generalizing depth with
  | nil => rfl
  | cons part rest ih =>
    rw [cons_append, walkDepth, walkDepth]
    split
    · exact ih (depth + 1)
    · split
      · rfl
      · exact ih (depth - 1)

theorem Stays.of_append (h : Stays (parts ++ parts')) : Stays parts := by
  rw [Stays, walkDepth_append] at h
  rw [Stays]
  cases hdepth : walkDepth 0 parts with
  | none =>
    rw [hdepth] at h
    exact nomatch h
  | some depth => rfl

theorem Stays.concat (h : Stays parts) (hname : name ≠ ['.', '.']) : Stays (parts ++ [name]) := by
  obtain ⟨depth, hdepth⟩ := isSome_iff_exists.mp h
  rw [Stays, walkDepth_append, hdepth, bind_some, walkDepth, if_pos hname]
  rfl

end Walk

section Segments

variable {path s : List Char} {parts : List (List Char)}

/-- The parts of a path text have no separators. -/
theorem slash_not_mem_segments (h : s ∈ segments path) : '/' ∉ s := by
  induction path generalizing s with
  | nil =>
    rw [segments, mem_singleton] at h
    rw [h]
    exact not_mem_nil
  | cons c cs ih =>
    rw [segments] at h
    split at h
    · rcases mem_cons.mp h with rfl | h
      · exact not_mem_nil
      · exact ih h
    next hc =>
      obtain ⟨first, rest, hsegments⟩ := exists_cons_of_ne_nil (segments_ne_nil cs)
      rw [hsegments] at h ih
      rcases mem_cons.mp h with rfl | h
      · intro hmem
        rcases mem_cons.mp hmem with heq | hmem
        · exact hc heq.symm
        · exact ih mem_cons_self hmem
      · exact ih (mem_cons_of_mem _ h)

theorem segments_of_not_mem (h : '/' ∉ path) : segments path = [path] := by
  have hnil := segments_append h []
  simpa [segments, lastSegment] using hnil

/-- Parts without separators are found again in their text. -/
theorem segments_joinSegments (hne : parts ≠ []) (hparts : ∀ s ∈ parts, '/' ∉ s) :
    segments (joinSegments parts) = parts := by
  induction parts with
  | nil => exact absurd rfl hne
  | cons s rest ih =>
    have hs := hparts s mem_cons_self
    cases rest with
    | nil =>
      rw [joinSegments, intercalate_singleton]
      exact segments_of_not_mem hs
    | cons t rest =>
      have hrest := ih (cons_ne_nil t rest) fun s hs => hparts s (mem_cons_of_mem _ hs)
      rw [joinSegments, intercalate_cons_cons, append_assoc, singleton_append, segments_append_slash,
        segments_of_not_mem hs]
      exact congrArg (s :: ·) hrest

/-- A path text starts with a separator exactly if its first part is empty and another one follows. -/
theorem head?_eq_slash_iff (path : List Char) :
    path.head? = some '/' ↔ (segments path).head? = some [] ∧ path ≠ [] := by
  cases path with
  | nil => simp
  | cons c cs =>
    obtain ⟨first, rest, hsegments⟩ := exists_cons_of_ne_nil (segments_ne_nil cs)
    by_cases hc : c = '/' <;> simp [segments, hc, hsegments]

theorem rootMarker_joinSegments (hne : parts ≠ []) (hparts : ∀ s ∈ parts, '/' ∉ s)
    (hlast : parts ≠ [[]]) (hhead : parts.head? = (segments path).head?) (hpath : path ≠ []) :
    rootMarker (joinSegments parts) = rootMarker path := by
  have htext : joinSegments parts ≠ [] := by
    intro hnil
    have hsegments := segments_joinSegments hne hparts
    rw [hnil] at hsegments
    exact hlast hsegments.symm
  have hiff : (joinSegments parts).head? = some '/' ↔ path.head? = some '/' := by
    rw [head?_eq_slash_iff, head?_eq_slash_iff, segments_joinSegments hne hparts, hhead]
    simp [htext, hpath]
  unfold rootMarker
  simp only [hiff]

end Segments

section Parent

variable {parts : List (List Char)} {path parent : String}

theorem trimSegments_initial (parts : List (List Char)) : trimSegments parts <+: parts :=
  rdropWhile_prefix skippedSegment parts

theorem getLast_trimSegments {s : List Char} (h : (trimSegments parts).getLast? = some s) : skippedSegment s = false := by
  have hne : trimSegments parts ≠ [] := by
    intro hnil
    rw [hnil] at h
    exact nomatch h
  have hlast : ¬ skippedSegment ((trimSegments parts).getLast hne) = true :=
    rdropWhile_last_not skippedSegment parts hne
  rw [getLast?_eq_some_getLast hne] at h
  rw [← some.inj h]
  simpa using hlast

/-- The parts that are trimmed are skipped anyway. -/
theorem filter_trimSegments (parts : List (List Char)) :
    (trimSegments parts).filter (fun s => !skippedSegment s) = parts.filter fun s => !skippedSegment s := by
  have hsplit : trimSegments parts ++ parts.rtakeWhile skippedSegment = parts :=
    rdropWhile_append_rtakeWhile
  have hskipped : (parts.rtakeWhile skippedSegment).filter (fun s => !skippedSegment s) = [] := by
    rw [filter_eq_nil_iff]
    intro s hs
    simp [mem_rtakeWhile_imp hs]
  conv_rhs => rw [← hsplit]
  rw [filter_append, hskipped, append_nil]

/-- The parent of a path is led to by all components but the last. -/
theorem locate_pathParent (h : pathParent path = some parent) : locate parent = (locate path).dropLast := by
  have hlocate : locate path = rootMarker path.toList ++
      (trimSegments (segments path.toList)).filter fun s => !skippedSegment s := by
    rw [filter_trimSegments]
    rfl
  have hprefix := trimSegments_initial (segments path.toList)
  have hlast := @getLast_trimSegments (segments path.toList)
  rw [hlocate]
  unfold pathParent at h
  generalize trimSegments (segments path.toList) = parts at h hprefix hlast ⊢
  rcases eq_nil_or_concat parts with rfl | ⟨init, last, hparts⟩
  · dsimp only at h
    split at h
    next hdot =>
      rw [← some.inj h, rootMarker, hdot]
      rfl
    · cases h
  rw [concat_eq_append] at hparts
  subst hparts
  have hlast : skippedSegment last = false := hlast (by simp)
  have hfilter : (init ++ [last]).filter (fun s => !skippedSegment s) =
      (trimSegments init).filter (fun s => !skippedSegment s) ++ [last] := by
    rw [filter_append, filter_trimSegments]
    simp [hlast]
  rw [hfilter, ← append_assoc, dropLast_concat]
  have hinit : trimSegments init <+: segments path.toList :=
    (trimSegments_initial init).trans ((prefix_append init [last]).trans hprefix)
  have hkept := @getLast_trimSegments init
  split at h
  next hnil => exact absurd hnil (by simp)
  next =>
    rw [dropLast_concat] at h
    generalize trimSegments init = kept at h hinit hkept ⊢
    split at h
    · rw [filter_nil, append_nil, rootMarker]
      split at h
      next hroot =>
        rw [← some.inj h, hroot]
        rfl
      next hroot =>
        rw [if_neg hroot]
        split at h <;> rw [← some.inj h] <;> rfl
    next hne =>
      have hne' : kept ≠ [] := fun hnil => hne hnil
      have hslash : ∀ s ∈ kept, '/' ∉ s := fun s hs => slash_not_mem_segments (hinit.subset hs)
      have hroot : rootMarker (joinSegments kept) = rootMarker path.toList := by
        refine rootMarker_joinSegments hne' hslash ?_ ?_ ?_
        · rintro rfl
          exact absurd (hkept rfl) (by decide)
        · obtain ⟨rest, hrest⟩ := hinit
          rw [← hrest, head?_append_of_ne_nil _ hne']
        · intro hnil
          rw [hnil, segments] at hinit
          obtain rfl : kept = [[]] := hinit.eq_of_length_le (length_pos_iff.mpr hne')
          exact absurd (hkept rfl) (by decide)
      rw [← some.inj h, locate, String.toList_ofList, hroot, segments_joinSegments hne' hslash]

/-- The directories that lead to a path are led to by its first components. -/
theorem locate_ancestors {fuel : ℕ} (h : parent ∈ PasteDisk.ancestors fuel path) : locate parent <+: locate path := by
  induction fuel generalizing path with
  | zero => exact nomatch h
  | succ fuel ih =>
    rw [PasteDisk.ancestors] at h
    split at h
    · exact nomatch h
    next up hup =>
      have hprefix : locate up <+: locate path := by
        rw [locate_pathParent hup]
        exact dropLast_prefix _
      rcases mem_cons.mp h with rfl | h
      · exact hprefix
      · exact (ih h).trans hprefix

end Parent

section Below

variable {targetDir path suffix : String} {name : List Char}

section

variable (h : Below targetDir path)
include h

theorem Below.inside : Inside targetDir path := by
  obtain ⟨rest, name, hpath, hstays, hname⟩ := h
  exact ⟨rest ++ [name], hpath, hstays.concat hname⟩

theorem Below.ne : locate path ≠ locate targetDir := by
  obtain ⟨rest, name, hpath, -, -⟩ := h
  rw [hpath]
  simp

/-- The parent of a path below the directory is inside. -/
theorem Below.parent {parent : String} (hparent : pathParent path = some parent) : Inside targetDir parent := by
  obtain ⟨rest, name, hpath, hstays, -⟩ := h
  refine ⟨rest, ?_, hstays⟩
  rw [locate_pathParent hparent, hpath, ← append_assoc, dropLast_concat]

end

/-- A path with text added to its last name. -/
theorem Inside.append (h : Inside targetDir path) (hslash : '/' ∉ suffix.toList) (hlength : 3 ≤ suffix.toList.length)
    (hown : locate path = locate targetDir → skippedSegment (lastSegment path.toList) = true) :
    Below targetDir (path ++ suffix) := by
  obtain ⟨rest, hpath, hstays⟩ := h
  have hname : lastSegment path.toList ++ suffix.toList ≠ ['.', '.'] := by
    intro heq
    have hlong := congrArg length heq
    rw [length_append, length_cons, length_singleton] at hlong
    omega
  have happend := @locate_append path suffix hslash (Nat.le_of_succ_le hlength)
  have hlocate := locate_eq path
  cases hskipped : skippedSegment (lastSegment path.toList) with
  | true =>
    simp only [filter_cons, hskipped, Bool.not_true, Bool.false_eq_true, if_false, filter_nil, append_nil] at hlocate
    refine ⟨rest, _, ?_, hstays, hname⟩
    rw [happend, ← hlocate, hpath, append_assoc]
  | false =>
    simp only [filter_cons, hskipped, Bool.not_false, if_true, filter_nil] at hlocate
    rcases eq_nil_or_concat rest with rfl | ⟨init, last, hrest⟩
    · rw [hown (by rw [hpath, append_nil])] at hskipped
      exact nomatch hskipped
    · rw [concat_eq_append] at hrest
      rw [hlocate, hrest, ← append_assoc] at hpath
      obtain ⟨hstem, -⟩ := append_inj' hpath rfl
      rw [hrest] at hstays
      refine ⟨init, _, ?_, hstays.of_append, hname⟩
      rw [happend, hstem, append_assoc]

theorem pathParent_of_lastName (h : pathLastName path = some name) : ∃ parent, pathParent path = some parent := by
  have hne : trimSegments (segments path.toList) ≠ [] := by
    intro hnil
    have hfilter := filter_trimSegments (segments path.toList)
    rw [hnil, filter_nil] at hfilter
    rw [pathLastName, ← hfilter] at h
    exact nomatch h
  unfold pathParent
  split
  next hnil => exact absurd hnil hne
  · split
    · split
      · exact ⟨_, rfl⟩
      · split <;> exact ⟨_, rfl⟩
    · exact ⟨_, rfl⟩

/-- A path whose last name is replaced. -/
theorem Inside.withFileName (h : Inside targetDir path) (hlast : pathLastName path = some name)
    (hne : locate path ≠ locate targetDir) {newName : String} (hslash : '/' ∉ newName.toList)
    (hlength : 3 ≤ newName.toList.length) : Below targetDir (pathWithFileName path newName) := by
  obtain ⟨rest, hpath, hstays⟩ := h
  obtain ⟨parent, hparent⟩ := pathParent_of_lastName hlast
  have hskipped : skippedSegment newName.toList = false := by
    unfold skippedSegment
    rw [decide_eq_false_iff_not]
    rintro (heq | heq) <;> rw [heq] at hlength <;> simp at hlength
  have hhead : newName.toList.head? ≠ some '/' := fun hhead => hslash (mem_of_head? hhead)
  have hcomponents : components newName = [newName.toList] := by
    rw [components, segments_of_not_mem hslash]
    simp [hskipped]
  rcases eq_nil_or_concat rest with rfl | ⟨init, last, hrest⟩
  · exact absurd (by rw [hpath, append_nil]) hne
  · rw [concat_eq_append] at hrest
    rw [hrest] at hpath hstays
    refine ⟨init, newName.toList, ?_, hstays.of_append, ?_⟩
    · rw [pathWithFileName, hlast]
      simp only [hparent, getD_some]
      rw [locate_pathJoin hhead, hcomponents, locate_pathParent hparent, hpath, ← append_assoc,
        dropLast_concat, append_assoc]
    · intro heq
      rw [heq] at hlength
      simp at hlength

end Below

section Names

variable {targetDir path : String} {name : List Char}

theorem slash_not_mem_toString (i : ℕ) : '/' ∉ (toString i).toList := by
  intro hmem
  have hdigit := isDigit_of_mem_toDigits (by decide) (by decide) (toList_repr ▸ hmem : '/' ∈ toDigits 10 i)
  exact absurd hdigit (by decide)

theorem toString_toList_ne_nil (i : ℕ) : 0 < (toString i).toList.length := by
  rw [show (toString i).toList = toDigits 10 i from toList_repr]
  exact length_toDigits_pos

theorem slash_not_mem_lastName (h : pathLastName path = some name) : '/' ∉ name := by
  unfold pathLastName at h
  split at h
  · exact nomatch h
  next s hs =>
    split at h
    · exact nomatch h
    · rw [← some.inj h]
      exact slash_not_mem_segments (mem_of_mem_filter (mem_of_getLast? hs))

theorem splitFileName_subset (name : List Char) :
    (∀ c ∈ (splitFileName name).1, c ∈ name) ∧ ∀ ext, (splitFileName name).2 = some ext → ∀ c ∈ ext, c ∈ name := by
  unfold splitFileName
  dsimp only
  split
  · exact ⟨fun _ => id, nofun⟩
  · refine ⟨fun c hc => mem_of_mem_take hc, fun ext hext c hc => ?_⟩
    rw [← some.inj hext, mem_reverse] at hc
    exact mem_reverse.mp (takeWhile_subset _ hc)

/-- The entry of a list does not lead out of the directory: its path does not climb above it, and a file does not take
the place of the directory, whose own name would be numbered. -/
def SafeEntry (targetDir : String) (desc : FileDescription) : Prop :=
  desc.kind ≠ .symlink → Inside targetDir (pathJoin targetDir desc.name) ∧
    (desc.kind = .file → locate (pathJoin targetDir desc.name) = locate targetDir →
      skippedSegment (lastSegment (pathJoin targetDir desc.name).toList) = true ∧
        pathExtension (pathJoin targetDir desc.name) = none)

/-- The numbered variants of a file's path. -/
theorem Inside.numberedName (h : Inside targetDir path) (hown : locate path = locate targetDir →
      skippedSegment (lastSegment path.toList) = true ∧ pathExtension path = none) {i : ℕ} {found : String}
    (hfound : PasteDisk.numberedName path .file i = some found) : Below targetDir found := by
  rw [PasteDisk.numberedName] at hfound
  split at hfound
  next ext hext =>
    obtain ⟨name, hlast, hsplit⟩ := bind_eq_some_iff.mp hext
    obtain ⟨extension, hextension, rfl⟩ := map_eq_some_iff.mp hsplit
    have hname := slash_not_mem_lastName hlast
    obtain ⟨hstem, hext'⟩ := splitFileName_subset name
    rw [← some.inj hfound, pathFileStem, hlast]
    refine h.withFileName hlast (fun heq => ?_) ?_ ?_
    · rw [(hown heq).2] at hext
      exact nomatch hext
    · simp only [map_some, getD_some, String.toList_append, String.toList_ofList, mem_append, not_or, toString]
      exact ⟨⟨⟨⟨fun hmem => hname (hstem _ hmem), by decide⟩, slash_not_mem_toString i⟩, by decide⟩,
        fun hmem => hname (hext' _ hextension _ hmem)⟩
    · have hdigits := toString_toList_ne_nil i
      simp only [map_some, getD_some, String.toList_append, length_append]
      have hdash : (toString "-").toList.length = 1 := rfl
      have hdot : (toString ".").toList.length = 1 := rfl
      omega
  next =>
    rw [← some.inj hfound]
    have hsuffix : s!"{path} ({i})" = path ++ (" (" ++ toString i ++ ")") := by
      simp [toString, String.append_assoc]
    rw [hsuffix]
    refine h.append ?_ ?_ fun heq => (hown heq).1
    · simp only [String.toList_append, mem_append, not_or]
      exact ⟨⟨by decide, slash_not_mem_toString i⟩, by decide⟩
    · have hopen : " (".toList.length = 2 := rfl
      have hclose : ")".toList.length = 1 := rfl
      simp only [String.toList_append, length_append]
      omega

end Names

end UnyDesk
