import Mathlib.Data.List.Nodup
import UnyDesk.Clipboard.FileWalk
import UnyDesk.Clipboard.Inside

/-!
# Copied directories with links

A symbolic link is followed when it is walked, so that one directory may be reached by many paths. The paths that were
walked are remembered to get out of loops, but a loop never comes back to a path: each turn of it makes the path
longer, until the system gives up. A copy lists every file once exactly if no file is reached by two paths.
-/

namespace UnyDesk

open Lib List

/-- A name as a directory has it. -/
structure IsEntryName (name : String) : Prop where
  nonempty : name.toList ≠ []
  slash : '/' ∉ name.toList
  curDir : name.toList ≠ ['.']
  parentDir : name.toList ≠ ['.', '.']

section Names

variable {base name : String}

theorem components_of_isEntryName (h : IsEntryName name) : components name = [name.toList] := by
  have hkept : skippedSegment name.toList = false := by
    rw [skippedSegment, decide_eq_false_iff_not, not_or]
    exact ⟨h.nonempty, h.curDir⟩
  rw [components, segments_of_not_mem h.slash]
  simp [hkept]

theorem pathComponents_eq (path : String) : pathComponents path.toList =
    if (segments path.toList).head? = some ['.'] then ['.'] :: locate path else locate path := by
  rw [pathComponents, locate]
  split
  next hdot =>
    have hrel : path.toList.head? ≠ some '/' := by
      intro habs
      have hfirst := ((head?_eq_slash_iff _).mp habs).1
      rw [hdot] at hfirst
      cases hfirst
    simp [rootMarker, hrel]
  next => simp

/-- An entry does not change how a path starts. -/
theorem head?_segments_pathJoin (h : IsEntryName name) :
    (segments (pathJoin base name).toList).head? = some ['.'] ↔ (segments base.toList).head? = some ['.'] := by
  have hname : name.toList.head? ≠ some '/' := fun habs => h.slash (mem_of_mem_head? habs)
  rw [pathJoin, if_neg hname]
  split
  next hbase =>
    rw [String.toList_append, segments_append h.slash]
    cases hbase with
    | inl hempty =>
      rw [getLast?_eq_none_iff.mp hempty]
      simp [segments, lastSegment, h.curDir]
    | inr hslash =>
      obtain ⟨stem, hstem⟩ := getLast?_eq_some_iff.mp hslash
      have hsegs : segments base.toList = segments stem ++ [[]] := by
        rw [hstem, segments_append_slash]
        rfl
      obtain ⟨s, rest, hs⟩ := exists_cons_of_ne_nil (segments_ne_nil stem)
      rw [hsegs, dropLast_concat, hs]
      simp
  next =>
    have hsep : (base ++ "/" ++ name).toList = base.toList ++ '/' :: name.toList := by
      simp
    rw [hsep, segments_append_slash]
    obtain ⟨s, rest, hs⟩ := exists_cons_of_ne_nil (segments_ne_nil base.toList)
    simp [hs]

/-- An entry is one component below its directory. -/
theorem pathComponents_pathJoin (h : IsEntryName name) :
    pathComponents (pathJoin base name).toList = pathComponents base.toList ++ [name.toList] := by
  have hname : name.toList.head? ≠ some '/' := fun habs => h.slash (mem_of_mem_head? habs)
  have hlocate : locate (pathJoin base name) = locate base ++ [name.toList] := by
    rw [locate_pathJoin hname, components_of_isEntryName h]
  rw [pathComponents_eq, pathComponents_eq, hlocate]
  by_cases hdot : (segments base.toList).head? = some ['.']
  · rw [if_pos hdot, if_pos ((head?_segments_pathJoin h).mpr hdot), cons_append]
  · rw [if_neg hdot, if_neg fun hjoin => hdot ((head?_segments_pathJoin h).mp hjoin)]

end Names

/-- A file system that does not change: the real file or directory that a path leads to, links followed, what is known
of it, and its entries. The system refuses paths that are too long. -/
structure FileView (N : Type*) where
  lookup : List (List Char) → Except String N
  metadata : N → FileMetadata
  readDir : N → Except String (List String)
  maxDepth : ℕ
  tooLong : ∀ place, maxDepth < place.length → ∃ e, lookup place = .error e
  entryName : ∀ n names, readDir n = .ok names → ∀ name ∈ names, IsEntryName name

/-- The place of a path, which is what paths are compared by. -/
def placeOf (path : String) : List (List Char) := pathComponents path.toList

namespace FileView

variable {N : Type*} (v : FileView N) {selected : List String} {localFile : LocalFile} {names : List String}

/-- `std::fs::metadata`. -/
def stat (path : String) : Except String FileMetadata := (v.lookup (placeOf path)).map v.metadata

/-- `std::fs::read_dir`, with all its entries. -/
def listing (path : String) : Except String (List String) := (v.lookup (placeOf path)).bind v.readDir

/-- What the system tells about a path and as many levels below it. Below the last one that is walked every path
is too long. -/
def answers : ℕ → String → PathAnswers
  | 0, path => .mk (v.stat path) (v.stat path) .done
  | fuel + 1, path =>
    .mk (v.stat path) (v.stat path) (match v.listing path with
      | .error e => .failed e
      | .ok names => names.foldr (fun name later => .entry name (answers fuel (pathJoin path name)) later) .done)

/-- `construct_file_list` on the file system. -/
def construct (paths : List String) : Except CliprdrError (List LocalFile) :=
  constructFileList (paths.map fun path => (path, v.answers (v.maxDepth + 1) path))

/-- The real file or directory that is listed. -/
def real (file : LocalFile) : Option N := (v.lookup (placeOf file.path)).toOption

/-- The places that the selected paths lead to, links followed. -/
inductive Reach (paths : List String) : List (List Char) → Prop
  | selected {path : String} (h : path ∈ paths) : Reach paths (placeOf path)
  | entry {place : List (List Char)} {n : N} {names : List String} {name : String} (h : Reach paths place)
      (hlookup : v.lookup place = .ok n) (hdir : (v.metadata n).isDir = true) (hnames : v.readDir n = .ok names)
      (hname : name ∈ names) : Reach paths (place ++ [name.toList])

/-- The walk comes to a list in which no real file or directory occurs twice; every directory that is visited is
in it. -/
def ListsOnce (paths : List String) : Prop :=
  ∃ files, v.construct paths = .ok files ∧ (files.map v.real).Nodup

/-- The first path has a parent, everything that is reached is found and can be read, and no two places lead to the
same file or directory. -/
structure Unlinked (paths : List String) : Prop where
  root : ∃ relativeRoot, paths.head?.bind pathParent = some relativeRoot
  found : ∀ place, v.Reach paths place →
    ∃ n, v.lookup place = .ok n ∧ ((v.metadata n).isDir = true → ∃ names, v.readDir n = .ok names)
  once : ∀ place place' n, v.Reach paths place → v.Reach paths place' → v.lookup place = .ok n →
    v.lookup place' = .ok n → place = place'

/-- A place that is found, all of whose entries are among the given places. -/
def Explored (visited : List (List (List Char))) (place : List (List Char)) : Prop :=
  ∃ n, v.lookup place = .ok n ∧ ((v.metadata n).isDir = true →
      ∃ names, v.readDir n = .ok names ∧ ∀ name ∈ names, place ++ [name.toList] ∈ visited)

/-- What a part of the walk adds: files at new places, all of them reached and explored. -/
structure Extends (paths : List String) (st st' : WalkState) : Prop where
  files : ∃ files, st'.fileList = st.fileList ++ files ∧
    st'.visited = st.visited ++ files.map fun file => placeOf file.path
  nodup : st.visited.Nodup → st'.visited.Nodup
  reached : ∀ place ∈ st'.visited, place ∈ st.visited ∨ v.Reach paths place ∧ v.Explored st'.visited place

variable {v} {paths : List String} {relativeRoot path : String} {st st' st'' : WalkState}

theorem Explored.mono {visited visited' : List (List (List Char))} {place : List (List Char)}
    (h : v.Explored visited place) (hsub : visited ⊆ visited') : v.Explored visited' place := by
  obtain ⟨n, hlookup, hdir⟩ := h
  refine ⟨n, hlookup, fun hisDir => ?_⟩
  obtain ⟨names, hnames, hall⟩ := hdir hisDir
  exact ⟨names, hnames, fun name hname => hsub (hall name hname)⟩

theorem Extends.refl (st : WalkState) : v.Extends paths st st :=
  ⟨⟨[], (append_nil _).symm, (append_nil _).symm⟩, id, fun _ => .inl⟩

theorem Extends.subset (h : v.Extends paths st st') : st.visited ⊆ st'.visited := by
  obtain ⟨files, -, hvisited⟩ := h.files
  rw [hvisited]
  exact subset_append_left _ _

theorem Extends.trans (h : v.Extends paths st st') (h' : v.Extends paths st' st'') : v.Extends paths st st'' := by
  constructor
  · obtain ⟨files, hfiles, hvisited⟩ := h.files
    obtain ⟨files', hfiles', hvisited'⟩ := h'.files
    refine ⟨files ++ files', ?_, ?_⟩
    · rw [hfiles', hfiles, append_assoc]
    · rw [hvisited', hvisited, map_append, append_assoc]
  · exact fun hst => h'.nodup (h.nodup hst)
  · intro place hplace
    obtain hold | hnew := h'.reached place hplace
    · obtain hold | ⟨hreach, hexplored⟩ := h.reached place hold
      · exact .inl hold
      · exact .inr ⟨hreach, hexplored.mono h'.subset⟩
    · exact .inr hnew

/-- The entries of a directory, one after the other. -/
def entriesOf (v : FileView N) (fuel : ℕ) (path : String) (names : List String) : DirAnswers :=
  names.foldr (fun name later => .entry name (v.answers fuel (pathJoin path name)) later) .done

theorem answers_succ (fuel : ℕ) (path : String) : v.answers (fuel + 1) path = .mk (v.stat path) (v.stat path)
      (match v.listing path with
      | .error e => .failed e
      | .ok names => v.entriesOf fuel path names) := rfl

theorem placeOf_tryOpen {opened : Except String FileMetadata}
    (h : LocalFile.tryOpen relativeRoot path opened = .ok localFile) : localFile.path = path := by
  cases opened with
  | error e => cases h
  | ok mt =>
    cases h
    rfl

/-- A new file at the end of a state whose entries are all walked extends it. -/
theorem extends_of_listed (hpath : localFile.path = path) (hnew : placeOf path ∉ st.visited)
    (hreach : v.Reach paths (placeOf path))
    (hrest : v.Extends paths ⟨st.fileList ++ [localFile], st.visited ++ [placeOf path]⟩ st')
    (hexplored : v.Explored st'.visited (placeOf path)) : v.Extends paths st st' := by
  constructor
  · obtain ⟨files, hfiles, hvisited⟩ := hrest.files
    refine ⟨localFile :: files, ?_, ?_⟩
    · rw [hfiles, append_assoc]
      rfl
    · rw [hvisited, append_assoc, map_cons, hpath]
      rfl
  · intro hst
    apply hrest.nodup
    exact nodup_append.mpr ⟨hst, nodup_singleton _, fun place hplace other hother heq =>
      hnew (mem_singleton.mp hother ▸ heq ▸ hplace)⟩
  · intro place hplace
    obtain hold | hwalked := hrest.reached place hplace
    · obtain hold | hlast := mem_append.mp hold
      · exact .inl hold
      · rw [mem_singleton.mp hlast]
        exact .inr ⟨hreach, hexplored⟩
    · exact .inr hwalked

/-- The entries of a directory, given how one path is walked. -/
theorem extends_entries {fuel : ℕ} (hwalk : ∀ {path : String} {st st' : WalkState}, v.Reach paths (placeOf path) →
      v.maxDepth < fuel + (placeOf path).length →
      constrFileLst relativeRoot path (v.answers fuel path) st = .ok st' →
        v.Extends paths st st' ∧ placeOf path ∈ st'.visited)
    (hlength : v.maxDepth < fuel + 1 + (placeOf path).length)
    (hnames : ∀ name ∈ names, v.Reach paths (placeOf path ++ [name.toList]) ∧ IsEntryName name)
    (h : constrEntries relativeRoot path (v.entriesOf fuel path names) st = .ok st') :
    v.Extends paths st st' ∧ ∀ name ∈ names, placeOf path ++ [name.toList] ∈ st'.visited := by
  induction names generalizing st with
  | nil =>
    cases h
    exact ⟨.refl _, nofun⟩
  | cons name names ih =>
    obtain ⟨⟨hreach, hname⟩, hlater⟩ := forall_mem_cons.mp hnames
    have hplace : placeOf (pathJoin path name) = placeOf path ++ [name.toList] := pathComponents_pathJoin hname
    obtain ⟨between, hfirst, hrest⟩ := constrEntries_cases h
    have hdepth : v.maxDepth < fuel + (placeOf (pathJoin path name)).length := by
      rw [hplace, length_append, length_singleton]
      omega
    obtain ⟨hextends, hvisited⟩ := hwalk (hplace ▸ hreach) hdepth hfirst
    obtain ⟨hextends', hall⟩ := ih hlater hrest
    refine ⟨hextends.trans hextends', forall_mem_cons.mpr ⟨?_, hall⟩⟩
    rw [hplace] at hvisited
    exact hextends'.subset hvisited

/-- A path that is walked to an end adds what is reached from it and explores it. -/
theorem extends_constrFileLst (fuel : ℕ) {path : String} {st st' : WalkState} (hreach : v.Reach paths (placeOf path))
    (hlength : v.maxDepth < fuel + (placeOf path).length)
    (h : constrFileLst relativeRoot path (v.answers fuel path) st = .ok st') :
    v.Extends paths st st' ∧ placeOf path ∈ st'.visited := by
  induction fuel generalizing path st st' with
  | zero =>
    rw [Nat.zero_add] at hlength
    obtain ⟨e, he⟩ := v.tooLong (placeOf path) hlength
    obtain ⟨hvisited, rfl⟩ | ⟨localFile, mt, -, -, hagain, -⟩ := constrFileLst_cases h
    · exact ⟨.refl _, hvisited⟩
    · rw [stat, he] at hagain
      cases hagain
  | succ fuel ih =>
    rw [answers_succ] at h
    obtain ⟨hvisited, rfl⟩ | ⟨localFile, mt, hnew, hopen, hagain, hrest⟩ := constrFileLst_cases h
    · exact ⟨.refl _, hvisited⟩
    · have hpath := placeOf_tryOpen hopen
      cases hlookup : v.lookup (placeOf path) with
      | error e =>
        rw [stat, hlookup] at hagain
        cases hagain
      | ok n =>
        rw [stat, hlookup] at hagain
        cases hagain
        split at hrest
        next hdir =>
          rw [listing, hlookup] at hrest
          cases hnames : v.readDir n with
          | error e =>
            simp only [Except.bind, hnames, constrEntries] at hrest
            cases hrest
          | ok names =>
            simp only [Except.bind, hnames] at hrest
            have hreached : ∀ name ∈ names, v.Reach paths (placeOf path ++ [name.toList]) ∧ IsEntryName name :=
              fun name hname => ⟨hreach.entry hlookup hdir hnames hname, v.entryName n names hnames name hname⟩
            obtain ⟨hextends, hall⟩ := extends_entries ih hlength hreached hrest
            have hexplored : v.Explored st'.visited (placeOf path) := ⟨n, hlookup, fun _ => ⟨names, hnames, hall⟩⟩
            constructor
            · exact extends_of_listed hpath hnew hreach hextends hexplored
            · exact hextends.subset (mem_append_right _ (mem_singleton_self _))
        next hfile =>
          have hexplored : v.Explored st'.visited (placeOf path) := ⟨n, hlookup, fun hdir => absurd hdir hfile⟩
          constructor
          · apply extends_of_listed hpath hnew hreach ?_ hexplored
            rw [hrest]
            exact .refl _
          · rw [hrest]
            exact mem_append_right _ (mem_singleton_self _)

/-- All selected paths are walked. -/
theorem extends_constrSelection (hselected : ∀ path ∈ selected, path ∈ paths)
    (h : constrSelection relativeRoot (selected.map fun path => (path, v.answers (v.maxDepth + 1) path)) st = .ok st') :
    v.Extends paths st st' ∧ ∀ path ∈ selected, placeOf path ∈ st'.visited := by
  induction selected generalizing st with
  | nil =>
    cases h
    exact ⟨.refl _, nofun⟩
  | cons path selected ih =>
    obtain ⟨hpath, hlater⟩ := forall_mem_cons.mp hselected
    obtain ⟨between, hfirst, hrest⟩ := constrSelection_cases h
    have hdepth : v.maxDepth < v.maxDepth + 1 + (placeOf path).length := by omega
    obtain ⟨hextends, hvisited⟩ := extends_constrFileLst (v.maxDepth + 1) (.selected hpath) hdepth hfirst
    obtain ⟨hextends', hall⟩ := ih hlater hrest
    exact ⟨hextends.trans hextends', forall_mem_cons.mpr ⟨hextends'.subset hvisited, hall⟩⟩

/-- What a walk from the start comes to: its places are those that are reached, each once, and they are explored. -/
structure Complete (v : FileView N) (paths : List String) (st : WalkState) : Prop where
  visited : st.visited = st.fileList.map fun file => placeOf file.path
  nodup : st.visited.Nodup
  reach : ∀ place, v.Reach paths place ↔ place ∈ st.visited
  explored : ∀ place ∈ st.visited, v.Explored st.visited place

theorem complete_of_walk
    (h : constrSelection relativeRoot (paths.map fun path => (path, v.answers (v.maxDepth + 1) path)) {} = .ok st) :
    v.Complete paths st := by
  obtain ⟨hextends, hselected⟩ := extends_constrSelection (fun _ => id) h
  obtain ⟨files, hfiles, hvisited⟩ := hextends.files
  rw [nil_append] at hfiles hvisited
  have hnew : ∀ place ∈ st.visited, v.Reach paths place ∧ v.Explored st.visited place := by
    intro place hplace
    obtain hold | hnew := hextends.reached place hplace
    · exact absurd hold not_mem_nil
    · exact hnew
  constructor
  · rw [hvisited, hfiles]
  · exact hextends.nodup nodup_nil
  · intro place
    constructor
    · intro hreach
      induction hreach with
      | selected hpath => exact hselected _ hpath
      | entry _ hlookup hdir hnames hname ih =>
        obtain ⟨n, hfound, hentries⟩ := (hnew _ ih).2
        cases hlookup.symm.trans hfound
        obtain ⟨names, hlisted, hall⟩ := hentries hdir
        cases hnames.symm.trans hlisted
        exact hall _ hname
    · exact fun hplace => (hnew place hplace).1
  · exact fun place hplace => (hnew place hplace).2

theorem constrEntries_succeeds {fuel : ℕ} (hwalk : ∀ {path : String} (st : WalkState), v.Reach paths (placeOf path) →
      v.maxDepth < fuel + (placeOf path).length →
        ∃ st', constrFileLst relativeRoot path (v.answers fuel path) st = .ok st')
    (hlength : v.maxDepth < fuel + 1 + (placeOf path).length)
    (hnames : ∀ name ∈ names, v.Reach paths (placeOf path ++ [name.toList]) ∧ IsEntryName name) (st : WalkState) :
    ∃ st', constrEntries relativeRoot path (v.entriesOf fuel path names) st = .ok st' := by
  induction names generalizing st with
  | nil => exact ⟨st, rfl⟩
  | cons name names ih =>
    obtain ⟨⟨hreach, hname⟩, hlater⟩ := forall_mem_cons.mp hnames
    have hplace : placeOf (pathJoin path name) = placeOf path ++ [name.toList] := pathComponents_pathJoin hname
    have hdepth : v.maxDepth < fuel + (placeOf (pathJoin path name)).length := by
      rw [hplace, length_append, length_singleton]
      omega
    obtain ⟨between, hfirst⟩ := hwalk st (hplace ▸ hreach) hdepth
    obtain ⟨st', hrest⟩ := ih hlater between
    refine ⟨st', ?_⟩
    rw [entriesOf, foldr_cons, constrEntries, hfirst]
    exact hrest

section Succeeds

variable (hfound : ∀ place, v.Reach paths place →
  ∃ n, v.lookup place = .ok n ∧ ((v.metadata n).isDir = true → ∃ names, v.readDir n = .ok names))
include hfound

/-- Where everything that is reached is found, a walk does not fail. -/
theorem constrFileLst_succeeds (fuel : ℕ) {path : String} (st : WalkState) (hreach : v.Reach paths (placeOf path))
    (hlength : v.maxDepth < fuel + (placeOf path).length) :
    ∃ st', constrFileLst relativeRoot path (v.answers fuel path) st = .ok st' := by
  induction fuel generalizing path st with
  | zero =>
    rw [Nat.zero_add] at hlength
    obtain ⟨n, hlookup, -⟩ := hfound _ hreach
    obtain ⟨e, he⟩ := v.tooLong (placeOf path) hlength
    cases hlookup.symm.trans he
  | succ fuel ih =>
    obtain ⟨n, hlookup, hentries⟩ := hfound _ hreach
    have hstat : v.stat path = .ok (v.metadata n) := by
      rw [stat, hlookup]
      rfl
    obtain ⟨localFile, hopen, -⟩ := tryOpen_ok relativeRoot path (v.metadata n)
    rw [answers_succ, hstat]
    by_cases hvisited : placeOf path ∈ st.visited
    · exact ⟨st, by rw [constrFileLst]; exact if_pos hvisited⟩
    · rw [constrFileLst_of_new hvisited hopen]
      by_cases hdir : (v.metadata n).isDir = true
      · obtain ⟨names, hnames⟩ := hentries hdir
        have hlisting : v.listing path = .ok names := by
          rw [listing, hlookup]
          exact hnames
        have hreached : ∀ name ∈ names, v.Reach paths (placeOf path ++ [name.toList]) ∧ IsEntryName name :=
          fun name hname => ⟨hreach.entry hlookup hdir hnames hname, v.entryName n names hnames name hname⟩
        rw [if_pos hdir, hlisting]
        exact constrEntries_succeeds ih hlength hreached _
      · rw [if_neg hdir]
        exact ⟨_, rfl⟩

theorem constrSelection_succeeds (relativeRoot : String) (hselected : ∀ path ∈ selected, path ∈ paths)
    (st : WalkState) :
    ∃ st', constrSelection relativeRoot (selected.map fun path => (path, v.answers (v.maxDepth + 1) path)) st =
      .ok st' := by
  induction selected generalizing st with
  | nil => exact ⟨st, rfl⟩
  | cons path selected ih =>
    obtain ⟨hpath, hlater⟩ := forall_mem_cons.mp hselected
    have hdepth : v.maxDepth < v.maxDepth + 1 + (placeOf path).length := by omega
    obtain ⟨between, hfirst⟩ := constrFileLst_succeeds hfound (v.maxDepth + 1) st (.selected hpath) hdepth
    obtain ⟨st', hrest⟩ := ih hlater between
    refine ⟨st', ?_⟩
    rw [map_cons, constrSelection, hfirst]
    exact hrest

end Succeeds

/-- The files of a list in which every place occurs once. -/
theorem nodup_real_iff {st : WalkState} (h : v.Complete paths st) :
    (st.fileList.map v.real).Nodup ↔ ∀ place place' n, v.Reach paths place → v.Reach paths place' →
      v.lookup place = .ok n → v.lookup place' = .ok n → place = place' := by
  have hreal : st.fileList.map v.real = st.visited.map fun place => (v.lookup place).toOption := by
    rw [h.visited, map_map]
    rfl
  rw [hreal]
  constructor
  · intro hnodup place place' n hreach hreach' hlookup hlookup'
    apply inj_on_of_nodup_map hnodup ((h.reach place).mp hreach) ((h.reach place').mp hreach')
    rw [hlookup, hlookup']
  · intro honce
    apply List.Nodup.map_on ?_ h.nodup
    intro place hplace place' hplace' heq
    obtain ⟨n, hlookup, -⟩ := h.explored place hplace
    obtain ⟨n', hlookup', -⟩ := h.explored place' hplace'
    rw [hlookup, hlookup'] at heq
    cases heq
    exact honce place place' n ((h.reach place).mpr hplace) ((h.reach place').mpr hplace') hlookup hlookup'

theorem unlinked_of_listsOnce (h : v.ListsOnce paths) : v.Unlinked paths := by
  obtain ⟨files, hconstruct, hnodup⟩ := h
  obtain ⟨relativeRoot, st, hroot, hwalk, rfl⟩ := constructFileList_cases hconstruct
  have hcomplete := complete_of_walk hwalk
  constructor
  · refine ⟨relativeRoot, ?_⟩
    cases paths with
    | nil => cases hroot
    | cons first later => exact hroot
  · intro place hreach
    obtain ⟨n, hlookup, hentries⟩ := hcomplete.explored place ((hcomplete.reach place).mp hreach)
    refine ⟨n, hlookup, fun hdir => ?_⟩
    obtain ⟨names, hnames, -⟩ := hentries hdir
    exact ⟨names, hnames⟩
  · exact (nodup_real_iff hcomplete).mp hnodup

/-- A copy comes to a list with every file once exactly if what it reaches is found and no file is reached by two
paths. -/
theorem listsOnce_iff (v : FileView N) (paths : List String) : v.ListsOnce paths ↔ v.Unlinked paths := by
  constructor
  · exact unlinked_of_listsOnce
  · intro h
    obtain ⟨relativeRoot, hroot⟩ := h.root
    cases paths with
    | nil => cases hroot
    | cons first later =>
      obtain ⟨st, hwalk⟩ := constrSelection_succeeds h.found relativeRoot (fun _ => id) {}
      exact ⟨st.fileList, constructFileList_of_ok hroot hwalk, (nodup_real_iff (complete_of_walk hwalk)).mpr h.once⟩

end FileView

/-- An entry of a directory, and what it leads to over some symbolic links; a link may lead nowhere. -/
structure FsEntry (N : Type*) where
  name : String
  valid : IsEntryName name
  links : ℕ
  target : Option N

/-- Files and directories, and the entries of the directories. -/
structure FsGraph (N : Type*) where
  root : N
  cwd : N
  parent : N → N
  metadata : N → FileMetadata
  entries : N → List (FsEntry N)

namespace FsGraph

variable {N : Type*} (g : FsGraph N)

/-- Where a path leads from a directory. The system counts the links that it follows and gives up after too
many. -/
def resolve (maxLinks : ℕ) : ℕ → N → List (List Char) → Except String N
  | _, n, [] => .ok n
  | links, n, name :: names =>
    if (g.metadata n).isDir = false then .error "Not a directory"
    else if name = ['.'] then resolve maxLinks links n names
    else if name = ['.', '.'] then resolve maxLinks links (g.parent n) names
    else
      match (g.entries n).find? fun e => e.name.toList = name with
      | none => .error "No such file or directory"
      | some e =>
        if maxLinks < links + e.links then .error "Too many levels of symbolic links"
        else
          match e.target with
          | none => .error "No such file or directory"
          | some n => resolve maxLinks (links + e.links) n names

/-- The graph as the system shows it. -/
def view (maxLinks maxDepth : ℕ) : FileView N where
  lookup place :=
    if maxDepth < place.length then .error "File name too long"
    else
      match place with
      | ['/'] :: names => g.resolve maxLinks 0 g.root names
      | names => g.resolve maxLinks 0 g.cwd names
  metadata := g.metadata
  readDir n := if (g.metadata n).isDir then .ok ((g.entries n).map (·.name)) else .error "Not a directory"
  maxDepth := maxDepth
  tooLong := fun _ hlong => ⟨_, if_pos hlong⟩
  entryName := by
    intro n names hnames name hname
    split at hnames
    next =>
      cases hnames
      obtain ⟨e, -, rfl⟩ := List.mem_map.mp hname
      exact e.valid
    next => cases hnames

end FsGraph

/-- A directory below the root with a link to itself. -/
def loopGraph : FsGraph Bool where
  root := false
  cwd := false
  parent := fun _ => false
  metadata := fun _ => ⟨4096, true, false, some 0, 0o755⟩
  entries := fun n =>
    if n then [⟨"l", ⟨by decide, by decide, by decide, by decide⟩, 1, some true⟩]
    else [⟨"d", ⟨by decide, by decide, by decide, by decide⟩, 0, some true⟩]

/-- The link is another path to the directory that holds it. -/
theorem loop_is_walked_again : ¬ ∀ (g : FsGraph Bool) (paths : List String), (g.view 40 2048).ListsOnce paths := by
  intro h
  have hunlinked := FileView.unlinked_of_listsOnce (h loopGraph ["/d"])
  have hd : (loopGraph.view 40 2048).lookup (placeOf "/d") = .ok true := by decide
  have hl : (loopGraph.view 40 2048).lookup (placeOf "/d" ++ ["l".toList]) = .ok true := by decide
  have hreach : (loopGraph.view 40 2048).Reach ["/d"] (placeOf "/d") := .selected List.mem_cons_self
  have hreach' := hreach.entry hd rfl (show (loopGraph.view 40 2048).readDir true = .ok ["l"] from rfl)
    List.mem_cons_self
  have heq := congrArg List.length (hunlinked.once _ _ true hreach hreach' hd hl)
  rw [List.length_append, List.length_singleton] at heq
  omega

end UnyDesk
