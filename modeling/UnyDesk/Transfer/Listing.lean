import Mathlib.Data.Bool.AllAny
import UnyDesk.Lib.FileTree
import UnyDesk.Transfer.Containment

/-!
# Listing a directory for a transfer

A directory is read twice before it is transferred: once for the files below it, with their paths
from the directory, and once for the directories that nothing is in. Both walks leave out hidden
entries when they are asked to, and pass over subdirectories that cannot be read. On Windows the
path `/` stands for the drives of the system, which neither walk enters.

The walks follow a tree that stays the same; symbolic links are left out. What is visible of the
tree is the tree without the hidden entries.
-/

namespace UnyDesk

open Lib Lib.PathText DirEntries WindowsPath List

/-- The name of an entry: a part of a path of the platform that stands for itself. -/
structure EntryName (p : Platform) where
  text : String
  ne_empty : text ≠ ""
  free : ∀ c ∈ text.toList, p.isSeparator c = false
  not_dots : text ≠ "." ∧ text ≠ ".."
  not_stream : p = .windows → ':' ∉ text.toList
deriving DecidableEq

theorem EntryName.toList_ne_nil {p : Platform} (name : EntryName p) : name.text.toList ≠ [] :=
  fun hnil => name.ne_empty (String.toList_eq_nil_iff.mp hnil)

namespace Listing

/-- What the system tells about an entry besides its name: the attribute that hides it on Windows, and when a directory
was modified. -/
structure EntryMark where
  hiddenAttribute : Bool := false
  dirModified : ℕ := 0

structure FileData where
  content : Bytes
  modified : ℕ := 0

abbrev DirTree (p : Platform) := FileTree (EntryName p) EntryMark FileData

abbrev DirList (p : Platform) := DirEntries (EntryName p) EntryMark FileData

inductive FileType
  | dir
  | dirDrive
  | file

/-- `FileEntry` -/
structure FileEntry where
  name : String := ""
  entryType : FileType
  isHidden : Bool := false
  size : ℕ := 0
  modifiedTime : ℕ := 0

/-- `FileDirectory` -/
structure FileDirectory where
  path : String
  entries : List FileEntry := []

section Model

variable (p : Platform) (drives : List Char) (includeHidden : Bool)

/-- The path that stands for the drives. -/
def listsDrives (path : String) : Bool := p = .windows && path = "/"

def isHidden (name : EntryName p) (mark : EntryMark) : Bool :=
  match p with
  | .windows => mark.hiddenAttribute
  | .unix => name.text.toList.head? = some '.'

/-- The entry of a listing, if it is not left out. -/
def entryOf (name : EntryName p) (mark : EntryMark) (node : DirTree p) : Option FileEntry :=
  let hidden := isHidden p name mark
  if hidden && !includeHidden then none
  else
    match node with
    | .file data => some
      { name := name.text, entryType := .file, isHidden := hidden, size := data.content.length,
        modifiedTime := data.modified }
    | .dir _ | .locked => some
      { name := name.text, entryType := .dir, isHidden := hidden, modifiedTime := mark.dirModified }

/-- The loop of `read_dir`. -/
def readDirEntries : DirList p → List FileEntry
  | .nil => []
  | .cons name mark node rest => (entryOf p includeHidden name mark node).toList ++ readDirEntries rest

def readDir (path : String) (node : DirTree p) : Except String FileDirectory :=
  if listsDrives p path then
    .ok { path, entries := drives.map fun drive => { name := String.ofList [drive, ':'], entryType := .dirDrive } }
  else
    match node with
    | .dir entries => .ok { path, entries := readDirEntries p includeHidden entries }
    | .file _ | .locked => .error "failed to read directory"

mutual

/-- `read_dir_recursive` -/
def readDirRecursive (path pre : String) : DirTree p → Except String (List FileEntry)
  | .dir entries =>
    match readDir p drives includeHidden path (.dir entries) with
    | .error e => .error e
    | .ok _ => .ok (if listsDrives p path then [] else readFiles path pre entries)
  | .locked => (readDir p drives includeHidden path .locked).map fun _ => []
  | .file data => .ok [{ entryType := .file, size := data.content.length, modifiedTime := data.modified }]

/-- The loop over the entries. -/
def readFiles (path pre : String) : DirList p → List FileEntry
  | .nil => []
  | .cons name mark node rest =>
    (match entryOf p includeHidden name mark node with
      | none => []
      | some entry =>
        match entry.entryType with
        | .file => [{ entry with name := p.pathJoin pre entry.name }]
        | .dir =>
          match readDirRecursive (p.pathJoin path entry.name) (p.pathJoin pre entry.name) node with
          | .ok tmp => tmp
          | .error _ => []
        | .dirDrive => []) ++ readFiles path pre rest

end

def getRecursiveFiles (path : String) : Option (DirTree p) → Except String (List FileEntry)
  | some node => readDirRecursive p drives includeHidden path "" node
  | none => .error "Not exists"

mutual

/-- `read_empty_dirs_recursive` -/
def readEmptyDirsRecursive (path : String) : DirTree p → Except String (List FileDirectory)
  | .dir entries =>
    match readDir p drives includeHidden path (.dir entries) with
    | .error e => .error e
    | .ok fd =>
      .ok (if fd.entries = [] then [fd] else if listsDrives p path then [] else readEmptyDirs path entries)
  | .locked =>
    (readDir p drives includeHidden path .locked).map fun fd => if fd.entries = [] then [fd] else []
  | .file _ => .ok []

/-- The loop over the entries. -/
def readEmptyDirs (path : String) : DirList p → List FileDirectory
  | .nil => []
  | .cons name mark node rest =>
    (match entryOf p includeHidden name mark node with
      | none => []
      | some entry =>
        match entry.entryType with
        | .dir =>
          match readEmptyDirsRecursive (p.pathJoin path entry.name) node with
          | .ok tmp => tmp
          | .error _ => []
        | .file | .dirDrive => []) ++ readEmptyDirs path rest

end

def getEmptyDirsRecursive (path : String) : Option (DirTree p) → Except String (List FileDirectory)
  | some node => readEmptyDirsRecursive p drives includeHidden path node
  | none => .error "Not exists"

/-- What is visible of a tree. -/
def visible : DirTree p → DirTree p := FileTree.prune fun name mark => !isHidden p name mark || includeHidden

end Model

section Paths

variable {p : Platform} (name : EntryName p) {base : String}

/-- A name is no path of its own. -/
theorem relative_of_windows (name : EntryName .windows) : WindowsPath.Relative name.text.toList := by
  have hne := name.toList_ne_nil
  have hsplit : splitBy isSep name.text.toList = [name.text.toList] := splitBy_of_free name.free
  constructor
  case ne_nil => exact hne
  case noRoot =>
    cases hhead : name.text.toList.head? with
    | none => rfl
    | some c => exact name.free c (mem_of_head? hhead)
  case noDrive =>
    cases htext : name.text.toList with
    | nil => exact absurd htext hne
    | cons c rest =>
      cases rest with
      | nil => rfl
      | cons d rest =>
        refine parseDrive_of_no_colon fun hcolon => name.not_stream rfl ?_
        rw [htext, hcolon]
        exact mem_cons_of_mem c mem_cons_self
  case noParent =>
    rw [hsplit, mem_singleton]
    intro hdots
    exact name.not_dots.2 (String.toList_inj.mp hdots.symm)

theorem plainComponents_of_windows (name : EntryName .windows) :
    plainComponents name.text.toList = [.normal name.text.toList] := by
  have hsplit : splitBy isSep name.text.toList = [name.text.toList] := splitBy_of_free name.free
  have hne := name.toList_ne_nil
  have hdot : name.text.toList ≠ ['.'] := fun hdot => name.not_dots.1 (String.toList_inj.mp hdot)
  have hdots : name.text.toList ≠ ['.', '.'] := fun hdots => name.not_dots.2 (String.toList_inj.mp hdots)
  rw [plainComponents, hsplit, filterMap_cons_some]
  · rfl
  · rw [parseComponent, if_neg hne, if_neg hdot, if_neg hdots]

/-- The joined path ends with the name. -/
theorem exists_push (base : List Char) (name : EntryName .windows) :
    ∃ front, push base name.text.toList = front ++ name.text.toList := by
  have hname := relative_of_windows name
  cases hverbatim : WindowsPath.isVerbatimPath base with
  | false => exact ⟨base ++ WindowsPath.seam base, by rw [WindowsPath.push_plain hverbatim hname, append_assoc]⟩
  | true =>
    have hcomponents : ∀ buf, WindowsPath.pushComponents buf (WindowsPath.components name.text.toList) =
        buf ++ [.normal name.text.toList] := by
      intro buf
      rcases hname.components_eq with heq | heq
      · rw [heq, plainComponents_of_windows]
        rfl
      · rw [heq, plainComponents_of_windows]
        rfl
    refine ⟨WindowsPath.writeComponents false (WindowsPath.components base ++ [.normal []]), ?_⟩
    rw [WindowsPath.writeComponents_extend, nil_append, ← hcomponents, WindowsPath.push,
      hname.parseHead_eq_none, if_neg (by simp), if_pos ⟨hverbatim, hname.ne_nil⟩]

theorem head_ne_slash (name : EntryName .unix) : name.text.toList.head? ≠ some '/' := by
  intro hhead
  exact absurd (name.free '/' (mem_of_head? hhead)) (by decide)

theorem exists_pathJoin (base : String) : ∃ front, (p.pathJoin base name.text).toList = front ++ name.text.toList := by
  cases p with
  | windows =>
    obtain ⟨front, hfront⟩ := exists_push base.toList name
    exact ⟨front, by rw [Platform.pathJoin, String.toList_ofList, hfront]⟩
  | unix =>
    rw [Platform.pathJoin, UnyDesk.pathJoin, if_neg (head_ne_slash name)]
    split_ifs
    · exact ⟨base.toList, String.toList_append⟩
    · exact ⟨(base ++ "/").toList, String.toList_append⟩

/-- Below the path there are no drives any more. -/
theorem listsDrives_pathJoin (base : String) : listsDrives p (p.pathJoin base name.text) = false := by
  obtain ⟨front, hfront⟩ := exists_pathJoin name base
  cases p with
  | unix => rfl
  | windows =>
    refine Bool.eq_false_iff.mpr fun hdrives => ?_
    have hslash : Platform.windows.pathJoin base name.text = "/" :=
      of_decide_eq_true (Bool.and_eq_true_iff.mp hdrives).2
    rw [hslash] at hfront
    have hmem : '/' ∈ name.text.toList := by
      have hlast := congrArg getLast? hfront
      rw [getLast?_append_of_ne_nil _ (relative_of_windows name).ne_nil] at hlast
      exact mem_of_getLast? hlast.symm
    exact absurd (name.free '/' hmem) (by decide)

/-- A path with names joined to it, one after the other. -/
def joinNames (p : Platform) (base : String) (names : List (EntryName p)) : String :=
  names.foldl (fun base name => p.pathJoin base name.text) base

/-- A path text that a name is joined to with a separator: it ends with a name and has no head. -/
structure EndsWithName (p : Platform) (base : String) : Prop where
  last : ∃ c, base.toList.getLast? = some c ∧ p.isSeparator c = false
  headFree : ∃ c, base.toList.head? = some c ∧ p.isSeparator c = false
  noColon : p = .windows → ':' ∉ base.toList

/-- `MAIN_SEPARATOR` -/
def mainSeparator : Platform → Char
  | .unix => '/'
  | .windows => '\\'

theorem pathJoin_empty : (p.pathJoin "" name.text).toList = name.text.toList := by
  cases p with
  | unix =>
    rw [Platform.pathJoin, UnyDesk.pathJoin, if_neg (head_ne_slash name), if_pos (.inl rfl), String.toList_append]
    rfl
  | windows =>
    rw [Platform.pathJoin, String.toList_ofList, WindowsPath.push_plain rfl (relative_of_windows name)]
    rfl

/-- Where neither a separator is at the front nor a colon in the text, there is no head. -/
theorem parseHead_of_endsWithName (h : EndsWithName .windows base) : parseHead base.toList = none := by
  obtain ⟨d, hhead, hd⟩ := h.headFree
  have hnoColon := h.noColon rfl
  cases hbase : base.toList with
  | nil => rfl
  | cons d' rest =>
    rw [hbase] at hhead hnoColon
    obtain rfl : d' = d := Option.some.inj hhead
    have hdrive : parseDrive (d' :: rest) = none := by
      cases rest with
      | nil => rfl
      | cons e rest =>
        refine parseDrive_of_no_colon fun hcolon => hnoColon ?_
        rw [hcolon]
        exact mem_cons_of_mem d' mem_cons_self
    rw [parseHead_of_single, hdrive]
    · rfl
    · intro x y rest' heq
      have hx : isSep x = false := (cons.inj heq).1 ▸ hd
      rw [hx, Bool.false_and]

theorem pathJoin_endsWithName (h : EndsWithName p base) :
    (p.pathJoin base name.text).toList = base.toList ++ mainSeparator p :: name.text.toList := by
  obtain ⟨c, hlast, hc⟩ := h.last
  cases p with
  | unix =>
    have hopen : ¬ (base.toList.getLast? = none ∨ base.toList.getLast? = some '/') := by
      rw [hlast]
      rintro (hnone | hslash)
      · cases hnone
      · obtain rfl := Option.some.inj hslash
        exact absurd hc (by decide)
    rw [Platform.pathJoin, UnyDesk.pathJoin, if_neg (head_ne_slash name), if_neg hopen, String.toList_append,
      String.toList_append, append_assoc]
    rfl
  | windows =>
    have hnoHead := parseHead_of_endsWithName h
    have hverbatim : WindowsPath.isVerbatimPath base.toList = false := by rw [WindowsPath.isVerbatimPath, hnoHead]; rfl
    have hseam : WindowsPath.seam base.toList = ['\\'] := by
      have hnotSep : WindowsPath.isSep c = false := hc
      rw [WindowsPath.seam, WindowsPath.isBareDrive, hnoHead, hlast]
      simp [hnotSep]
    rw [Platform.pathJoin, String.toList_ofList, WindowsPath.push_plain hverbatim (relative_of_windows name), hseam]
    rfl

theorem endsWithName_of_text (hbase : base.toList = name.text.toList) : EndsWithName p base := by
  have hne := name.toList_ne_nil
  constructor
  case last => exact ⟨_, by rw [hbase, getLast?_eq_some_getLast hne], name.free _ (getLast_mem hne)⟩
  case headFree => exact ⟨_, by rw [hbase, head?_eq_some_head hne], name.free _ (head_mem hne)⟩
  case noColon =>
    rw [hbase]
    exact name.not_stream

theorem EndsWithName.append {base text : String} (h : EndsWithName p base)
    (htext : text.toList = base.toList ++ mainSeparator p :: name.text.toList) : EndsWithName p text := by
  have hne := name.toList_ne_nil
  constructor
  case last =>
    refine ⟨_, ?_, name.free _ (getLast_mem hne)⟩
    rw [htext, getLast?_append_of_ne_nil _ (cons_ne_nil _ _), getLast?_cons_of_ne_nil hne, getLast?_eq_some_getLast hne]
  case headFree =>
    obtain ⟨c, hhead, hc⟩ := h.headFree
    refine ⟨c, ?_, hc⟩
    rw [htext, head?_append, hhead, Option.some_or]
  case noColon =>
    intro hwindows hcolon
    rw [htext] at hcolon
    rcases mem_append.mp hcolon with hcolon | hcolon
    · exact h.noColon hwindows hcolon
    · rcases mem_cons.mp hcolon with hcolon | hcolon
      · subst hwindows
        exact absurd hcolon (by decide)
      · exact name.not_stream hwindows hcolon

/-- The text of a path from the directory has the names as its parts. -/
theorem splitBy_joinNames (names : List (EntryName p)) (hne : names ≠ []) : EndsWithName p (joinNames p "" names) ∧
      splitBy p.isSeparator (joinNames p "" names).toList = names.map fun name => name.text.toList := by
  induction names using reverseRecOn with
  | nil => exact absurd rfl hne
  | append_singleton names name ih =>
    have hjoin : joinNames p "" (names ++ [name]) = p.pathJoin (joinNames p "" names) name.text := by
      rw [joinNames, foldl_append]
      rfl
    cases names with
    | nil =>
      have htext : (joinNames p "" ([] ++ [name])).toList = name.text.toList := pathJoin_empty name
      exact ⟨endsWithName_of_text name htext, by rw [htext, splitBy_of_free name.free]; rfl⟩
    | cons first names =>
      obtain ⟨hends, hsplit⟩ := ih (cons_ne_nil first names)
      have htext := pathJoin_endsWithName name hends
      rw [← hjoin] at htext
      refine ⟨hends.append name htext, ?_⟩
      have hsep : p.isSeparator (mainSeparator p) = true := by cases p <;> rfl
      rw [htext, splitBy_append_sep hsep, hsplit, splitBy_of_free name.free, map_append]
      rfl

/-- Different names have different paths. -/
theorem joinNames_injective : Function.Injective (joinNames p "") := by
  have htexts : Function.Injective fun name : EntryName p => name.text.toList := by
    intro name name' heq
    cases name
    cases name'
    simpa using String.toList_inj.mp heq
  have hnil : ∀ names : List (EntryName p), joinNames p "" names = joinNames p "" [] → names = [] := by
    intro names heq
    by_contra hne
    obtain ⟨c, hlast, -⟩ := (splitBy_joinNames names hne).1.last
    rw [heq] at hlast
    cases hlast
  intro names names' heq
  by_cases hempty : names = []
  · subst hempty
    exact (hnil names' heq.symm).symm
  · have hempty' : names' ≠ [] := fun hnil' => hempty (hnil names (by rw [heq, hnil']))
    have hparts := (splitBy_joinNames names hempty).2
    rw [heq, (splitBy_joinNames names' hempty').2] at hparts
    exact (map_injective_iff.mpr htexts hparts).symm

end Paths

/-- What a listing says about a file. -/
def FileEntry.file (entry : FileEntry) : String × ℕ × ℕ := (entry.name, entry.size, entry.modifiedTime)

/-- A file of the tree as it is listed from a path. -/
def listed (p : Platform) (pre : String) (found : List (EntryName p) × FileData) : String × ℕ × ℕ :=
  (joinNames p pre found.1, found.2.content.length, found.2.modified)

section Walks

variable {p : Platform} {drives : List Char} {includeHidden : Bool}

section EntryOf

variable (name : EntryName p) (mark : EntryMark)

/-- An entry is listed when it is visible, and nothing is hidden for other reasons. -/
theorem entryOf_isSome_iff (node : DirTree p) :
    (entryOf p includeHidden name mark node).isSome ↔ (!isHidden p name mark || includeHidden) = true := by
  unfold entryOf
  dsimp only
  cases isHidden p name mark <;> cases includeHidden <;> cases node <;> simp

theorem entryOf_eq_none (node : DirTree p)
    (h : ¬ (!isHidden p name mark || includeHidden) = true) : entryOf p includeHidden name mark node = none :=
  Option.not_isSome_iff_eq_none.mp (mt (entryOf_isSome_iff name mark node).mp h)

theorem entryOf_file (data : FileData)
    (h : (!isHidden p name mark || includeHidden) = true) : ∃ hidden, entryOf p includeHidden name mark (.file data) =
      some ⟨name.text, .file, hidden, data.content.length, data.modified⟩ := by
  refine ⟨isHidden p name mark, if_neg ?_⟩
  revert h
  cases isHidden p name mark <;> cases includeHidden <;> decide

theorem entryOf_dir (node : DirTree p) (hnode : ∀ data, node ≠ .file data)
    (h : (!isHidden p name mark || includeHidden) = true) : ∃ hidden, entryOf p includeHidden name mark node =
      some ⟨name.text, .dir, hidden, 0, mark.dirModified⟩ := by
  have hshown : ¬ (isHidden p name mark && !includeHidden) = true := by
    revert h
    cases isHidden p name mark <;> cases includeHidden <;> decide
  refine ⟨isHidden p name mark, ?_⟩
  cases node with
  | file data => exact absurd rfl (hnode data)
  | _ => exact if_neg hshown

end EntryOf

/-- A directory whose listing is empty has no visible entry. -/
theorem readDirEntries_eq_nil_iff (entries : DirList p) : readDirEntries p includeHidden entries = [] ↔
    entries.prune (fun name mark => !isHidden p name mark || includeHidden) = .nil := by
  induction entries using listInduction with
  | nil => exact iff_of_true rfl rfl
  | cons name mark node rest ih =>
    rw [readDirEntries, append_eq_nil_iff, ih, prune, Option.toList_eq_nil_iff,
      ← Option.not_isSome_iff_eq_none, entryOf_isSome_iff]
    split_ifs with hkept
    · exact iff_of_false (fun h => h.1 hkept) (by simp)
    · exact and_iff_right hkept

/-- The loop over the entries finds the visible files. -/
theorem readFiles_eq (path pre : String) : ∀ entries : DirList p,
    (readFiles p drives includeHidden path pre entries).map FileEntry.file =
      (entries.prune fun name mark => !isHidden p name mark || includeHidden).files.map (listed p pre)
  | .nil => rfl
  | .cons name mark node rest => by
    rw [readFiles, map_append, readFiles_eq path pre rest, prune]
    split_ifs with hkept
    · rw [files_cons, map_append, map_map]
      congr 1
      cases node with
      | file data =>
        obtain ⟨hidden, hentry⟩ := entryOf_file name mark data hkept
        rw [hentry]
        rfl
      | locked =>
        obtain ⟨hidden, hentry⟩ := entryOf_dir name mark .locked (by simp) hkept
        rw [hentry]
        simp [readDirRecursive, readDir, listsDrives_pathJoin, FileTree.prune, Except.map]
      | dir entries =>
        obtain ⟨hidden, hentry⟩ := entryOf_dir name mark (.dir entries) (by simp) hkept
        have hdrives := listsDrives_pathJoin name path
        rw [hentry]
        simp only [readDirRecursive, readDir, hdrives, Bool.false_eq_true, ↓reduceIte]
        rw [readFiles_eq _ _ entries]
        rfl
    · rw [entryOf_eq_none name mark node hkept]
      rfl

/-- A directory without visible entries is listed itself, and another one lists what is below. -/
theorem emptyDirs_of_loop {path : String} {entries : DirList p}
    (hloop : readEmptyDirs p drives includeHidden path entries =
      (entries.prune fun name mark => !isHidden p name mark || includeHidden).emptyDirs.map fun names =>
        { path := joinNames p path names }) :
    (if readDirEntries p includeHidden entries = [] then
      [{ path, entries := readDirEntries p includeHidden entries }]
      else readEmptyDirs p drives includeHidden path entries) =
        (visible p includeHidden (.dir entries)).emptyDirs.map fun names =>
          { path := joinNames p path names } := by
  rw [visible, FileTree.prune]
  split_ifs with hempty
  · rw [(readDirEntries_eq_nil_iff entries).mp hempty, hempty]
    rfl
  · rw [hloop]
    cases hpruned : entries.prune fun name mark => !isHidden p name mark || includeHidden with
    | nil => exact absurd ((readDirEntries_eq_nil_iff entries).mpr hpruned) hempty
    | cons name mark node rest => rfl

/-- The loop over the entries finds the visible directories without visible entries. -/
theorem readEmptyDirs_eq (path : String) : ∀ entries : DirList p, readEmptyDirs p drives includeHidden path entries =
      (entries.prune fun name mark => !isHidden p name mark || includeHidden).emptyDirs.map fun names =>
        { path := joinNames p path names }
  | .nil => rfl
  | .cons name mark node rest => by
    rw [readEmptyDirs, readEmptyDirs_eq path rest, prune]
    split_ifs with hkept
    · rw [emptyDirs_entries_cons, map_append, map_map]
      congr 1
      cases node with
      | file data =>
        obtain ⟨hidden, hentry⟩ := entryOf_file name mark data hkept
        rw [hentry]
        rfl
      | locked =>
        obtain ⟨hidden, hentry⟩ := entryOf_dir name mark .locked (by simp) hkept
        rw [hentry]
        simp [readEmptyDirsRecursive, readDir, listsDrives_pathJoin, FileTree.prune, Except.map]
      | dir entries =>
        obtain ⟨hidden, hentry⟩ := entryOf_dir name mark (.dir entries) (by simp) hkept
        have hdrives := listsDrives_pathJoin name path
        rw [hentry]
        simp only [readEmptyDirsRecursive, readDir, hdrives, Bool.false_eq_true, ↓reduceIte]
        rw [emptyDirs_of_loop (readEmptyDirs_eq _ entries)]
        rfl
    · rw [entryOf_eq_none name mark node hkept]
      rfl

variable {path : String} {node : DirTree p}

theorem getRecursiveFiles_eq (hpath : listsDrives p path = false) (hopen : node.Open) :
    ∃ files, getRecursiveFiles p drives includeHidden path (some node) = .ok files ∧
      files.map FileEntry.file = (visible p includeHidden node).files.map (listed p "") := by
  cases node with
  | file data => exact ⟨_, rfl, rfl⟩
  | locked => exact absurd hopen id
  | dir entries =>
    refine ⟨readFiles p drives includeHidden path "" entries, ?_, readFiles_eq path "" entries⟩
    simp [getRecursiveFiles, readDirRecursive, readDir, hpath]

theorem getEmptyDirsRecursive_eq (hpath : listsDrives p path = false) (hopen : node.Open) :
    getEmptyDirsRecursive p drives includeHidden path (some node) =
      .ok ((visible p includeHidden node).emptyDirs.map fun names => { path := joinNames p path names }) := by
  cases node with
  | file data => rfl
  | locked => exact absurd hopen id
  | dir entries =>
    rw [← emptyDirs_of_loop (@readEmptyDirs_eq p drives includeHidden path entries)]
    simp [getEmptyDirsRecursive, readEmptyDirsRecursive, readDir, hpath]

end Walks

/-- The listings are complete, but for the path of the drives. The files are the visible ones, each once and under its
own name; the directories are the visible ones without visible entries, each once; and who creates these and writes
those has the directories and the files of the visible tree. -/
theorem listings_complete (p : Platform) (drives : List Char) (includeHidden : Bool) {path : String}
    (hpath : listsDrives p path = false) {node : DirTree p} (hdistinct : node.Distinct) (hopen : node.Open) :
    let seen := visible p includeHidden node
    ∃ files, getRecursiveFiles p drives includeHidden path (some node) = .ok files ∧
      files.map FileEntry.file = seen.files.map (listed p "") ∧ (files.map (·.name)).Nodup ∧
      (∀ names data, (names, data) ∈ seen.files ↔ seen.find names = some (.file data)) ∧
      getEmptyDirsRecursive p drives includeHidden path (some node) =
        .ok (seen.emptyDirs.map fun names => { path := joinNames p path names }) ∧
      seen.emptyDirs.Nodup ∧ (∀ names, names ∈ seen.emptyDirs ↔ seen.find names = some (.dir .nil)) ∧
      Layout.build seen.emptyDirs seen.files = seen.layout := by
  intro seen
  have hseen : seen.Distinct := FileTree.Distinct.prune hdistinct
  obtain ⟨files, hfiles, hlisted⟩ : ∃ files, getRecursiveFiles p drives includeHidden path (some node) = .ok files ∧
      files.map FileEntry.file = seen.files.map (listed p "") := getRecursiveFiles_eq hpath hopen
  have hnames : files.map (·.name) = (seen.files.map Prod.fst).map (joinNames p "") := by
    have hfirst := congrArg (List.map Prod.fst) hlisted
    rw [List.map_map, List.map_map] at hfirst
    rw [List.map_map]
    exact hfirst
  refine ⟨files, hfiles, hlisted, ?_, fun names data => FileTree.mem_files_iff hseen,
    getEmptyDirsRecursive_eq hpath hopen, FileTree.nodup_emptyDirs hseen, fun names => FileTree.mem_emptyDirs_iff hseen,
    FileTree.build_eq_layout hseen (FileTree.Open.prune hopen)⟩
  rw [hnames]
  exact (FileTree.nodup_files hseen).map joinNames_injective

/-- A name of a Unix directory. -/
def sampleName : EntryName .unix where
  text := "a"
  ne_empty := by decide
  free := List.all_iff_forall_prop.mp (by decide)
  not_dots := by decide
  not_stream := by decide

def hiddenName : EntryName .unix where
  text := ".b"
  ne_empty := by decide
  free := List.all_iff_forall_prop.mp (by decide)
  not_dots := by decide
  not_stream := by decide

/-- A directory with a file and a hidden directory without entries. -/
def sampleTree : DirTree .unix :=
  .dir (.cons sampleName {} (.file { content := [7] }) (.cons hiddenName {} (.dir .nil) .nil))

theorem listings_complete_sample : sampleTree.Distinct ∧ sampleTree.Open ∧
    let seen := visible .unix true sampleTree
    ∃ files, getRecursiveFiles .unix [] true "/" (some sampleTree) = .ok files ∧
      files.map FileEntry.file = seen.files.map (listed .unix "") ∧ (files.map (·.name)).Nodup ∧
      (∀ names data, (names, data) ∈ seen.files ↔ seen.find names = some (.file data)) ∧
      getEmptyDirsRecursive .unix [] true "/" (some sampleTree) =
        .ok (seen.emptyDirs.map fun names => { path := joinNames .unix "/" names }) ∧
      seen.emptyDirs.Nodup ∧ (∀ names, names ∈ seen.emptyDirs ↔ seen.find names = some (.dir .nil)) ∧
      Layout.build seen.emptyDirs seen.files = seen.layout := by
  have hdistinct : sampleTree.Distinct := by
    simp [sampleTree, FileTree.Distinct, DirEntries.Distinct, DirEntries.names, sampleName, hiddenName]
  have hopen : sampleTree.Open := by simp [sampleTree, FileTree.Open, DirEntries.Open]
  exact ⟨hdistinct, hopen, listings_complete .unix [] true rfl hdistinct hopen⟩

/-- A name of a Windows directory. -/
def windowsName : EntryName .windows where
  text := "a"
  ne_empty := by decide
  free := List.all_iff_forall_prop.mp (by decide)
  not_dots := by decide
  not_stream := by decide

/-- On Windows nothing is found from the path of the drives. -/
theorem not_listings_complete_drives : ¬ ∀ (p : Platform) (drives : List Char) (includeHidden : Bool) (path : String)
    (node : DirTree p), node.Distinct → node.Open →
      ∃ files, getRecursiveFiles p drives includeHidden path (some node) = .ok files ∧
        files.map FileEntry.file = (visible p includeHidden node).files.map (listed p "") := by
  intro hall
  obtain ⟨files, hfiles, hlisted⟩ := hall .windows ['C'] true "/"
    (.dir (.cons windowsName {} (.file { content := [] }) .nil))
    (by simp [FileTree.Distinct, DirEntries.Distinct, DirEntries.names]) (by simp [FileTree.Open, DirEntries.Open])
  obtain rfl : [] = files := Except.ok.inj hfiles
  simp [visible, FileTree.prune, DirEntries.prune] at hlisted

end Listing

end UnyDesk
