import Mathlib.Data.List.Nodup
import Mathlib.Data.Set.Insert

/-!
# Trees of directories and files

A node is a file with its data, a directory with named entries, or a directory that cannot be
read. A node is found by the names that lead to it. The files and the directories without
entries determine an open tree: whoever creates the latter, and writes the former with the
directories above them, has the same directories and the same files.
-/

namespace UnyDesk.Lib

open List

mutual

/-- A node; every entry of a directory has a mark besides its name. -/
inductive FileTree (K A D : Type)
  | file (data : D)
  | dir (entries : DirEntries K A D)
  | locked

inductive DirEntries (K A D : Type)
  | nil
  | cons (name : K) (mark : A) (node : FileTree K A D) (rest : DirEntries K A D)

end

variable {K A D : Type}

mutual

/-- The node that some names lead to. -/
def FileTree.find [DecidableEq K] : FileTree K A D → List K → Option (FileTree K A D)
  | node, [] => some node
  | .dir entries, name :: path => entries.find name path
  | .file _, _ :: _ => none
  | .locked, _ :: _ => none

def DirEntries.find [DecidableEq K] : DirEntries K A D → K → List K → Option (FileTree K A D)
  | .nil, _, _ => none
  | .cons name _ node rest, name', path => if name = name' then node.find path else rest.find name' path

end

mutual

/-- All nodes, with the names that lead to them. -/
def FileTree.nodes : FileTree K A D → List (List K × FileTree K A D)
  | .file data => [([], .file data)]
  | .dir entries => ([], .dir entries) :: entries.nodes
  | .locked => [([], .locked)]

def DirEntries.nodes : DirEntries K A D → List (List K × FileTree K A D)
  | .nil => []
  | .cons name _ node rest => node.nodes.map (fun found => (name :: found.1, found.2)) ++ rest.nodes

end

/-- A node that is a file. -/
def FileTree.asFile : List K × FileTree K A D → Option (List K × D)
  | (path, .file data) => some (path, data)
  | (_, .dir _) | (_, .locked) => none

/-- A node that is a directory without entries. -/
def FileTree.asEmptyDir : List K × FileTree K A D → Option (List K)
  | (path, .dir .nil) => some path
  | (_, .dir (.cons ..)) | (_, .file _) | (_, .locked) => none

def FileTree.files (node : FileTree K A D) : List (List K × D) := node.nodes.filterMap FileTree.asFile

def DirEntries.files (entries : DirEntries K A D) : List (List K × D) := entries.nodes.filterMap FileTree.asFile

def FileTree.emptyDirs (node : FileTree K A D) : List (List K) := node.nodes.filterMap FileTree.asEmptyDir

def DirEntries.emptyDirs (entries : DirEntries K A D) : List (List K) := entries.nodes.filterMap FileTree.asEmptyDir

mutual

/-- The tree of the entries that are kept. -/
def FileTree.prune (keep : K → A → Bool) : FileTree K A D → FileTree K A D
  | .dir entries => .dir (entries.prune keep)
  | .file data => .file data
  | .locked => .locked

def DirEntries.prune (keep : K → A → Bool) : DirEntries K A D → DirEntries K A D
  | .nil => .nil
  | .cons name mark node rest =>
    if keep name mark then .cons name mark (node.prune keep) (rest.prune keep) else rest.prune keep

end

def DirEntries.names : DirEntries K A D → List K
  | .nil => []
  | .cons name _ _ rest => name :: rest.names

mutual

/-- No directory has two entries of one name. -/
def FileTree.Distinct : FileTree K A D → Prop
  | .dir entries => entries.Distinct
  | .file _ => True
  | .locked => True

def DirEntries.Distinct : DirEntries K A D → Prop
  | .nil => True
  | .cons name _ node rest => name ∉ rest.names ∧ node.Distinct ∧ rest.Distinct

end

mutual

/-- Every directory can be read. -/
def FileTree.Open : FileTree K A D → Prop
  | .dir entries => entries.Open
  | .file _ => True
  | .locked => False

def DirEntries.Open : DirEntries K A D → Prop
  | .nil => True
  | .cons _ _ node rest => node.Open ∧ rest.Open

end

/-- Induction over the entries of one directory. -/
@[elab_as_elim] theorem DirEntries.listInduction {motive : DirEntries K A D → Prop} (nil : motive .nil)
    (cons : ∀ name mark node rest, motive rest → motive (.cons name mark node rest)) :
    ∀ entries, motive entries
  | .nil => nil
  | .cons name mark node rest => cons name mark node rest (listInduction nil cons rest)

section Prune

variable {keep : K → A → Bool}

theorem DirEntries.mem_names_prune {name : K} (entries : DirEntries K A D) (h : name ∈ (entries.prune keep).names) :
    name ∈ entries.names := by
  induction entries using DirEntries.listInduction with
  | nil => exact h
  | cons name' mark node rest ih =>
    rw [DirEntries.prune] at h
    split_ifs at h
    · rcases mem_cons.mp h with rfl | h
      · exact mem_cons_self
      · exact mem_cons_of_mem name' (ih h)
    · exact mem_cons_of_mem name' (ih h)

mutual

theorem FileTree.Distinct.prune : ∀ {node : FileTree K A D}, node.Distinct → (node.prune keep).Distinct
  | .file _, _ => trivial
  | .locked, _ => trivial
  | .dir _, h => DirEntries.Distinct.prune h

theorem DirEntries.Distinct.prune : ∀ {entries : DirEntries K A D}, entries.Distinct → (entries.prune keep).Distinct
  | .nil, _ => trivial
  | .cons name mark node rest, h => by
    obtain ⟨hname, hnode, hrest⟩ := h
    rw [DirEntries.prune]
    split_ifs
    · exact ⟨mt rest.mem_names_prune hname, hnode.prune, hrest.prune⟩
    · exact hrest.prune

end

mutual

theorem FileTree.Open.prune : ∀ {node : FileTree K A D}, node.Open → (node.prune keep).Open
  | .file _, _ => trivial
  | .dir _, h => DirEntries.Open.prune h

theorem DirEntries.Open.prune : ∀ {entries : DirEntries K A D}, entries.Open → (entries.prune keep).Open
  | .nil, _ => trivial
  | .cons name mark node rest, h => by
    obtain ⟨hnode, hrest⟩ := h
    rw [DirEntries.prune]
    split_ifs
    · exact ⟨hnode.prune, hrest.prune⟩
    · exact hrest.prune

end

end Prune

section Files

variable (name : K) (mark : A) (data : D) (node : FileTree K A D) (rest entries : DirEntries K A D)

namespace FileTree

theorem asFile_cons (found : List K × FileTree K A D) :
    asFile (name :: found.1, found.2) = (asFile found).map fun file => (name :: file.1, file.2) := by
  obtain ⟨path, node⟩ := found
  cases node with
  | _ => rfl

theorem asEmptyDir_cons (found : List K × FileTree K A D) :
    asEmptyDir (name :: found.1, found.2) = (asEmptyDir found).map (name :: ·) := by
  obtain ⟨path, node⟩ := found
  cases node with
  | dir entries => cases entries <;> rfl
  | _ => rfl

@[simp] theorem files_file : (file data : FileTree K A D).files = [([], data)] := rfl

@[simp] theorem files_dir : (dir entries).files = entries.files := rfl

@[simp] theorem files_locked : (locked : FileTree K A D).files = [] := rfl

end FileTree

@[simp] theorem DirEntries.files_nil : (DirEntries.nil : DirEntries K A D).files = [] := rfl

@[simp] theorem DirEntries.files_cons : (DirEntries.cons name mark node rest).files =
    node.files.map (fun file => (name :: file.1, file.2)) ++ rest.files := by
  rw [DirEntries.files, DirEntries.nodes, filterMap_append, filterMap_map, FileTree.files, map_filterMap]
  congr 2
  funext found
  exact FileTree.asFile_cons name found

@[simp] theorem FileTree.emptyDirs_file : (FileTree.file data : FileTree K A D).emptyDirs = [] := rfl

@[simp] theorem FileTree.emptyDirs_locked : (FileTree.locked : FileTree K A D).emptyDirs = [] := rfl

@[simp] theorem FileTree.emptyDirs_nil : (FileTree.dir .nil : FileTree K A D).emptyDirs = [[]] := rfl

@[simp] theorem FileTree.emptyDirs_cons :
    (FileTree.dir (.cons name mark node rest)).emptyDirs = (DirEntries.cons name mark node rest).emptyDirs := rfl

@[simp] theorem DirEntries.emptyDirs_nil : (DirEntries.nil : DirEntries K A D).emptyDirs = [] := rfl

@[simp] theorem DirEntries.emptyDirs_entries_cons : (DirEntries.cons name mark node rest).emptyDirs =
    node.emptyDirs.map (name :: ·) ++ rest.emptyDirs := by
  rw [DirEntries.emptyDirs, DirEntries.nodes, filterMap_append, filterMap_map, FileTree.emptyDirs, map_filterMap]
  congr 2
  funext found
  exact FileTree.asEmptyDir_cons name found

end Files

section Nodes

variable {found : List K × FileTree K A D} {path : List K} {entries : DirEntries K A D} {node : FileTree K A D}

theorem DirEntries.mem_names_of_mem_nodes {name : K}
    {found : FileTree K A D} (h : (name :: path, found) ∈ entries.nodes) : name ∈ entries.names := by
  induction entries using DirEntries.listInduction with
  | nil => cases h
  | cons name' mark node rest ih =>
    rcases List.mem_append.mp h with h | h
    · obtain ⟨inner, -, heq⟩ := List.mem_map.mp h
      obtain ⟨rfl, -⟩ := List.cons.inj (congrArg Prod.fst heq)
      exact List.mem_cons_self
    · exact List.mem_cons_of_mem name' (ih h)

theorem DirEntries.not_nil_mem_nodes {found : FileTree K A D} : ([], found) ∉ entries.nodes := by
  intro h
  induction entries using DirEntries.listInduction with
  | nil => cases h
  | cons name mark node rest ih =>
    rcases mem_append.mp h with h | h
    · obtain ⟨inner, -, heq⟩ := mem_map.mp h
      exact absurd (congrArg Prod.fst heq) (cons_ne_nil name inner.1)
    · exact ih h

mutual

/-- Every node is found on one way. -/
theorem FileTree.nodup_nodes : ∀ {node : FileTree K A D}, node.Distinct → (node.nodes.map Prod.fst).Nodup
  | .file _, _ => nodup_singleton _
  | .locked, _ => nodup_singleton _
  | .dir entries, h => by
    refine nodup_cons.mpr ⟨fun hmem => ?_, DirEntries.nodup_nodes h⟩
    obtain ⟨⟨path, found⟩, hfound, hpath⟩ := mem_map.mp hmem
    obtain rfl : path = [] := hpath
    exact DirEntries.not_nil_mem_nodes hfound

theorem DirEntries.nodup_nodes : ∀ {entries : DirEntries K A D}, entries.Distinct → (entries.nodes.map Prod.fst).Nodup
  | .nil, _ => nodup_nil
  | .cons name mark node rest, h => by
    obtain ⟨hname, hnode, hrest⟩ := h
    rw [DirEntries.nodes, map_append, map_map]
    have hfront : (node.nodes.map (Prod.fst ∘ fun found => (name :: found.1, found.2))) =
        (node.nodes.map Prod.fst).map (name :: ·) := by
      rw [map_map]
      rfl
    rw [hfront]
    refine nodup_append.mpr ⟨?_, rest.nodup_nodes hrest, ?_⟩
    · exact (FileTree.nodup_nodes hnode).map (cons_injective)
    · intro path hpath path' hpath' heq
      obtain ⟨inner, -, rfl⟩ := mem_map.mp hpath
      obtain ⟨⟨outer, found⟩, hfound, rfl⟩ := mem_map.mp hpath'
      obtain rfl : name :: inner = outer := heq
      exact hname (DirEntries.mem_names_of_mem_nodes hfound)

end

theorem FileTree.asFile_eq_some {data : D} :
    FileTree.asFile found = some (path, data) ↔ found = (path, .file data) := by
  obtain ⟨path', node⟩ := found
  cases node with
  | _ => simp [FileTree.asFile]

theorem FileTree.asEmptyDir_eq_some : FileTree.asEmptyDir found = some path ↔ found = (path, .dir .nil) := by
  obtain ⟨path', node⟩ := found
  cases node with
  | dir entries => cases entries <;> simp [FileTree.asEmptyDir]
  | _ => simp [FileTree.asEmptyDir]

/-- What is picked out of a list with distinct keys, each under its own key, has distinct keys. -/
theorem nodup_filterMap {B C : Type} {l : List (List K × B)} {pick : List K × B → Option C} {key : C → List K}
    (hkey : ∀ found c, pick found = some c → key c = found.1) (h : (l.map Prod.fst).Nodup) :
    ((l.filterMap pick).map key).Nodup := by
  induction l with
  | nil => exact nodup_nil
  | cons found l ih =>
    obtain ⟨hfound, hl⟩ := nodup_cons.mp h
    cases hpick : pick found with
    | none =>
      rw [filterMap_cons_none hpick]
      exact ih hl
    | some c =>
      rw [filterMap_cons_some hpick]
      refine nodup_cons.mpr ⟨fun hmem => hfound ?_, ih hl⟩
      obtain ⟨c', hc', heq⟩ := mem_map.mp hmem
      obtain ⟨found', hfound', hpick'⟩ := mem_filterMap.mp hc'
      rw [← hkey found c hpick, ← heq, hkey found' c' hpick']
      exact mem_map_of_mem hfound'

theorem FileTree.nodup_files (h : node.Distinct) : (node.files.map Prod.fst).Nodup := by
  refine nodup_filterMap (fun found file hfile => ?_) (FileTree.nodup_nodes h)
  rw [FileTree.asFile_eq_some.mp hfile]

theorem FileTree.nodup_emptyDirs (h : node.Distinct) : node.emptyDirs.Nodup := by
  have hkey : ∀ (found : List K × FileTree K A D) path, FileTree.asEmptyDir found = some path → id path = found.1 := by
    intro found path hpath
    rw [FileTree.asEmptyDir_eq_some.mp hpath]
    rfl
  have hkeys := nodup_filterMap hkey (FileTree.nodup_nodes h)
  rwa [map_id] at hkeys

end Nodes

section Find

variable [DecidableEq K] {node found : FileTree K A D} {path path' : List K} {data : D}

mutual

/-- The nodes are those that names lead to. -/
theorem FileTree.mem_nodes_iff : ∀ {node : FileTree K A D}, node.Distinct → ∀ {path : List K}
    {found : FileTree K A D}, (path, found) ∈ node.nodes ↔ node.find path = some found
  | .file data, _, path, found => by
    cases path with
    | nil => simp [FileTree.nodes, FileTree.find, eq_comm]
    | cons name path => simp [FileTree.nodes, FileTree.find]
  | .locked, _, path, found => by
    cases path with
    | nil => simp [FileTree.nodes, FileTree.find, eq_comm]
    | cons name path => simp [FileTree.nodes, FileTree.find]
  | .dir entries, h, path, found => by
    cases path with
    | nil => simp [FileTree.nodes, FileTree.find, DirEntries.not_nil_mem_nodes, eq_comm]
    | cons name path =>
      have hentries : (name :: path, found) ∈ entries.nodes ↔ entries.find name path = some found :=
        DirEntries.mem_nodes_iff h
      simp [FileTree.nodes, FileTree.find, hentries]

theorem DirEntries.mem_nodes_iff : ∀ {entries : DirEntries K A D}, entries.Distinct → ∀ {name : K} {path : List K}
    {found : FileTree K A D}, (name :: path, found) ∈ entries.nodes ↔ entries.find name path = some found
  | .nil, _, name, path, found => by simp [DirEntries.nodes, DirEntries.find]
  | .cons name' mark node rest, h, name, path, found => by
    obtain ⟨hname, hnode, hrest⟩ := h
    rw [DirEntries.nodes, mem_append, DirEntries.find]
    by_cases heq : name' = name
    · subst heq
      rw [if_pos rfl, ← FileTree.mem_nodes_iff hnode]
      constructor
      · rintro (hmem | hmem)
        · obtain ⟨inner, hinner, hcons⟩ := mem_map.mp hmem
          obtain ⟨hpath, rfl⟩ := Prod.mk.inj hcons
          obtain rfl := (cons.inj hpath).2
          exact hinner
        · exact absurd (DirEntries.mem_names_of_mem_nodes hmem) hname
      · intro hmem
        exact .inl (mem_map.mpr ⟨_, hmem, rfl⟩)
    · rw [if_neg heq, ← DirEntries.mem_nodes_iff hrest]
      refine or_iff_right fun hmem => ?_
      obtain ⟨inner, -, hcons⟩ := mem_map.mp hmem
      exact heq (cons.inj (congrArg Prod.fst hcons)).1

end

theorem FileTree.mem_files_iff (h : node.Distinct) :
    (path, data) ∈ node.files ↔ node.find path = some (.file data) := by
  rw [← FileTree.mem_nodes_iff h, FileTree.files, mem_filterMap]
  simp only [FileTree.asFile_eq_some, exists_eq_right]

theorem FileTree.mem_emptyDirs_iff (h : node.Distinct) : path ∈ node.emptyDirs ↔ node.find path = some (.dir .nil) := by
  rw [← FileTree.mem_nodes_iff h, FileTree.emptyDirs, mem_filterMap]
  simp only [FileTree.asEmptyDir_eq_some, exists_eq_right]

mutual

/-- Names lead on from where other names lead. -/
theorem FileTree.find_append : ∀ (node : FileTree K A D) (path path' : List K),
    node.find (path ++ path') = (node.find path).bind (·.find path')
  | .file _, [], _ => rfl
  | .file _, _ :: _, _ => rfl
  | .locked, [], _ => rfl
  | .locked, _ :: _, _ => rfl
  | .dir _, [], _ => rfl
  | .dir entries, name :: path, path' => entries.find_append name path path'

theorem DirEntries.find_append : ∀ (entries : DirEntries K A D) (name : K) (path path' : List K),
    entries.find name (path ++ path') = (entries.find name path).bind (·.find path')
  | .nil, _, _, _ => rfl
  | .cons name' mark node rest, name, path, path' => by
    rw [DirEntries.find, DirEntries.find]
    split_ifs
    · exact node.find_append path path'
    · exact rest.find_append name path path'

end

end Find

/-- Directories and files by the names that lead to them. -/
structure Layout (K D : Type) where
  dirs : Set (List K)
  file : List K → Option D

namespace Layout

def empty : Layout K D := { dirs := ∅, file := fun _ => none }

/-- A directory with those above it. -/
def createDir (layout : Layout K D) (path : List K) : Layout K D :=
  { layout with dirs := layout.dirs ∪ {path' | path' <+: path} }

/-- A file with the directories above it. -/
def writeFile [DecidableEq K] (layout : Layout K D) (path : List K) (data : D) : Layout K D :=
  { dirs := layout.dirs ∪ {path' | path' <+: path ∧ path' ≠ path}
    file := Function.update layout.file path (some data) }

/-- First the directories, then the files. -/
def build [DecidableEq K] (dirs : List (List K)) (files : List (List K × D)) : Layout K D :=
  files.foldl (fun layout file => layout.writeFile file.1 file.2) (dirs.foldl createDir empty)

section Build

theorem mem_dirs_foldl_createDir {dirs : List (List K)} {layout : Layout K D} {path : List K} :
    path ∈ (dirs.foldl createDir layout).dirs ↔ path ∈ layout.dirs ∨ ∃ dir ∈ dirs, path <+: dir := by
  induction dirs generalizing layout with
  | nil => simp
  | cons dir dirs ih =>
    simp only [foldl_cons, ih, mem_cons, exists_eq_or_imp, ← or_assoc]
    rfl

theorem file_foldl_createDir (dirs : List (List K)) (layout : Layout K D) :
    (dirs.foldl createDir layout).file = layout.file := by
  induction dirs generalizing layout with
  | nil => rfl
  | cons dir dirs ih => exact ih (layout.createDir dir)

variable [DecidableEq K] {files : List (List K × D)} {layout : Layout K D} {path : List K}

theorem mem_dirs_foldl_writeFile :
    path ∈ (files.foldl (fun layout file => layout.writeFile file.1 file.2) layout).dirs ↔
      path ∈ layout.dirs ∨ ∃ file ∈ files, path <+: file.1 ∧ path ≠ file.1 := by
  induction files generalizing layout with
  | nil => simp
  | cons file files ih =>
    simp only [foldl_cons, ih, mem_cons, exists_eq_or_imp, ← or_assoc]
    rfl

/-- Files of distinct names are kept. -/
theorem file_foldl_writeFile {data : D} (h : (files.map Prod.fst).Nodup) :
    (files.foldl (fun layout file => layout.writeFile file.1 file.2) layout).file path = some data ↔
      (path, data) ∈ files ∨ path ∉ files.map Prod.fst ∧ layout.file path = some data := by
  induction files generalizing layout with
  | nil => simp
  | cons file files ih =>
    obtain ⟨hfile, hfiles⟩ := nodup_cons.mp h
    obtain ⟨path', data'⟩ := file
    rw [foldl_cons, ih hfiles, mem_cons, map_cons, mem_cons, writeFile]
    by_cases heq : path = path'
    · subst heq
      have hnot : (path, data) ∉ files := fun hmem => hfile (mem_map.mpr ⟨_, hmem, rfl⟩)
      simp [hfile, hnot, eq_comm]
    · simp [heq]

end Build

end Layout

/-- An open tree ends in a file or in a directory without entries. -/
theorem FileTree.Open.exists_leaf : ∀ {node : FileTree K A D}, node.Open →
    (∃ path, path ∈ node.emptyDirs) ∨ ∃ path data, (path, data) ∈ node.files
  | .file data, _ => .inr ⟨[], data, mem_singleton_self _⟩
  | .dir .nil, _ => .inl ⟨[], mem_singleton_self _⟩
  | .dir (.cons name mark node rest), h => by
    have hnode : node.Open := h.1
    rcases hnode.exists_leaf with ⟨path, hpath⟩ | ⟨path, data, hfile⟩
    · refine .inl ⟨name :: path, ?_⟩
      rw [FileTree.emptyDirs_cons, DirEntries.emptyDirs_entries_cons]
      exact mem_append_left _ (mem_map_of_mem hpath)
    · refine .inr ⟨name :: path, data, ?_⟩
      rw [FileTree.files_dir, DirEntries.files_cons]
      exact mem_append_left _ (mem_map.mpr ⟨_, hfile, rfl⟩)

section Rebuild

variable [DecidableEq K] {node found : FileTree K A D} {path : List K} {node : FileTree K A D}

/-- The directories and the files of a tree. -/
def FileTree.layout (node : FileTree K A D) : Layout K D where
  dirs := {path | ∃ entries, node.find path = some (.dir entries)}
  file path := match node.find path with
    | some (.file data) => some data
    | _ => none

section Inherit

variable {P : FileTree K A D → Prop} {Q : DirEntries K A D → Prop}

mutual

/-- What a directory hands down to its entries holds of every node below. -/
theorem FileTree.inherits (hdir : ∀ entries, P (.dir entries) → Q entries)
    (hcons : ∀ name mark node rest, Q (.cons name mark node rest) → P node ∧ Q rest) :
    ∀ (node : FileTree K A D) (path : List K) {found : FileTree K A D}, P node → node.find path = some found → P found
  | .file _, [], _, h, hfind => Option.some.inj hfind ▸ h
  | .locked, [], _, h, hfind => Option.some.inj hfind ▸ h
  | .dir _, [], _, h, hfind => Option.some.inj hfind ▸ h
  | .dir entries, name :: path, _, h, hfind => entries.inherits hdir hcons name path (hdir entries h) hfind

theorem DirEntries.inherits (hdir : ∀ entries, P (.dir entries) → Q entries)
    (hcons : ∀ name mark node rest, Q (.cons name mark node rest) → P node ∧ Q rest) :
    ∀ (entries : DirEntries K A D) (name : K) (path : List K) {found : FileTree K A D}, Q entries →
      entries.find name path = some found → P found
  | .cons name' mark node rest, name, path, found, h, hfind => by
    obtain ⟨hnode, hrest⟩ := hcons name' mark node rest h
    rw [DirEntries.find] at hfind
    split_ifs at hfind
    · exact node.inherits hdir hcons path hnode hfind
    · exact rest.inherits hdir hcons name path hrest hfind

end

theorem FileTree.Open.find (h : node.Open) (hfind : node.find path = some found) : found.Open :=
  node.inherits (Q := DirEntries.Open) (fun _ h => h) (fun _ _ _ _ h => h) path h hfind

theorem FileTree.Distinct.find (h : node.Distinct) (hfind : node.find path = some found) : found.Distinct :=
  node.inherits (Q := DirEntries.Distinct) (fun _ h => h) (fun _ _ _ _ h => h.2) path h hfind

end Inherit

/-- What lies above a node is a directory. -/
theorem FileTree.find_of_prefix {path path' : List K}
    (hfind : node.find path = some found) (hpre : path' <+: path) (hne : path' ≠ path) :
    ∃ entries, node.find path' = some (.dir entries) := by
  obtain ⟨below, rfl⟩ := hpre
  rw [node.find_append] at hfind
  cases habove : node.find path' with
  | none =>
    rw [habove] at hfind
    cases hfind
  | some above =>
    rw [habove, Option.bind_some] at hfind
    cases below with
    | nil => exact absurd (append_nil path').symm hne
    | cons name below =>
      cases above with
      | dir entries => exact ⟨entries, rfl⟩
      | file data => cases hfind
      | locked => cases hfind

/-- Every directory of an open tree is above a file, or above or at a directory without entries. -/
theorem FileTree.exists_leaf_below (hdistinct : node.Distinct) (hopen : node.Open)
    {entries : DirEntries K A D} (hfind : node.find path = some (.dir entries)) :
    (∃ dir ∈ node.emptyDirs, path <+: dir) ∨ ∃ file ∈ node.files, path <+: file.1 ∧ path ≠ file.1 := by
  have hlead : ∀ below, node.find (path ++ below) = (FileTree.dir entries).find below := by
    intro below
    rw [node.find_append, hfind, Option.bind_some]
  have hinner : (FileTree.dir entries : FileTree K A D).Distinct := hdistinct.find hfind
  rcases (hopen.find hfind).exists_leaf with ⟨below, hbelow⟩ | ⟨below, data, hfile⟩
  · refine .inl ⟨path ++ below, ?_, prefix_append path below⟩
    rw [FileTree.mem_emptyDirs_iff hdistinct, hlead]
    exact (FileTree.mem_emptyDirs_iff hinner).mp hbelow
  · have hleaf := (FileTree.mem_files_iff hinner).mp hfile
    refine .inr ⟨(path ++ below, data), ?_, prefix_append path below, ?_⟩
    · rw [FileTree.mem_files_iff hdistinct, hlead]
      exact hleaf
    · intro heq
      obtain rfl : below = [] := append_cancel_left (heq.symm.trans (append_nil path).symm)
      cases hleaf

/-- The rebuilding rule: the directories without entries and the files give the whole layout of an open tree. -/
theorem FileTree.build_eq_layout (hdistinct : node.Distinct) (hopen : node.Open) :
    Layout.build node.emptyDirs node.files = node.layout := by
  have hdirs : (Layout.build node.emptyDirs node.files).dirs = node.layout.dirs := by
    ext path
    rw [Layout.build, Layout.mem_dirs_foldl_writeFile, Layout.mem_dirs_foldl_createDir]
    constructor
    · rintro ((hempty | ⟨dir, hdir, hprefix⟩) | ⟨file, hfile, hprefix, hne⟩)
      · exact absurd hempty (Set.notMem_empty path)
      · have hfind := (FileTree.mem_emptyDirs_iff hdistinct).mp hdir
        by_cases heq : path = dir
        · exact ⟨.nil, heq ▸ hfind⟩
        · exact FileTree.find_of_prefix hfind hprefix heq
      · exact FileTree.find_of_prefix ((FileTree.mem_files_iff hdistinct).mp hfile) hprefix hne
    · rintro ⟨entries, hfind⟩
      rcases FileTree.exists_leaf_below hdistinct hopen hfind with hleaf | hleaf
      · exact .inl (.inr hleaf)
      · exact .inr hleaf
  have hfile : (Layout.build node.emptyDirs node.files).file = node.layout.file := by
    funext path
    refine Option.ext fun data => ?_
    rw [Layout.build, Layout.file_foldl_writeFile (FileTree.nodup_files hdistinct), Layout.file_foldl_createDir,
      FileTree.mem_files_iff hdistinct]
    constructor
    · rintro (hfind | ⟨-, hempty⟩)
      · simp only [FileTree.layout, hfind]
      · cases hempty
    · intro hlayout
      simp only [FileTree.layout] at hlayout
      split at hlayout
      next data' hfind =>
        cases hlayout
        exact .inl hfind
      next => cases hlayout
  calc Layout.build node.emptyDirs node.files
      = ⟨(Layout.build node.emptyDirs node.files).dirs, (Layout.build node.emptyDirs node.files).file⟩ := rfl
    _ = node.layout := by rw [hdirs, hfile]

end Rebuild

end UnyDesk.Lib
