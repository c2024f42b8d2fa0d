import UnyDesk.Lib.PathText
import UnyDesk.Proto.Message

/-!
# The log of removed files

Every removal of a file or a directory is reported at once. What was removed is also collected, and reported again when
nothing was removed for a second; what was removed just before the directory that held it is meant to be left out then.
The collected directories keep to this. Of the collected files the other ones are dropped: those that are named as the
parent of the directory.
-/

namespace UnyDesk

open Lib Lib.PathText List

structure FileRemoveFile where
  id : Int
  path : String
  fileNum : Int
deriving DecidableEq

structure FileRemoveDir where
  id : Int
  path : String
  recursive : Bool

structure FileActionLog where
  id : Int
  connId : Int
  path : String
  dir : Bool

/-- `ipc::Data::FileTransferLog`, with the record that is sent as JSON. -/
structure FileTransferLog where
  action : String
  log : FileActionLog

/-- The control of one connection; times are in milliseconds. -/
structure FileRemoveLogControl where
  connId : Int
  instant : ℕ
  removedFiles : List FileRemoveFile := []
  removedDirs : List FileRemoveDir := []

section Control

variable {H : Type} [DecidableEq H] (components : String → List (PathComponent H))

/-- How the platform reads the path of the child without its last component. -/
def directChild (parentPath child : String) : Bool := parent (components child) = some (components parentPath)

namespace FileRemoveLogControl

variable (control : FileRemoveLogControl)

def onRemoveFile (now : ℕ) (f : FileRemoveFile) : FileRemoveLogControl × FileTransferLog :=
  ({ control with instant := now, removedFiles := control.removedFiles ++ [f] },
    ⟨"remove", { id := f.id, connId := control.connId, path := f.path, dir := false }⟩)

def onRemoveDir (now : ℕ) (d : FileRemoveDir) : FileRemoveLogControl × FileTransferLog :=
  let removedFiles := control.removedFiles.filter fun f => !directChild components f.path d.path
  let removedDirs := control.removedDirs.filter fun x => !directChild components d.path x.path
  let removedDirs :=
    if removedDirs.any fun x => directChild components x.path d.path then removedDirs else removedDirs ++ [d]
  ({ control with instant := now, removedFiles, removedDirs },
    ⟨"remove", { id := d.id, connId := control.connId, path := d.path, dir := true }⟩)

def onTimer (now : ℕ) : FileRemoveLogControl × List FileTransferLog :=
  if (now - control.instant) / 1000 < 1 then (control, [])
  else
    ({ control with removedFiles := [], removedDirs := [] }, (control.removedFiles.map fun f =>
        ⟨"remove", { id := f.id, connId := control.connId, path := f.path, dir := false }⟩) ++
      control.removedDirs.map fun d =>
        ⟨"remove", { id := d.id, connId := control.connId, path := d.path, dir := true }⟩)

/-- What is removed between two flushes. -/
inductive Removed
  | file (now : ℕ) (f : FileRemoveFile)
  | dir (now : ℕ) (d : FileRemoveDir)

def remove (control : FileRemoveLogControl) : Removed → FileRemoveLogControl
  | .file now f => (control.onRemoveFile now f).1
  | .dir now d => (control.onRemoveDir components now d).1

def removeAll (control : FileRemoveLogControl) (removed : List Removed) : FileRemoveLogControl :=
  removed.foldl (remove components) control

/-- The files among what was removed. -/
def files : List Removed → List FileRemoveFile
  | [] => []
  | .file _ f :: removed => f :: files removed
  | .dir _ _ :: removed => files removed

/-- What is removed later has nothing to do with a file: a directory neither holds it nor has it as its parent. -/
def Unrelated : Removed → Removed → Prop
  | .file _ f, .dir _ d => directChild components d.path f.path = false ∧ directChild components f.path d.path = false
  | _, _ => True

/-- After these removals the lists are as they are meant to be: where the last one is a directory, its files are gone and
all other files are there, unless a directory that was removed later held them. -/
structure Grouped (removed : List Removed) (control : FileRemoveLogControl) : Prop where
  left : ∀ now d, removed.getLast? = some (.dir now d) →
    ∀ f ∈ control.removedFiles, directChild components d.path f.path = false
  kept : ∀ now d, removed.getLast? = some (.dir now d) → ∀ before now f after, removed = before ++ .file now f :: after →
    (∀ now d, .dir now d ∈ after → directChild components d.path f.path = false) → f ∈ control.removedFiles
  dirs : ∀ x ∈ control.removedDirs, ∀ y ∈ control.removedDirs, directChild components x.path y.path = false

section Steps

variable {components control} {removed : List Removed} {f : FileRemoveFile}

/-- A path is not its own parent, and not the parent of its parent. -/
theorem directChild_asymm {path path' : String} (h : directChild components path path' = true) :
    directChild components path' path = false := by
  rw [directChild, decide_eq_true_eq] at h
  rw [directChild, decide_eq_false_iff_not]
  intro hback
  have hlength := length_of_parent h
  have hlength' := length_of_parent hback
  omega

theorem directChild_self (path : String) : directChild components path path = false := by
  rw [directChild, decide_eq_false_iff_not]
  intro h
  have hlength := length_of_parent h
  omega

@[simp] theorem files_append (removed removed' : List Removed) :
    files (removed ++ removed') = files removed ++ files removed' := by
  induction removed with
  | nil => rfl
  | cons first removed ih =>
    cases first with
    | file now f => rw [cons_append, files, files, ih, cons_append]
    | dir now d => rw [cons_append, files, files, ih]

theorem mem_files : f ∈ files removed ↔ ∃ now, Removed.file now f ∈ removed := by
  induction removed with
  | nil => simp [files]
  | cons first removed ih =>
    cases first with
    | file now f' => simp [files, ih, exists_or, eq_comm]
    | dir now d => simp [files, ih]

theorem removeAll_concat (removed : List Removed) (last : Removed) : control.removeAll components (removed ++ [last]) =
      (control.removeAll components removed).remove components last := by
  rw [removeAll, foldl_concat]
  rfl

/-- No collected directory holds another one. -/
theorem removedDirs_remove
    (h : ∀ x ∈ control.removedDirs, ∀ y ∈ control.removedDirs, directChild components x.path y.path = false)
    (event : Removed) : ∀ x ∈ (control.remove components event).removedDirs,
      ∀ y ∈ (control.remove components event).removedDirs, directChild components x.path y.path = false := by
  cases event with
  | file now f => exact h
  | dir now d =>
    have hleft : ∀ x ∈ control.removedDirs.filter fun x => !directChild components d.path x.path,
        x ∈ control.removedDirs ∧ directChild components d.path x.path = false := by
      intro x hx
      simpa using hx
    rw [remove, onRemoveDir]
    dsimp only
    split
    · exact fun x hx y hy => h x (hleft x hx).1 y (hleft y hy).1
    · rename_i hparents
      rw [any_eq_true] at hparents
      have hnone : ∀ x ∈ control.removedDirs.filter fun x => !directChild components d.path x.path,
          directChild components x.path d.path = false :=
        fun x hx => Bool.eq_false_iff.mpr fun hparent => hparents ⟨x, hx, hparent⟩
      intro x hx y hy
      rcases mem_append.mp hx with hx | hx
      · rcases mem_append.mp hy with hy | hy
        · exact h x (hleft x hx).1 y (hleft y hy).1
        · rw [mem_singleton.mp hy]
          exact hnone x hx
      · rw [mem_singleton.mp hx]
        rcases mem_append.mp hy with hy | hy
        · exact (hleft y hy).2
        · rw [mem_singleton.mp hy]
          exact directChild_self d.path

theorem removedDirs_removeAll (h : control.removedDirs = []) (removed : List Removed) :
    ∀ x ∈ (control.removeAll components removed).removedDirs, ∀ y ∈ (control.removeAll components removed).removedDirs,
      directChild components x.path y.path = false := by
  induction removed using reverseRecOn with
  | nil =>
    intro x hx
    rw [removeAll, foldl_nil, h] at hx
    cases hx
  | append_singleton removed last ih =>
    rw [removeAll_concat]
    exact removedDirs_remove ih last

/-- As long as nothing is related to a file that was removed before, all files stay. -/
theorem removedFiles_removeAll (h : control.removedFiles = []) (hunrelated : removed.Pairwise (Unrelated components)) :
    (control.removeAll components removed).removedFiles = files removed := by
  induction removed using reverseRecOn with
  | nil => exact h
  | append_singleton removed last ih =>
    obtain ⟨hbefore, -, hlast⟩ := pairwise_append.mp hunrelated
    rw [removeAll_concat, files_append]
    have hfiles := ih hbefore
    cases last with
    | file now f =>
      change (control.removeAll components removed).removedFiles ++ [f] = files removed ++ [f]
      rw [hfiles]
    | dir now d =>
      change ((control.removeAll components removed).removedFiles.filter fun f => !directChild components f.path d.path) =
        files removed ++ []
      rw [hfiles, append_nil, filter_eq_self]
      intro f hf
      obtain ⟨now', hmem⟩ := mem_files.mp hf
      have hrelated := hlast _ hmem (.dir now d) mem_cons_self
      rw [hrelated.2]
      rfl

/-- A file that was removed before stays until a directory is removed that would be its child. -/
theorem mem_removedFiles_remove (hmem : f ∈ control.removedFiles) (now : ℕ) (d : FileRemoveDir) :
    f ∈ (control.remove components (.dir now d)).removedFiles ↔ directChild components f.path d.path = false := by
  change f ∈ (control.removedFiles.filter fun f => !directChild components f.path d.path) ↔ _
  rw [mem_filter, Bool.not_eq_true']
  exact and_iff_right hmem

/-- Unrelated removals keep the lists as they are meant to be. -/
theorem grouped_removeAll (hfiles : control.removedFiles = []) (hdirs : control.removedDirs = [])
    (hunrelated : removed.Pairwise (Unrelated components)) :
    Grouped components removed (control.removeAll components removed) := by
  have hall := removedFiles_removeAll hfiles hunrelated
  refine ⟨?_, ?_, removedDirs_removeAll hdirs removed⟩
  · intro now d hlast f hf
    obtain ⟨before, rfl⟩ := getLast?_eq_some_iff.mp hlast
    rw [hall, files_append] at hf
    obtain ⟨now', hmem⟩ := mem_files.mp (show f ∈ files before by simpa [files] using hf)
    have hrelated := (pairwise_append.mp hunrelated).2.2 _ hmem (.dir now d) mem_cons_self
    exact hrelated.1
  · rintro - - - before now f after rfl -
    rw [hall, mem_files]
    exact ⟨now, mem_append_right before mem_cons_self⟩

/-- What is removed last is unrelated to the files before it when the lists are as they are meant to be. -/
theorem unrelated_of_grouped (hfiles : control.removedFiles = []) {last : Removed}
    (hunrelated : removed.Pairwise (Unrelated components))
    (hgrouped : Grouped components (removed ++ [last]) (control.removeAll components (removed ++ [last]))) :
    ∀ first ∈ removed, Unrelated components first last := by
  intro first hfirst
  cases first with
  | dir now d => trivial
  | file now f =>
    cases last with
    | file now' f' => trivial
    | dir now' d =>
      have hmem : f ∈ (control.removeAll components removed).removedFiles := by
        rw [removedFiles_removeAll hfiles hunrelated]
        exact mem_files.mpr ⟨now, hfirst⟩
      have hlast : (removed ++ [Removed.dir now' d]).getLast? = some (.dir now' d) := getLast?_concat
      have hkeeps : f ∈ (control.removeAll components (removed ++ [.dir now' d])).removedFiles ↔
          directChild components f.path d.path = false := by
        rw [removeAll_concat]
        exact mem_removedFiles_remove hmem now' d
      -- A child of the directory is no parent of it, so the filter lets it through.
      have hchild : directChild components d.path f.path = false := by
        by_contra hheld
        rw [Bool.not_eq_false] at hheld
        have hleft := hgrouped.left now' d hlast f (hkeeps.mpr (directChild_asymm hheld))
        rw [hheld] at hleft
        cases hleft
      refine ⟨hchild, hkeeps.mp ?_⟩
      obtain ⟨before, after, hsplit⟩ := append_of_mem hfirst
      refine hgrouped.kept now' d hlast before now f (after ++ [.dir now' d]) ?_ ?_
      · rw [hsplit, append_assoc, cons_append]
      · intro now'' d' hd
        rcases mem_append.mp hd with hd | hd
        · rw [hsplit] at hunrelated
          have hrest := pairwise_cons.mp (pairwise_append.mp hunrelated).2.1
          exact (hrest.1 _ hd).1
        · cases mem_singleton.mp hd
          exact hchild

end Steps

/-- Between two flushes the lists are as they are meant to be exactly as long as no directory is removed that holds, or
is held by, what was removed as a file before. -/
theorem grouped_iff (hfiles : control.removedFiles = []) (hdirs : control.removedDirs = []) (removed : List Removed) :
    (∀ given rest, removed = given ++ rest → Grouped components given (control.removeAll components given)) ↔
      removed.Pairwise (Unrelated components) := by
  constructor
  · intro hgrouped
    induction removed using List.reverseRecOn with
    | nil => exact List.Pairwise.nil
    | append_singleton removed last ih =>
      have hbefore : removed.Pairwise (Unrelated components) := by
        refine ih fun given rest hsplit => hgrouped given (rest ++ [last]) ?_
        rw [hsplit, List.append_assoc]
      have hlast := unrelated_of_grouped hfiles hbefore (hgrouped (removed ++ [last]) [] (List.append_nil _).symm)
      refine List.pairwise_append.mpr ⟨hbefore, List.pairwise_singleton _ _, ?_⟩
      intro first hfirst last' hlast'
      rw [List.mem_singleton.mp hlast']
      exact hlast first hfirst
  · rintro hunrelated given rest rfl
    exact grouped_removeAll hfiles hdirs (List.pairwise_append.mp hunrelated).1

end FileRemoveLogControl

end Control

/-- How Unix reads a path: a `.` is only kept at the beginning, and separators do not count twice. -/
def unixComponents (path : String) : List (PathComponent Empty) :=
  let part (name : List Char) : Option (PathComponent Empty) :=
    if name = [] ∨ name = ['.'] then none else if name = ['.', '.'] then some .parentDir else some (.normal name)
  match splitBy (· == '/') path.toList with
  | [] => []
  | first :: parts =>
    let front :=
      if first = [] ∧ parts ≠ [] then [.rootDir] else if first = ['.'] then [.curDir] else (part first).toList
    front ++ parts.filterMap part

namespace FileRemoveLogControl

/-- What is removed in another directory leaves the file among the collected ones. -/
theorem grouped_iff_elsewhere : Grouped unixComponents [.file 0 ⟨1, "/d/x", 0⟩, .dir 1 ⟨1, "/e", true⟩]
      (removeAll unixComponents { connId := 5, instant := 0 } [.file 0 ⟨1, "/d/x", 0⟩, .dir 1 ⟨1, "/e", true⟩]) := by
  refine (grouped_iff unixComponents { connId := 5, instant := 0 } rfl rfl
    [.file 0 ⟨1, "/d/x", 0⟩, .dir 1 ⟨1, "/e", true⟩]).mpr ?_ _ [] (List.append_nil _).symm
  refine List.pairwise_pair.mpr ⟨?_, ?_⟩
  · decide
  · decide

/-- The file that was removed before its directory is reported again. -/
theorem not_grouped_held : ¬ ∀ given rest, [.file 0 ⟨1, "/d/x", 0⟩, .dir 1 ⟨1, "/d", true⟩] = given ++ rest →
      Grouped unixComponents given (removeAll unixComponents { connId := 5, instant := 0 } given) := by
  intro hgrouped
  have hleft := (hgrouped [.file 0 ⟨1, "/d/x", 0⟩, .dir 1 ⟨1, "/d", true⟩] [] rfl).left 1 ⟨1, "/d", true⟩ rfl
    ⟨1, "/d/x", 0⟩
  revert hleft
  decide

end FileRemoveLogControl

end UnyDesk
