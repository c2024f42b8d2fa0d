import UnyDesk.Clipboard.PasteTask

/-!
# The walk over copied files

The list of a copy has every selected file and directory and all that is below them. The system is asked about
each path in turn, and may tell something else each time; what it tells is given to the walk as a tree. A path
that was walked before is passed over.
-/

namespace UnyDesk

open Lib

mutual

/-- What the system tells about a path while it is walked: when it is opened for the list, when it is looked at
again, and when it is read as a directory. -/
inductive PathAnswers
  | mk (opened again : Except String FileMetadata) (entries : DirAnswers)

/-- The entries of a directory as they are read, each with what the system tells about it before the next one. -/
inductive DirAnswers
  | done
  | failed (e : String)
  | entry (name : String) (answers : PathAnswers) (later : DirAnswers)

end

/-- The list so far, and the components of the paths that were walked. -/
structure WalkState where
  fileList : List LocalFile := []
  visited : List (List (List Char)) := []

mutual

/-- `constr_file_lst`. -/
def constrFileLst (relativeRoot path : String) : PathAnswers → WalkState → Except CliprdrError WalkState
  | .mk opened again entries, st =>
    -- prevent fs loop
    if pathComponents path.toList ∈ st.visited then .ok st
    else
      match LocalFile.tryOpen relativeRoot path opened with
      | .error e => .error e
      | .ok localFile =>
        let st := { fileList := st.fileList ++ [localFile], visited := st.visited ++ [pathComponents path.toList] }
        match again with
        | .error e => .error (.fileError path e)
        | .ok mt => if mt.isDir then constrEntries relativeRoot path entries st else .ok st

/-- The loop over the entries of a directory. -/
def constrEntries (relativeRoot path : String) : DirAnswers → WalkState → Except CliprdrError WalkState
  | .done, st => .ok st
  | .failed e, _ => .error (.fileError path e)
  | .entry name answers later, st =>
    match constrFileLst relativeRoot (pathJoin path name) answers st with
    | .error e => .error e
    | .ok st => constrEntries relativeRoot path later st

end

/-- The loop over the selected paths. -/
def constrSelection (relativeRoot : String) : List (String × PathAnswers) → WalkState → Except CliprdrError WalkState
  | [], st => .ok st
  | (path, answers) :: later, st =>
    match constrFileLst relativeRoot path answers st with
    | .error e => .error e
    | .ok st => constrSelection relativeRoot later st

/-- `construct_file_list`. -/
def constructFileList (paths : List (String × PathAnswers)) : Except CliprdrError (List LocalFile) :=
  match paths.head? with
  | none => .error (.invalidRequest "empty file list")
  | some (first, _) =>
    match pathParent first with
    | none => .error (.invalidRequest "empty parent")
    | some relativeRoot => (constrSelection relativeRoot paths {}).map (·.fileList)

section Walk

variable {relativeRoot path : String} {st st' : WalkState} {answers : PathAnswers}
  {later : List (String × PathAnswers)} {entries : DirAnswers}

/-- A path that is walked for the first time is listed, and its entries follow if it is a directory. -/
theorem constrFileLst_cases {opened again : Except String FileMetadata}
    (h : constrFileLst relativeRoot path (.mk opened again entries) st = .ok st') :
    (pathComponents path.toList ∈ st.visited ∧ st' = st) ∨
      ∃ localFile mt, pathComponents path.toList ∉ st.visited ∧
        LocalFile.tryOpen relativeRoot path opened = .ok localFile ∧ again = .ok mt ∧
        (if mt.isDir then constrEntries relativeRoot path entries
            ⟨st.fileList ++ [localFile], st.visited ++ [pathComponents path.toList]⟩ = .ok st'
          else st' = ⟨st.fileList ++ [localFile], st.visited ++ [pathComponents path.toList]⟩) := by
  rw [constrFileLst] at h
  split at h
  next hvisited =>
    cases h
    exact .inl ⟨hvisited, rfl⟩
  next hnew =>
    split at h
    next => cases h
    next localFile hopen =>
      dsimp only at h
      split at h
      next => cases h
      next mt =>
        refine .inr ⟨localFile, mt, hnew, hopen, rfl, ?_⟩
        split at h
        next hdir =>
          rw [if_pos hdir]
          exact h
        next hdir =>
          rw [if_neg hdir]
          exact (Except.ok.inj h).symm

/-- A path that the system knows is opened for the list. -/
theorem tryOpen_ok (relativeRoot path : String) (mt : FileMetadata) :
    ∃ localFile, LocalFile.tryOpen relativeRoot path (.ok mt) = .ok localFile ∧ localFile.path = path ∧
      localFile.relativeRoot = relativeRoot ∧ localFile.isDir = mt.isDir :=
  ⟨_, rfl, rfl, rfl, rfl⟩

theorem constrFileLst_of_new {opened : Except String FileMetadata} {mt : FileMetadata}
    {localFile : LocalFile} (hnew : pathComponents path.toList ∉ st.visited)
    (hopen : LocalFile.tryOpen relativeRoot path opened = .ok localFile) :
    constrFileLst relativeRoot path (.mk opened (.ok mt) entries) st =
      if mt.isDir then constrEntries relativeRoot path entries
          ⟨st.fileList ++ [localFile], st.visited ++ [pathComponents path.toList]⟩
        else .ok ⟨st.fileList ++ [localFile], st.visited ++ [pathComponents path.toList]⟩ := by
  rw [constrFileLst, if_neg hnew, hopen]

/-- One entry is walked before those after it. -/
theorem constrEntries_cases {name : String} {later : DirAnswers}
    (h : constrEntries relativeRoot path (.entry name answers later) st = .ok st') :
    ∃ between, constrFileLst relativeRoot (pathJoin path name) answers st = .ok between ∧
      constrEntries relativeRoot path later between = .ok st' := by
  rw [constrEntries] at h
  split at h
  next => cases h
  next between hbetween => exact ⟨between, hbetween, h⟩

/-- One selected path is walked before those after it. -/
theorem constrSelection_cases (h : constrSelection relativeRoot ((path, answers) :: later) st = .ok st') :
    ∃ between, constrFileLst relativeRoot path answers st = .ok between ∧
      constrSelection relativeRoot later between = .ok st' := by
  rw [constrSelection] at h
  split at h
  next => cases h
  next between hbetween => exact ⟨between, hbetween, h⟩

theorem constructFileList_of_ok (hroot : pathParent path = some relativeRoot)
    (h : constrSelection relativeRoot ((path, answers) :: later) {} = .ok st') :
    constructFileList ((path, answers) :: later) = .ok st'.fileList := by
  simp only [constructFileList, List.head?_cons, hroot, h, Except.map]

/-- A list is that of a walk from the parent of the first path. -/
theorem constructFileList_cases {paths : List (String × PathAnswers)} {files : List LocalFile}
    (h : constructFileList paths = .ok files) :
    ∃ relativeRoot st', (paths.head?.bind fun first => pathParent first.1) = some relativeRoot ∧
      constrSelection relativeRoot paths {} = .ok st' ∧ files = st'.fileList := by
  unfold constructFileList at h
  split at h
  next => cases h
  next first answers hfirst =>
    split at h
    next => cases h
    next relativeRoot hparent =>
      cases hwalk : constrSelection relativeRoot paths {} with
      | error e =>
        rw [hwalk] at h
        cases h
      | ok st' =>
        rw [hwalk] at h
        cases h
        refine ⟨relativeRoot, st', ?_, hwalk, rfl⟩
        rw [hfirst]
        exact hparent

end Walk

end UnyDesk
