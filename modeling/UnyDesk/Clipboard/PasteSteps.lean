import UnyDesk.Clipboard.PasteTask

/-!
# What the operations of a paste task do

Every file that a task makes gets a name that is free, so the files that are there stay what they are. The
loop to the next file either comes to the end of the list or opens a new file, for which nothing is received
yet. A failed operation is never forgotten.
-/

namespace UnyDesk

open Lib FileSystem PasteDisk PasteTaskHandle Option

variable {K : Type*} {key : String → K}

namespace PasteDisk

variable {path found : String} {type : FileType}

/-- The files that are there stay as they are. -/
def Keeps (disk disk' : PasteDisk K) : Prop :=
  ∀ k bytes, disk.files.contents k = some bytes → disk'.files.contents k = some bytes

/-- A place where a file of the list may end: its own path, or a numbered variant. -/
def IsDestination (targetDir : String) (desc : FileDescription) (path : String) : Prop :=
  path = pathJoin targetDir desc.name ∨ ∃ i, numberedName (pathJoin targetDir desc.name) desc.kind i = some path

variable {disk disk' disk'' : PasteDisk K}

theorem Keeps.refl (disk : PasteDisk K) : disk.Keeps disk := fun _ _ h => h

theorem Keeps.trans (h : disk.Keeps disk') (h' : disk'.Keeps disk'') : disk.Keeps disk'' :=
  fun k bytes hk => h' k bytes (h k bytes hk)

theorem names_of_pathExists (h : disk.pathExists key path = false) : disk.files.names (key path) = none := by
  rw [pathExists, Bool.or_eq_false_iff] at h
  exact not_isSome_iff_eq_none.mp (by simpa [existsAt] using h.1)

/-- A file that is there does not have a free name. -/
theorem ne_of_free {k : K} {bytes : Bytes} (h : disk.files.names (key path) = none)
    (hk : disk.files.contents k = some bytes) : k ≠ key path := by
  intro heq
  simp [contents, heq, h] at hk

theorem keeps_create [DecidableEq K] (h : disk.files.names (key path) = none) :
    disk.Keeps { disk with files := (disk.files.create (key path)).1 } :=
  fun _ _ hk => (contents_create_of_ne disk.files (ne_of_free h hk)).trans hk

theorem firstFree_spec {fuel i : ℕ} (h : disk.firstFree key path type fuel i = some found) :
    disk.pathExists key found = false ∧ ∃ n, numberedName path type n = some found := by
  induction fuel generalizing i with
  | zero => simp [firstFree] at h
  | succ fuel ih =>
    rw [firstFree] at h
    cases hname : numberedName path type i with
    | none => simp [hname] at h
    | some newPath =>
      simp only [hname] at h
      cases hexists : disk.pathExists key newPath with
      | true =>
        rw [hexists, if_pos rfl] at h
        exact ih h
      | false =>
        rw [hexists, if_neg Bool.false_ne_true] at h
        obtain rfl := some.inj h
        exact ⟨hexists, i, hname⟩

theorem getFirstFilename_spec (h : disk.getFirstFilename key path type = some found) :
    disk.pathExists key found = false ∧ (found = path ∨ ∃ n, numberedName path type n = some found) := by
  unfold getFirstFilename at h
  split at h
  next =>
    obtain ⟨hfree, hname⟩ := firstFree_spec h
    exact ⟨hfree, .inr hname⟩
  next hfree =>
    obtain rfl := some.inj h
    exact ⟨by simpa using hfree, .inl rfl⟩

theorem getNewFilename_spec {targetDir found : String} {desc : FileDescription}
    (h : disk.getNewFilename key targetDir desc = some found) :
    disk.pathExists key found = false ∧ IsDestination targetDir desc found := by
  simp only [getNewFilename] at h
  split at h
  next => exact getFirstFilename_spec h
  next hfree =>
    obtain rfl := some.inj h
    exact ⟨by simpa using hfree, .inl rfl⟩

end PasteDisk

namespace PasteTaskHandle

variable [DecidableEq K] {env : PasteEnv} {disk : PasteDisk K} {h : PasteTaskHandle}

section Failed

variable (hfailed : disk.failed = true)
include hfailed

theorem failed_onCancelled : (h.onCancelled key disk).1.failed = true := by
  unfold onCancelled
  split <;> exact hfailed

theorem failed_onDone : (h.onDone key env disk).1.failed = true := by
  have hflushed : (if env.flushed then disk else disk.fail).failed = true := by
    split
    next => exact hfailed
    next => rfl
  unfold onDone
  split
  next => exact hfailed
  next =>
    split
    next => exact hfailed
    next =>
      dsimp only
      split
      next => exact hflushed
      next =>
        split
        next => rfl
        next =>
          dsimp only
          split
          next => exact hflushed
          next => rfl

theorem failed_openNewWriter : (h.openNewWriter key env disk).2.1.failed = true := by
  unfold openNewWriter
  split
  next => exact hfailed
  next =>
    dsimp only
    split
    next => rfl
    next =>
      split
      next => rfl
      next parent _ =>
        have hmade : (if disk.pathExists key parent then disk else disk.createDirAll key parent).failed = true := by
          split <;> exact hfailed
        split
        next => rfl
        next =>
          split
          next => rfl
          next => exact hmade

theorem failed_createEmptyFile (i : ℕ) (desc : FileDescription) :
    (h.createEmptyFile key env disk i desc).failed = true := by
  unfold createEmptyFile
  split
  next => rfl
  next =>
    split
    next => exact hfailed
    next => rfl

theorem failed_createDirectory (i : ℕ) (desc : FileDescription) :
    (h.createDirectory key env disk i desc).failed = true := by
  simp only [createDirectory]
  split
  next => exact hfailed
  next =>
    split
    next => exact hfailed
    next => rfl

theorem failed_advance (indices : List ℕ) : (advance key env indices disk h).2.1.failed = true := by
  induction indices generalizing disk with
  | nil => exact hfailed
  | cons i indices ih =>
    rw [advance]
    split
    next => exact hfailed
    next desc _ =>
      split
      next =>
        split
        next => exact ih (failed_createEmptyFile hfailed i desc)
        next => exact failed_openNewWriter hfailed
      next => exact ih (failed_createDirectory hfailed i desc)
      next => exact ih hfailed

theorem failed_onFinished : (h.onFinished key env disk).1.failed = true := by
  have hended : (if h.progress.error.isSome then h.onCancelled key disk else h.onDone key env disk).1.failed = true := by
    split
    next => exact failed_onCancelled hfailed
    next => exact failed_onDone hfailed
  unfold onFinished
  generalize (if h.progress.error.isSome then h.onCancelled key disk else h.onDone key env disk) = ended at hended ⊢
  dsimp only
  split <;> exact hended

theorem failed_nextFile : (h.nextFile key env disk).2.1.failed = true := by
  have hopened : (if h.progress.listIndex = -1 then (disk, h) else onDone key env disk h).1.failed = true := by
    split
    next => exact hfailed
    next => exact failed_onDone hfailed
  unfold nextFile
  generalize (if h.progress.listIndex = -1 then (disk, h) else onDone key env disk h) = opened at hopened ⊢
  have hadvanced := @failed_advance K key _ env opened.1 opened.2 hopened opened.2.laterIndices
  dsimp only
  rcases hresult : advance key env opened.2.laterIndices opened.1 opened.2 with ⟨e | _, disk', h'⟩
  · rw [hresult] at hadvanced
    exact hadvanced
  · rw [hresult] at hadvanced
    exact hadvanced

theorem failed_updateNext (size : ℕ) : (h.updateNext key env disk size).2.1.failed = true := by
  unfold updateNext
  split
  next => exact hfailed
  next =>
    split
    next => exact failed_nextFile hfailed
    next => exact hfailed

theorem failed_handleFileContentsResponse (r : FileContentsResponse) :
    (h.handleFileContentsResponse key env disk r).2.1.failed = true := by
  unfold handleFileContentsResponse
  split
  next => exact hfailed
  next =>
    dsimp only
    split
    next => rfl
    next inode _ _ _ =>
      have hwritten : ({ disk with
          files := disk.files.write inode (disk.files.data inode).length r.requestedData } : PasteDisk K).failed = true :=
        hfailed
      exact failed_updateNext hwritten r.requestedData.length

end Failed

section Advance

/-- The entry of a list is a file with contents. -/
def HasContents (files : List FileDescription) (j : ℕ) : Prop :=
  ∃ desc, files[j]? = some desc ∧ desc.kind = .file ∧ 0 < desc.size

/-- The task at the beginning of a file. -/
def opening (h : PasteTaskHandle) (i : ℕ) (file : FileDescription) (path : String) (inode : ℕ) : PasteTaskHandle :=
  { h with
    progress := { h.progress with
      listIndex := i
      offset := 0
      downloadFileIndex := i
      downloadFileSize := file.size
      downloadFilePath := path
      downloadFileCurrentSize := 0
      fileHandle := some inode } }

/-- The loop comes to the end of the entries, or opens the next file with contents under a free name. -/
def Advances (key : String → K) (disk : PasteDisk K) (h : PasteTaskHandle) (first last : ℕ)
    (result : Except CliprdrError Unit × PasteDisk K × PasteTaskHandle) : Prop :=
  result.1 = .ok () ∧ disk.Keeps result.2.1 ∧ (result.2.2 = h ∧ (∀ j, first ≤ j → j < last → ¬ HasContents h.files j) ∨
      ∃ i file path inode, first ≤ i ∧ i < last ∧ h.files[i]? = some file ∧ file.kind = .file ∧ 0 < file.size ∧
        (∀ j, first ≤ j → j < i → ¬ HasContents h.files j) ∧
        (∀ k bytes, disk.files.contents k = some bytes → k ≠ key path) ∧
        result.2.1.files.names (key path) = some inode ∧ result.2.1.files.data inode = [] ∧
        result.2.2 = h.opening i file path inode)

theorem openNewWriter_spec {i : ℕ} {file : FileDescription} (hfile : h.files[i]? = some file) :
    let result := openNewWriter key env disk { h with progress := { h.progress with listIndex := i, offset := 0 } }
    result.2.1.failed = true ∨ ∃ path, result.1 = .ok () ∧ disk.files.names (key path) = none ∧
      result.2.1.files = (disk.files.create (key path)).1 ∧
      result.2.2 = h.opening i file path (disk.files.create (key path)).2 := by
  intro result
  have hcurrent : currentFile { h with progress := { h.progress with listIndex := i, offset := 0 } } = some file := by
    rw [currentFile, asUsize_natCast]
    exact hfile
  have hresult : result = openNewWriter key env disk { h with progress := { h.progress with listIndex := i, offset := 0 } } :=
    rfl
  unfold openNewWriter at hresult
  rw [hcurrent] at hresult
  dsimp only at hresult
  split at hresult
  next => exact .inl (by rw [hresult]; rfl)
  next path hpath =>
    split at hresult
    next => exact .inl (by rw [hresult]; rfl)
    next parent _ =>
      split at hresult
      next => exact .inl (by rw [hresult]; rfl)
      next =>
        have hmade : (if disk.pathExists key parent then disk else disk.createDirAll key parent).files = disk.files := by
          split <;> rfl
        split at hresult
        next => exact .inl (by rw [hresult]; rfl)
        next =>
          have hfree := names_of_pathExists (getFirstFilename_spec hpath).1
          rw [hmade] at hresult
          exact .inr ⟨path, by rw [hresult], hfree, by rw [hresult], by rw [hresult]; rfl⟩

theorem keeps_createEmptyFile (h : PasteTaskHandle) (i : ℕ) (desc : FileDescription) :
    disk.Keeps (h.createEmptyFile key env disk i desc) := by
  unfold createEmptyFile
  split
  next => exact PasteDisk.Keeps.refl disk
  next path hpath =>
    split
    next => exact keeps_create (names_of_pathExists (getNewFilename_spec hpath).1)
    next => exact PasteDisk.Keeps.refl disk

theorem keeps_createDirectory (h : PasteTaskHandle) (i : ℕ) (desc : FileDescription) :
    disk.Keeps (h.createDirectory key env disk i desc) := by
  have hfiles : (h.createDirectory key env disk i desc).files = disk.files := by
    simp only [createDirectory]
    split
    next => rfl
    next => split <;> rfl
  intro k bytes hk
  rw [hfiles]
  exact hk

omit [DecidableEq K] in
/-- An entry without contents is passed over. -/
theorem Advances.skip {disk' : PasteDisk K} {first last : ℕ}
    {result : Except CliprdrError Unit × PasteDisk K × PasteTaskHandle} (hkeeps : disk.Keeps disk')
    (hfirst : ¬ HasContents h.files first) (hresult : Advances key disk' h (first + 1) last result) :
    Advances key disk h first last result := by
  have hskip : ∀ {i}, (∀ j, first + 1 ≤ j → j < i → ¬ HasContents h.files j) →
      ∀ j, first ≤ j → j < i → ¬ HasContents h.files j := by
    intro i hlater j hle hlt
    rcases Nat.eq_or_lt_of_le hle with rfl | hlt'
    · exact hfirst
    · exact hlater j hlt' hlt
  obtain ⟨hok, hkept, ⟨hsame, hnone⟩ | ⟨i, file, path, inode, hle, hlt, hfile, hkind, hsize, hbefore, hfresh, hopened⟩⟩ :=
    hresult
  · exact ⟨hok, hkeeps.trans hkept, .inl ⟨hsame, hskip hnone⟩⟩
  · refine ⟨hok, hkeeps.trans hkept, .inr ⟨i, file, path, inode, Nat.le_of_succ_le hle, hlt, hfile, hkind, hsize,
      hskip hbefore, fun k bytes hk => hfresh k bytes (hkeeps k bytes hk), hopened⟩⟩

theorem advance_spec {first count : ℕ} (hlast : first + count ≤ h.files.length) :
    let result := advance key env (List.range' first count) disk h
    result.2.1.failed = true ∨ Advances key disk h first (first + count) result := by
  induction count generalizing first disk with
  | zero =>
    refine .inr ⟨rfl, PasteDisk.Keeps.refl disk, .inl ⟨rfl, fun j hle hlt => ?_⟩⟩
    omega
  | succ count ih =>
    intro result
    obtain ⟨desc, hdesc⟩ : ∃ desc, h.files[first]? = some desc :=
      ⟨_, List.getElem?_eq_getElem (show first < h.files.length by omega)⟩
    have hrest : ∀ disk' : PasteDisk K, result = advance key env (List.range' (first + 1) count) disk' h →
        disk.Keeps disk' → ¬ HasContents h.files first →
        result.2.1.failed = true ∨ Advances key disk h first (first + (count + 1)) result := by
      intro disk' hresult hkeeps hfirst
      rw [hresult]
      rcases @ih disk' (first + 1) (by omega) with hfailed | hadvances
      · exact .inl hfailed
      · rw [Nat.add_assoc, Nat.add_comm 1 count] at hadvances
        exact .inr (hadvances.skip hkeeps hfirst)
    have hempty : (desc.kind = .file → desc.size = 0) → ¬ HasContents h.files first := by
      rintro hnone ⟨other, hother, hkind, hsize⟩
      obtain rfl := some.inj (hdesc.symm.trans hother)
      have hzero := hnone hkind
      omega
    have hresult : result = advance key env (first :: List.range' (first + 1) count) disk h := rfl
    rw [advance] at hresult
    simp only [hdesc] at hresult
    cases hkind : desc.kind with
    | file =>
      rw [hkind] at hresult
      by_cases hsize : desc.size = 0
      · rw [if_pos hsize] at hresult
        exact hrest _ hresult (keeps_createEmptyFile h first desc) (hempty fun _ => hsize)
      · rw [if_neg hsize] at hresult
        rw [hresult]
        rcases @openNewWriter_spec K key _ env disk h first desc hdesc with hfailed | ⟨path, hok, hfree, hfiles, hopened⟩
        · exact .inl hfailed
        · have hself := create_names_self disk.files (key path)
          refine .inr ⟨hok, fun k bytes hk => ?_, .inr ⟨first, desc, path, _, Nat.le_refl first, by omega, hdesc, hkind,
            Nat.pos_of_ne_zero hsize, fun j hle hlt => by omega, fun k bytes hk => ne_of_free hfree hk, ?_, ?_,
            hopened⟩⟩
          · rw [hfiles]
            exact keeps_create hfree k bytes hk
          · rw [hfiles]
            exact hself
          · rw [hfiles]
            exact create_data_self disk.files (key path)
    | directory =>
      rw [hkind] at hresult
      exact hrest _ hresult (keeps_createDirectory h first desc) (hempty fun hcontra => by simp [hkind] at hcontra)
    | symlink =>
      rw [hkind] at hresult
      exact hrest _ hresult (PasteDisk.Keeps.refl disk) (hempty fun hcontra => by simp [hkind] at hcontra)

end Advance

/-- A complete file gets a free name at its destination. -/
theorem onDone_spec {i inode : ℕ} {file : FileDescription} (hhandle : h.progress.fileHandle = some inode)
    (hindex : h.progress.downloadFileIndex = i) (hfile : h.files[i]? = some file) :
    let result := h.onDone key env disk
    result.1.failed = true ∨ ∃ path, PasteDisk.IsDestination h.targetDir file path ∧ disk.files.names (key path) = none ∧
      result.1.files = disk.files.rename (key h.progress.downloadFilePath) (key path) ∧
      result.2 = { h with
        progress := { h.progress with fileHandle := none, downloadFilePath := "", downloadFileIndex := invalidFileIndex } } := by
  intro result
  have hvalid : (i : Int) ≠ invalidFileIndex := by
    unfold invalidFileIndex
    omega
  have hresult : result = h.onDone key env disk := rfl
  rw [onDone, hhandle] at hresult
  simp only [hindex, if_neg hvalid, asUsize_natCast, hfile] at hresult
  cases hflushed : env.flushed with
  | false =>
    refine .inl ?_
    simp only [hflushed, Bool.false_eq_true, if_false] at hresult
    split at hresult
    next => rw [hresult]; rfl
    next =>
      rw [hresult]
      split <;> rfl
  | true =>
    simp only [hflushed, if_true] at hresult
    split at hresult
    next => exact .inl (by rw [hresult]; rfl)
    next path hpath =>
      obtain ⟨hfree, hdestination⟩ := getNewFilename_spec hpath
      cases hrenamed : env.renamed with
      | false => exact .inl (by rw [hresult, hrenamed]; rfl)
      | true =>
        rw [hrenamed, if_pos rfl] at hresult
        exact .inr ⟨path, hdestination, names_of_pathExists hfree, by rw [hresult], by rw [hresult]⟩

end PasteTaskHandle

namespace PasteTask

variable [DecidableEq K] {s : PasteTask K}

theorem failed_request (hfailed : s.disk.failed = true) (h : PasteTaskHandle) : (s.request key h).disk.failed = true := by
  unfold request
  split
  next => exact hfailed
  next => exact hfailed
  next => exact failed_onCancelled hfailed

theorem failed_start (hfailed : s.disk.failed = true) (env : PasteEnv) (targetDir : String) (files : List FileDescription) :
    (s.start key env targetDir files).disk.failed = true := by
  unfold start
  split
  next => exact hfailed
  next =>
    dsimp only
    split
    next => exact failed_onFinished (failed_updateNext hfailed 0)
    next => exact failed_request (failed_updateNext hfailed 0) _

theorem failed_goOn {disk : PasteDisk K} (hfailed : disk.failed = true) (env : PasteEnv) (h : PasteTaskHandle) :
    (s.goOn key env disk h).disk.failed = true := by
  unfold goOn
  split
  next => exact failed_onFinished hfailed
  next =>
    have hfailed' : ({ s with disk } : PasteTask K).disk.failed = true := hfailed
    exact failed_request hfailed' h

/-- An operation that fails while an answer is handled. -/
theorem failed_takeBlock {r : FileContentsResponse} {h : PasteTaskHandle} (env : PasteEnv)
    (hfailed : (h.handleFileContentsResponse key env s.disk r).2.1.failed = true) :
    (s.takeBlock key env h r).disk.failed = true := by
  unfold takeBlock
  rcases hresult : h.handleFileContentsResponse key env s.disk r with ⟨e | ⟨⟩, disk, h'⟩
  · rw [hresult] at hfailed
    exact failed_goOn (failed_onCancelled hfailed) env _
  · rw [hresult] at hfailed
    exact failed_goOn hfailed env h'

theorem failed_takeResponse (hfailed : s.disk.failed = true) (env : PasteEnv) (r : FileContentsResponse) :
    (s.takeResponse key env r).disk.failed = true := by
  unfold takeResponse
  split
  next => exact hfailed
  next h _ =>
    split
    next => exact hfailed
    next =>
      split
      next => exact hfailed
      next =>
        split
        next =>
          dsimp only
          split <;> exact failed_goOn hfailed env _
        next =>
          split
          next => exact hfailed
          next =>
            split
            next => exact hfailed
            next => exact failed_takeBlock env (failed_handleFileContentsResponse hfailed r)

/-- A failed operation is never forgotten. -/
theorem failed_step (hfailed : s.disk.failed = true) (env : PasteEnv) (e : PasteEvent) :
    (s.step key env e).disk.failed = true := by
  cases e with
  | start targetDir files => exact failed_start hfailed env targetDir files
  | response r => exact failed_takeResponse hfailed env r
  | timeout expired =>
    simp only [step]
    split
    next => exact hfailed
    next =>
      split
      next => exact failed_onFinished hfailed
      next => exact hfailed
  | cancel =>
    simp only [step]
    split
    next => exact hfailed
    next => exact failed_onCancelled hfailed

end PasteTask

end UnyDesk
