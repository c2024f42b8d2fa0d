import UnyDesk.Clipboard.Inside
import UnyDesk.Clipboard.PasteRun

/-!
# A paste task stays inside its target

The names of a paste come from the peer and are joined to the target directory as they are. Where no name leads out of
the directory, a task only touches entries inside, whatever the file system holds and whatever the peer answers.
-/

namespace UnyDesk

open Lib FileSystem List Option

variable {K : Type*}

/-- No path inside the directory leads to the entry. -/
def Outside (key : String → K) (targetDir : String) (k : K) : Prop := ∀ path, Inside targetDir path → key path ≠ k

namespace PasteDisk

/-- The directory is there, and so are those that lead to it. -/
def HasTarget (key : String → K) (targetDir : String) (disk : PasteDisk K) : Prop :=
  ∀ path, locate path <+: locate targetDir → disk.dirs (key path) = true

/-- Entries outside are as they were, and directories are never removed. -/
structure Within (key : String → K) (targetDir : String) (disk disk' : PasteDisk K) : Prop where
  names : ∀ k, Outside key targetDir k → disk'.files.names k = disk.files.names k
  contents : ∀ k, Outside key targetDir k → disk'.files.contents k = disk.files.contents k
  dirs : ∀ k, Outside key targetDir k → disk'.dirs k = disk.dirs k
  kept : ∀ k, disk.dirs k = true → disk'.dirs k = true

section Within

variable [DecidableEq K] {key : String → K} {targetDir path : String} {disk disk' disk'' : PasteDisk K}

omit [DecidableEq K] in
theorem Within.refl (key : String → K) (targetDir : String) (disk : PasteDisk K) : Within key targetDir disk disk :=
  ⟨fun _ _ => rfl, fun _ _ => rfl, fun _ _ => rfl, fun _ => id⟩

omit [DecidableEq K] in
theorem Within.trans (h : Within key targetDir disk disk') (h' : Within key targetDir disk' disk'') :
    Within key targetDir disk disk'' :=
  ⟨fun k hk => (h'.names k hk).trans (h.names k hk), fun k hk => (h'.contents k hk).trans (h.contents k hk),
    fun k hk => (h'.dirs k hk).trans (h.dirs k hk), fun k hk => h'.kept k (h.kept k hk)⟩

omit [DecidableEq K] in
theorem Within.fail (h : Within key targetDir disk disk') : Within key targetDir disk disk'.fail :=
  ⟨h.names, h.contents, h.dirs, h.kept⟩

omit [DecidableEq K] in
theorem HasTarget.within (h : HasTarget key targetDir disk) (hwithin : Within key targetDir disk disk') :
    HasTarget key targetDir disk' := fun path hpath => hwithin.kept _ (h path hpath)

omit [DecidableEq K] in
theorem Outside.ne {k : K} (hk : Outside key targetDir k) (hpath : Inside targetDir path) : k ≠ key path :=
  Ne.symm (hk path hpath)

section

variable (hpath : Inside targetDir path)
include hpath

theorem within_create : Within key targetDir disk { disk with files := (disk.files.create (key path)).1 } :=
  ⟨fun _ hk => create_names_of_ne disk.files (Outside.ne hk hpath),
    fun _ hk => contents_create_of_ne disk.files (Outside.ne hk hpath), fun _ _ => rfl, fun _ => id⟩

theorem within_remove : Within key targetDir disk { disk with files := disk.files.remove (key path) } :=
  ⟨fun _ hk => remove_names_of_ne disk.files (Outside.ne hk hpath),
    fun _ hk => contents_remove_of_ne disk.files (Outside.ne hk hpath), fun _ _ => rfl, fun _ => id⟩

theorem within_rename {target : String} (htarget : Inside targetDir target) :
    Within key targetDir disk { disk with files := disk.files.rename (key path) (key target) } :=
  ⟨fun _ hk => rename_names_of_ne (Outside.ne hk hpath) (Outside.ne hk htarget),
    fun _ hk => contents_rename_of_ne (Outside.ne hk hpath) (Outside.ne hk htarget), fun _ _ => rfl,
    fun _ => id⟩

end

omit [DecidableEq K] in
/-- A write is seen inside only, if the file has no name outside. -/
theorem within_write {inode pos : ℕ} {bytes : Bytes}
    (hinode : ∀ k, Outside key targetDir k → disk.files.names k ≠ some inode) :
    Within key targetDir disk { disk with files := disk.files.write inode pos bytes } :=
  ⟨fun _ _ => rfl, fun k hk => contents_write_of_ne (hinode k hk) pos bytes, fun _ _ => rfl, fun _ => id⟩

/-- Making a directory inside makes no other one outside, as those that lead to the target are there. -/
theorem within_createDirAll (hpath : Inside targetDir path) (htarget : HasTarget key targetDir disk) :
    Within key targetDir disk (disk.createDirAll key path) := by
  refine ⟨fun _ _ => rfl, fun _ _ => rfl, fun k hk => ?_, fun k hk => by simp [createDirAll, hk]⟩
  have hmade : ((path :: ancestors path.toList.length path).any fun parent => key parent = k) = true →
      disk.dirs k = true := by
    intro hany
    obtain ⟨parent, hmem, hparent⟩ := any_eq_true.mp hany
    rw [decide_eq_true_eq] at hparent
    have hprefix : locate parent <+: locate path := by
      rcases mem_cons.mp hmem with rfl | hmem
      · exact prefix_refl _
      · exact locate_ancestors hmem
    obtain ⟨rest, hrest, hstays⟩ := hpath
    rw [hrest] at hprefix
    rcases Nat.le_total (locate parent).length (locate targetDir).length with hle | hle
    · rw [← hparent]
      exact htarget parent (prefix_of_prefix_length_le hprefix (prefix_append _ _) hle)
    · -- a directory between the target and the path lies inside
      obtain ⟨init, hinit⟩ := prefix_of_prefix_length_le (prefix_append (locate targetDir) rest) hprefix hle
      rw [← hinit] at hprefix
      obtain ⟨more, hmore⟩ := (prefix_append_right_inj _).mp hprefix
      rw [← hmore] at hstays
      exact absurd hparent (hk parent ⟨init, hinit.symm, hstays.of_append⟩)
  change (disk.dirs k || _) = disk.dirs k
  cases hdir : disk.dirs k with
  | true => rfl
  | false =>
    rw [Bool.false_or, Bool.eq_false_iff]
    intro hany
    rw [hmade hany] at hdir
    exact nomatch hdir

end Within

end PasteDisk

namespace PasteTaskHandle

/-- What is known of a task that pastes safe entries: the file that it receives lies inside, and has no name outside. -/
structure Contained (key : String → K) (targetDir : String) (disk : PasteDisk K) (h : PasteTaskHandle) : Prop where
  target : h.targetDir = targetDir
  present : disk.HasTarget key targetDir
  safe : ∀ desc ∈ h.files, SafeEntry targetDir desc
  path : h.progress.downloadFilePath ≠ "" → Inside targetDir h.progress.downloadFilePath
  handle : ∀ inode, h.progress.fileHandle = some inode → ∀ k, Outside key targetDir k → disk.files.names k ≠ some inode
  kind : h.progress.fileHandle ≠ none → ∀ desc, h.files[asUsize h.progress.downloadFileIndex]? = some desc →
    desc.kind = .file ∧ h.progress.downloadFilePath ≠ ""

/-- An operation that keeps to the inside. -/
def Keeps (key : String → K) (targetDir : String) (disk : PasteDisk K) (result : PasteDisk K × PasteTaskHandle) : Prop :=
  disk.Within key targetDir result.1 ∧ Contained key targetDir result.1 result.2

section Contained

variable [DecidableEq K] {key : String → K} {targetDir : String} {env : PasteEnv} {disk disk' : PasteDisk K}
  {h h' : PasteTaskHandle} {result : PasteDisk K × PasteTaskHandle} {desc : FileDescription}

omit [DecidableEq K] in
theorem Contained.within (hc : Contained key targetDir disk h) (hwithin : disk.Within key targetDir disk') :
    Contained key targetDir disk' h :=
  { hc with
    present := hc.present.within hwithin
    handle := fun inode hinode k hk => by
      rw [hwithin.names k hk]
      exact hc.handle inode hinode k hk }

omit [DecidableEq K] in
theorem Contained.keeps (hc : Contained key targetDir disk h) (hwithin : disk.Within key targetDir disk') :
    Keeps key targetDir disk (disk', h) := ⟨hwithin, hc.within hwithin⟩

omit [DecidableEq K] in
theorem Keeps.trans (hwithin : disk.Within key targetDir disk') (hkeeps : Keeps key targetDir disk' result) :
    Keeps key targetDir disk result := ⟨hwithin.trans hkeeps.1, hkeeps.2⟩

omit [DecidableEq K] in
/-- Only the fields that say what is received and where count. -/
theorem Contained.congr (hc : Contained key targetDir disk h) (htarget : h'.targetDir = h.targetDir)
    (hfiles : h'.files = h.files) (hpath : h'.progress.downloadFilePath = h.progress.downloadFilePath)
    (hindex : h'.progress.downloadFileIndex = h.progress.downloadFileIndex)
    (hhandle : h'.progress.fileHandle = h.progress.fileHandle) : Contained key targetDir disk h' := by
  refine ⟨htarget.trans hc.target, hc.present, ?_, ?_, ?_, ?_⟩
  · rw [hfiles]
    exact hc.safe
  · rw [hpath]
    exact hc.path
  · rw [hhandle]
    exact hc.handle
  · rw [hhandle, hfiles, hindex, hpath]
    exact hc.kind

section

variable (hc : Contained key targetDir disk h)
include hc

omit [DecidableEq K] in
theorem Contained.close : Contained key targetDir disk { h with progress := { h.progress with fileHandle := none } } :=
  ⟨hc.target, hc.present, hc.safe, hc.path, nofun, fun hnone => absurd rfl hnone⟩

theorem Contained.onCancelled : Keeps key targetDir disk (h.onCancelled key disk) := by
  unfold PasteTaskHandle.onCancelled
  split
  · exact ⟨PasteDisk.Within.refl key targetDir disk, hc.close⟩
  next hpath => exact hc.close.keeps (PasteDisk.within_remove (hc.path hpath))

theorem Contained.onError (error : CliprdrError) : Keeps key targetDir disk (h.onError key disk error) := by
  have hfailed : Contained key targetDir disk { h with progress := { h.progress with error := some error } } :=
    hc.congr rfl rfl rfl rfl rfl
  exact hfailed.onCancelled

end

omit [DecidableEq K] in
/-- Where a file of the list may end. -/
theorem inside_destination (hsafe : SafeEntry targetDir desc) (hkind : desc.kind = .file)
    {path : String} (hpath : disk.getNewFilename key targetDir desc = some path) : Inside targetDir path := by
  obtain ⟨hinside, hown⟩ := hsafe (by rw [hkind]; exact nofun)
  obtain ⟨-, rfl | ⟨i, hname⟩⟩ := PasteDisk.getNewFilename_spec hpath
  · exact hinside
  · rw [hkind] at hname
    exact (hinside.numberedName (hown hkind) hname).inside

theorem Contained.onDone (hc : Contained key targetDir disk h) : Keeps key targetDir disk (h.onDone key env disk) := by
  have hrefl := PasteDisk.Within.refl key targetDir disk
  have hflushed : disk.Within key targetDir (if env.flushed then disk else disk.fail) := by
    split
    · exact hrefl
    · exact hrefl.fail
  unfold PasteTaskHandle.onDone
  split
  · exact ⟨hrefl, hc⟩
  next inode hinode =>
    split
    · exact ⟨hrefl, hc⟩
    · dsimp only
      split
      · exact hc.close.keeps hflushed
      next desc hdesc =>
        obtain ⟨hkind, hpath⟩ := hc.kind (by rw [hinode]; exact nofun) desc hdesc
        split
        · exact hc.close.keeps hflushed.fail
        next path hnew =>
          rw [hc.target] at hnew
          have hinside := inside_destination (hc.safe desc (mem_of_getElem? hdesc)) hkind hnew
          have hended : Contained key targetDir disk { h with
              progress := { h.progress with
                fileHandle := none, downloadFilePath := "", downloadFileIndex := invalidFileIndex } } :=
            ⟨hc.target, hc.present, hc.safe, fun hempty => absurd rfl hempty, nofun, fun hnone => absurd rfl hnone⟩
          refine hended.keeps ?_
          by_cases hrenamed : env.renamed = true
          · rw [if_pos hrenamed]
            exact hflushed.trans (PasteDisk.within_rename (hc.path hpath) hinside)
          · rw [if_neg hrenamed]
            exact hflushed.fail

omit [DecidableEq K] in
theorem downloadName (path : String) : s!"{path}.{downloadExtension}" = path ++ ("." ++ downloadExtension) := by
  simp [toString, String.append_assoc]

omit [DecidableEq K] in
/-- The name under which a file is received lies below the target, whatever the entry is called. -/
theorem below_download (hsafe : SafeEntry targetDir desc) (hkind : desc.kind = .file) {path : String}
    (hpath : disk.getFirstFilename key s!"{pathJoin targetDir desc.name}.{downloadExtension}" desc.kind = some path) :
    Below targetDir path := by
  obtain ⟨hinside, hown⟩ := hsafe (by rw [hkind]; exact nofun)
  have hreceived : Below targetDir s!"{pathJoin targetDir desc.name}.{downloadExtension}" := by
    rw [downloadName]
    exact hinside.append (by decide) (by decide) fun heq => (hown hkind heq).1
  obtain ⟨-, rfl | ⟨i, hname⟩⟩ := PasteDisk.getFirstFilename_spec hpath
  · exact hreceived
  · rw [hkind] at hname
    exact hreceived.inside.numberedName (fun heq => absurd heq hreceived.ne) hname

theorem Contained.openNewWriter (hc : Contained key targetDir disk h)
    (hfile : ∀ desc, h.currentFile = some desc → desc.kind = .file) :
    Keeps key targetDir disk (h.openNewWriter key env disk).2 := by
  have hrefl := PasteDisk.Within.refl key targetDir disk
  unfold PasteTaskHandle.openNewWriter
  split
  · exact hc.keeps hrefl
  next desc hdesc =>
    have hkind := hfile desc hdesc
    dsimp only
    split
    · exact hc.keeps hrefl.fail
    next path hpath =>
      rw [hc.target] at hpath
      have hbelow := below_download (hc.safe desc (mem_of_getElem? hdesc)) hkind hpath
      split
      · exact hc.keeps hrefl.fail
      next parent hparent =>
        split
        · exact hc.keeps hrefl.fail
        next =>
          have hmade : disk.Within key targetDir
              (if disk.pathExists key parent then disk else disk.createDirAll key parent) := by
            split
            · exact hrefl
            · exact PasteDisk.within_createDirAll (hbelow.parent hparent) hc.present
          revert hmade
          generalize (if disk.pathExists key parent then disk else disk.createDirAll key parent) = made
          intro hmade
          split
          · exact ⟨hmade.fail, (hc.within hmade.fail).congr rfl rfl rfl rfl rfl⟩
          next =>
            have hcreated := hmade.trans (PasteDisk.within_create hbelow.inside)
            refine ⟨hcreated, hc.target, hc.present.within hcreated, hc.safe, fun _ => hbelow.inside, ?_, ?_⟩
            · rintro inode hinode k hk hname
              rw [← some.inj hinode] at hname
              exact hk path hbelow.inside ((made.files.create (key path)).1.names_inj _ _ _
                (FileSystem.create_names_self made.files (key path)) hname)
            · intro _ other hother
              obtain rfl := some.inj (hdesc.symm.trans hother)
              refine ⟨hkind, ?_⟩
              rintro rfl
              obtain ⟨rest, name, hlocate, -, -⟩ := hbelow
              simp [locate, segments, rootMarker, skippedSegment] at hlocate

section Created

variable (hc : Contained key targetDir disk h) (env : PasteEnv) {i : ℕ} {desc : FileDescription}
  (hdesc : h.files[i]? = some desc)
include hc hdesc

theorem Contained.createEmptyFile (hkind : desc.kind = .file) :
    disk.Within key targetDir (h.createEmptyFile key env disk i desc) := by
  have hrefl := PasteDisk.Within.refl key targetDir disk
  unfold PasteTaskHandle.createEmptyFile
  split
  · exact hrefl.fail
  next path hpath =>
    rw [hc.target] at hpath
    split
    · exact PasteDisk.within_create (inside_destination (hc.safe desc (mem_of_getElem? hdesc)) hkind hpath)
    · exact hrefl.fail

theorem Contained.createDirectory (hkind : desc.kind = .directory) :
    disk.Within key targetDir (h.createDirectory key env disk i desc) := by
  have hrefl := PasteDisk.Within.refl key targetDir disk
  obtain ⟨hinside, -⟩ := hc.safe desc (mem_of_getElem? hdesc) (by rw [hkind]; exact nofun)
  rw [← hc.target] at hinside
  simp only [PasteTaskHandle.createDirectory]
  split
  · exact hrefl
  · split
    · rw [hc.target] at hinside ⊢
      exact PasteDisk.within_createDirAll hinside hc.present
    · exact hrefl.fail

end Created

/-- The loop to the next file with contents. -/
theorem Contained.advance (hc : Contained key targetDir disk h) (env : PasteEnv) (indices : List ℕ) :
    Keeps key targetDir disk (PasteTaskHandle.advance key env indices disk h).2 := by
  induction indices generalizing disk with
  | nil => exact hc.keeps (PasteDisk.Within.refl key targetDir disk)
  | cons i rest ih =>
    rw [PasteTaskHandle.advance]
    cases hdesc : h.files[i]? with
    | none => exact hc.keeps (PasteDisk.Within.refl key targetDir disk)
    | some desc =>
      dsimp only
      cases hkind : desc.kind with
      | file =>
        dsimp only
        split
        · have hwithin := hc.createEmptyFile env hdesc hkind
          exact Keeps.trans hwithin (ih (hc.within hwithin))
        · have hnext : Contained key targetDir disk { h with
              progress := { h.progress with listIndex := i, offset := 0 } } := hc.congr rfl rfl rfl rfl rfl
          refine hnext.openNewWriter fun other hother => ?_
          rw [currentFile, asUsize_natCast] at hother
          rw [← some.inj (hdesc.symm.trans hother)]
          exact hkind
      | directory =>
        have hwithin := hc.createDirectory env hdesc hkind
        exact Keeps.trans hwithin (ih (hc.within hwithin))
      | symlink => exact ih hc

omit [DecidableEq K] in
theorem Contained.closeList (hc : Contained key targetDir disk h) : Contained key targetDir disk h.closeList := by
  unfold PasteTaskHandle.closeList
  split
  · exact hc.congr rfl rfl rfl rfl rfl
  · exact hc

theorem Contained.nextFile (hc : Contained key targetDir disk h) :
    Keeps key targetDir disk (h.nextFile key env disk).2 := by
  have hopened : Keeps key targetDir disk (if h.progress.listIndex = -1 then (disk, h) else h.onDone key env disk) := by
    split
    · exact hc.keeps (PasteDisk.Within.refl key targetDir disk)
    · exact hc.onDone
  obtain ⟨hwithin, hcontained⟩ := hopened
  have hadvanced := Keeps.trans hwithin (hcontained.advance env
    (if h.progress.listIndex = -1 then (disk, h) else h.onDone key env disk).2.laterIndices)
  simp only [PasteTaskHandle.nextFile]
  generalize PasteTaskHandle.advance key env _ _ _ = advanced at hadvanced ⊢
  obtain ⟨e | ⟨⟩, disk', h'⟩ := advanced
  · exact hadvanced
  · exact ⟨hadvanced.1, hadvanced.2.closeList⟩

section Handled

variable (hc : Contained key targetDir disk h) (env : PasteEnv)
include hc

theorem Contained.updateNext (size : ℕ) : Keeps key targetDir disk (h.updateNext key env disk size).2 := by
  have hrefl := PasteDisk.Within.refl key targetDir disk
  have hcount : Contained key targetDir disk (h.count size) := hc.congr rfl rfl rfl rfl rfl
  unfold PasteTaskHandle.updateNext
  split
  · exact hc.keeps hrefl
  · split
    · exact hcount.nextFile
    · have hmoved : Contained key targetDir disk ((h.count size).moveOn size) := hcount.congr rfl rfl rfl rfl rfl
      exact hmoved.closeList.keeps hrefl

theorem Contained.onFinished : Keeps key targetDir disk (h.onFinished key env disk) := by
  have hended : Keeps key targetDir disk
      (if h.progress.error.isSome then h.onCancelled key disk else h.onDone key env disk) := by
    split
    · exact hc.onCancelled
    · exact hc.onDone
  simp only [PasteTaskHandle.onFinished]
  generalize (if h.progress.error.isSome then h.onCancelled key disk else h.onDone key env disk) = ended at hended ⊢
  split
  · exact ⟨hended.1, hended.2.congr rfl rfl rfl rfl rfl⟩
  · exact hended

/-- A block goes to the file that was opened inside. -/
theorem Contained.handleFileContentsResponse (r : FileContentsResponse) :
    Keeps key targetDir disk (h.handleFileContentsResponse key env disk r).2 := by
  unfold PasteTaskHandle.handleFileContentsResponse
  split
  · exact hc.keeps (PasteDisk.Within.refl key targetDir disk)
  next inode hinode =>
    have hwritten : ∀ data, disk.Within key targetDir
        { disk with files := disk.files.write inode (disk.files.data inode).length data } :=
      fun data => PasteDisk.within_write (hc.handle inode hinode)
    dsimp only
    split
    next n err _ => exact hc.keeps (hwritten _).fail
    next => exact Keeps.trans (hwritten _) ((hc.within (hwritten _)).updateNext env _)

end Handled

end Contained

end PasteTaskHandle

namespace PasteTask

/-- The pasted list stays inside its target, and the target is there. -/
def SafePaste (key : String → K) (disk : PasteDisk K) (targetDir : String) (files : List FileDescription) : Prop :=
  disk.HasTarget key targetDir ∧ ∀ desc ∈ files, SafeEntry targetDir desc

/-- A task that is running, or has ended, is contained in the directory that it pastes to. -/
def Contained (key : String → K) (s : PasteTask K) : Prop :=
  ∀ h, s.handle = some h → h.Contained key h.targetDir s.disk

/-- The directory that a step may touch. -/
def touchedDir (s : PasteTask K) : PasteEvent → Option String
  | .start targetDir _ => some targetDir
  | _ => s.handle.map (·.targetDir)

/-- Every list that is pasted is safe; a list that comes while a task is running is not pasted. -/
def PastesSafely (key : String → K) (s : PasteTask K) (e : PasteEnv × PasteEvent) : Prop :=
  match e.2 with
  | .start targetDir files => (s.handle.any fun h => !h.isFinished) = false → SafePaste key s.disk targetDir files
  | _ => True

variable [DecidableEq K]

/-- The step leaves what lies outside its directory. -/
def StaysInside (key : String → K) (s : PasteTask K) (e : PasteEnv × PasteEvent) : Prop :=
  match s.touchedDir e.2 with
  | some targetDir => s.disk.Within key targetDir (s.stepIn key e).disk
  | none => (s.stepIn key e).disk = s.disk

/-- What a step on a directory does to a task. -/
def KeepsTask (key : String → K) (targetDir : String) (disk : PasteDisk K) (s : PasteTask K) : Prop :=
  disk.Within key targetDir s.disk ∧ ∃ h, s.handle = some h ∧ h.Contained key targetDir s.disk

variable {key : String → K} {targetDir : String} {disk : PasteDisk K} {s : PasteTask K} {h : PasteTaskHandle}

omit [DecidableEq K] in
theorem KeepsTask.contained (hkeeps : KeepsTask key targetDir disk s) : s.Contained key := by
  obtain ⟨-, h, hhandle, hcontained⟩ := hkeeps
  intro other hother
  obtain rfl := some.inj (hhandle.symm.trans hother)
  rw [hcontained.target]
  exact hcontained

theorem keepsTask_request (hwithin : disk.Within key targetDir s.disk) (hc : h.Contained key targetDir s.disk) :
    KeepsTask key targetDir disk (s.request key h) := by
  unfold request
  split
  · exact ⟨hwithin, h, rfl, hc⟩
  · exact ⟨hwithin, h, rfl, hc⟩
  next e _ =>
    obtain ⟨hended, hcontained⟩ := hc.onError e
    exact ⟨hwithin.trans hended, _, rfl, hcontained⟩

theorem keepsTask_goOn {disk' : PasteDisk K} (env : PasteEnv) (s : PasteTask K)
    (hkeeps : PasteTaskHandle.Keeps key targetDir disk (disk', h)) : KeepsTask key targetDir disk (s.goOn key env disk' h) := by
  obtain ⟨hwithin, hc⟩ := hkeeps
  unfold goOn
  split
  · obtain ⟨hended, hcontained⟩ := hc.onFinished env
    exact ⟨hwithin.trans hended, _, rfl, hcontained⟩
  · exact keepsTask_request hwithin hc

theorem keepsTask_start {files : List FileDescription} (env : PasteEnv) (s : PasteTask K)
    (hfree : (s.handle.any fun h => !h.isFinished) = false) (hsafe : SafePaste key s.disk targetDir files) :
    KeepsTask key targetDir s.disk (s.start key env targetDir files) := by
  rw [start, if_neg (by rw [hfree]; exact Bool.false_ne_true)]
  dsimp only
  generalize hinitial : ({ progress := _, targetDir, files } : PasteTaskHandle) = initial
  have hc : initial.Contained key targetDir s.disk := by
    subst hinitial
    exact ⟨rfl, hsafe.1, hsafe.2, fun hempty => absurd rfl hempty,
      fun inode hhandle => absurd hhandle.symm (some_ne_none inode), fun hnone => absurd rfl hnone⟩
  have hupdated := hc.updateNext env 0
  generalize (initial.updateNext key env s.disk 0).2 = updated at hupdated ⊢
  split
  · obtain ⟨hended, hcontained⟩ := hupdated.2.onFinished env
    exact ⟨hupdated.1.trans hended, _, rfl, hcontained⟩
  · exact keepsTask_request hupdated.1 hupdated.2

theorem keepsTask_takeBlock (env : PasteEnv) (s : PasteTask K) (hc : h.Contained key targetDir s.disk)
    (r : FileContentsResponse) : KeepsTask key targetDir s.disk (s.takeBlock key env h r) := by
  have hhandled := hc.handleFileContentsResponse env r
  unfold takeBlock
  rcases hresult : h.handleFileContentsResponse key env s.disk r with ⟨e | ⟨⟩, disk, h'⟩
  · rw [hresult] at hhandled
    exact keepsTask_goOn env s (PasteTaskHandle.Keeps.trans hhandled.1 (hhandled.2.onError e))
  · rw [hresult] at hhandled
    exact keepsTask_goOn env s hhandled

omit [DecidableEq K] in
theorem keepsTask_refl (hhandle : s.handle = some h) (hc : h.Contained key targetDir s.disk) :
    KeepsTask key targetDir s.disk s := ⟨PasteDisk.Within.refl key targetDir s.disk, h, hhandle, hc⟩

theorem keepsTask_takeResponse (env : PasteEnv) (hhandle : s.handle = some h) (hc : h.Contained key targetDir s.disk)
    (r : FileContentsResponse) : KeepsTask key targetDir s.disk (s.takeResponse key env r) := by
  have hsame := keepsTask_refl hhandle hc
  have hrefl := PasteDisk.Within.refl key targetDir s.disk
  rw [takeResponse, hhandle]
  dsimp only
  split
  · exact hsame
  · split
    · exact hsame
    · split
      · split
        · exact keepsTask_goOn env _ ⟨hrefl, hc.congr rfl rfl rfl rfl rfl⟩
        · exact keepsTask_goOn env _ ⟨hrefl, hc⟩
      · split
        · exact hsame
        · split
          · exact hsame
          · exact keepsTask_takeBlock env s hc r

/-- A step of a task that pastes to a directory. -/
theorem keepsTask_step (env : PasteEnv) {e : PasteEvent} (hsafe : PastesSafely key s (env, e)) (hs : s.Contained key) :
    match s.touchedDir e with
    | some targetDir => s.disk.Within key targetDir (s.step key env e).disk ∧ (s.step key env e).Contained key
    | none => s.step key env e = s := by
  cases e with
  | start targetDir files =>
    by_cases hfree : (s.handle.any fun h => !h.isFinished) = false
    · have hkeeps := keepsTask_start env s hfree (hsafe hfree)
      exact ⟨hkeeps.1, hkeeps.contained⟩
    · have hsame : s.step key env (.start targetDir files) = s := if_pos (by simpa using hfree)
      dsimp only [touchedDir]
      rw [hsame]
      exact ⟨PasteDisk.Within.refl key targetDir s.disk, hs⟩
  | response r =>
    cases hhandle : s.handle with
    | none => simp [touchedDir, step, takeResponse, hhandle]
    | some h =>
      have hkeeps := keepsTask_takeResponse env hhandle (hs h hhandle) r
      simp only [touchedDir, hhandle, map_some]
      exact ⟨hkeeps.1, hkeeps.contained⟩
  | timeout expired =>
    cases hhandle : s.handle with
    | none => simp [touchedDir, step, hhandle]
    | some h =>
      have hc := hs h hhandle
      simp only [touchedDir, step, hhandle, map_some]
      split
      · have hfailed : PasteTaskHandle.Contained key h.targetDir s.disk { h with progress := { h.progress with
            error := some (.invalidRequest "Failed to read file contents") } } := hc.congr rfl rfl rfl rfl rfl
        obtain ⟨hended, hcontained⟩ := hfailed.onFinished env
        have hkeeps : KeepsTask key h.targetDir s.disk { s with
            disk := _, handle := some _, retryCount := 0 } := ⟨hended, _, rfl, hcontained⟩
        exact ⟨hended, hkeeps.contained⟩
      · exact ⟨PasteDisk.Within.refl key h.targetDir s.disk, hs⟩
  | cancel =>
    cases hhandle : s.handle with
    | none => simp [touchedDir, step, hhandle]
    | some h =>
      have hc := hs h hhandle
      simp only [touchedDir, step, hhandle, map_some]
      have hcancelled : PasteTaskHandle.Contained key h.targetDir s.disk { h with progress := { h.progress with
          isCanceled := true } } := hc.congr rfl rfl rfl rfl rfl
      obtain ⟨hended, hcontained⟩ := hcancelled.onCancelled
      have hkeeps : KeepsTask key h.targetDir s.disk { s with disk := _, handle := some _ } :=
        ⟨hended, _, rfl, hcontained⟩
      exact ⟨hended, hkeeps.contained⟩

end PasteTask

/-- In every run whose pasted lists are safe, each step leaves the file system outside its target directory as it was. -/
theorem paste_stays_inside [DecidableEq K] (key : String → K) (s : PasteTask K) (hidle : s.handle = none)
    (events : List (PasteEnv × PasteEvent))
    (hsafe : RunMeets (PasteTask.stepIn key) (PasteTask.PastesSafely key) s events) :
    RunMeets (PasteTask.stepIn key) (PasteTask.StaysInside key) s events := by
  refine runMeets_of_invariant (I := PasteTask.Contained key) ?_ ?_ ?_ hsafe
  · intro s e hs he
    have hstep := PasteTask.keepsTask_step e.1 he hs
    change (s.step key e.1 e.2).Contained key
    split at hstep
    · exact hstep.2
    · rw [hstep]
      exact hs
  · intro s e hs he
    have hstep := PasteTask.keepsTask_step e.1 he hs
    unfold PasteTask.StaysInside PasteTask.stepIn
    split at hstep
    · exact hstep.1
    · rw [hstep]
  · intro h hhandle
    rw [hidle] at hhandle
    exact nomatch hhandle

/-- Nothing but the target directory. -/
def emptyTarget : PasteTask Location :=
  { disk := { files := .empty, dirs := fun k => decide (k <+: locate "/t") } }

theorem paste_stays_inside_folder : RunMeets (PasteTask.stepIn locate) (PasteTask.StaysInside locate) emptyTarget
        (({}, .start "/t" (pastedFolder 0)) :: pastedAnswer) ∧
      (runEvents (PasteTask.stepIn locate) emptyTarget
        (({}, .start "/t" (pastedFolder 0)) :: pastedAnswer)).disk.files.contents (locate "/t/d/x") = some [1, 2, 3] := by
  refine ⟨paste_stays_inside locate emptyTarget rfl _ ⟨fun _ => ⟨fun path hpath => decide_eq_true hpath, ?_⟩, trivial,
    trivial⟩, by decide⟩
  intro desc hdesc _
  rw [pastedFolder, List.mem_pair] at hdesc
  rcases hdesc with rfl | rfl
  · exact ⟨⟨[['d']], by decide, by decide⟩, fun _ heq => absurd heq (by decide)⟩
  · exact ⟨⟨[['d'], ['x']], by decide, by decide⟩, fun _ heq => absurd heq (by decide)⟩

/-- A list with one empty file, whose name leads to the directory above. -/
def climbingPdu : Bytes :=
  LittleEndian.put 4 1 ++ LittleEndian.put 4 flagsFdAttributes ++ List.replicate 68 0 ++
    Utf16.encode "../x".toList ++ List.replicate 512 0

/-- The name is taken as it is, and the file is created above the target. -/
theorem climbing_paste_leaves_target :
    ∃ desc, FileDescription.parseFileDescriptors standardUtf16 climbingPdu 1 = .ok [desc] ∧
      ¬ PasteTask.StaysInside locate emptyTarget ({}, .start "/t" [desc]) := by
  refine ⟨⟨1, "../x", .file, 0, 0, 0, 0, 0, permRw⟩, by decide +kernel, fun hstays => ?_⟩
  have houtside : Outside locate "/t" (locate "/t/../x") := by
    rintro path ⟨rest, hrest, hinside⟩ heq
    rw [hrest, show locate "/t/../x" = locate "/t" ++ [['.', '.'], ['x']] by decide] at heq
    rw [List.append_cancel_left heq] at hinside
    exact absurd hinside (by decide)
  have hsame := hstays.names _ houtside
  exact absurd hsame (by decide)

end UnyDesk
