import UnyDesk.Transfer.Job

/-!
# What a change of entry does to the files

The disk after `modify_time` and after the opening of an entry's file, location by location. The
proofs about whole transfers use these facts and not the code of `write`.
-/

namespace UnyDesk

open Lib FileSystem TransferJob Option

namespace TransferJob

variable {check : Option String}

/-- Where the blocks of an entry are written. -/
def blockPath (job : TransferJob) (fileNum : Int) : Option String :=
  match job.dataSource, job.files[asUsize fileNum]? with
  | .filePath base, some entry =>
    match job.type with
    | .printer => some base
    | .generic => some (downloadPath (joinPath base entry.name))
  | _, _ => none

/-- Where an entry is found when it is complete. -/
def destPath (job : TransferJob) (fileNum : Int) : Option String :=
  match job.dataSource, job.files[asUsize fileNum]? with
  | .filePath base, some entry =>
    match job.type with
    | .printer => some base
    | .generic => some (joinPath base entry.name)
  | _, _ => none

variable {job : TransferJob} {base : String} {entry : FileEntry}

theorem resolveEntryPath_eq {name path : String} (htype : job.type = .generic)
    (h : job.resolveEntryPath base name check = some path) : path = joinPath base name := by
  unfold resolveEntryPath at h
  rw [htype] at h
  cases hjoin : joinValidatedPath base name (failWith check) with
  | error e => simp [hjoin, Except.toOption] at h
  | ok joined =>
    have hpath : joined = path := by simpa [hjoin, Except.toOption] using h
    rw [← hpath]
    exact joinValidatedPath_eq_ok hjoin

/-- The path of an accepted name, where the system reports no symbolic link. -/
theorem resolveEntryPath_of_valid (job : TransferJob) (base : String) {name : String} (htype : job.type = .generic)
    (hvalid : validateFileNameNoTraversal name = .ok ()) :
    job.resolveEntryPath base name none = some (joinPath base name) := by
  simp [resolveEntryPath, htype, joinValidatedPath, hvalid, failWith, bind, Except.bind, pure, Except.pure,
    Except.toOption]

/-- The paths that `write` opens are those of the entry. -/
theorem writePaths_eq_ok {path : String} {digest : Option String}
    (h : job.writePaths base entry check = .ok (path, digest)) :
    (job.type = .printer ∧ path = base ∧ digest = none) ∨
      (job.type = .generic ∧ path = downloadPath (joinPath base entry.name) ∧
        digest = some (digestPath (joinPath base entry.name))) := by
  unfold writePaths at h
  cases htype : job.type with
  | printer =>
    rw [htype] at h
    obtain ⟨rfl, rfl⟩ : base = path ∧ none = digest := by simpa using h
    exact .inl ⟨rfl, rfl, rfl⟩
  | generic =>
    rw [htype] at h
    cases hjoin : joinValidatedPath base entry.name (failWith check) with
    | error e => simp [hjoin, bind, Except.bind] at h
    | ok joined =>
      have hjoined := joinValidatedPath_eq_ok hjoin
      obtain ⟨rfl, rfl⟩ : downloadPath joined = path ∧ some (digestPath joined) = digest := by
        simpa [hjoin, bind, Except.bind, pure, Except.pure] using h
      exact .inr ⟨rfl, by rw [hjoined], by rw [hjoined]⟩

/-- The paths of an entry are refused for its name or for a symbolic link. -/
theorem writePaths_eq_error {e : String} (h : job.writePaths base entry check = .error e) :
    job.type = .generic ∧ ((!(validateFileNameNoTraversal entry.name).isOk) = true ∨ check.isSome = true) := by
  unfold writePaths joinValidatedPath at h
  cases htype : job.type with
  | printer => simp [htype] at h
  | generic =>
    refine ⟨rfl, ?_⟩
    cases hname : validateFileNameNoTraversal entry.name with
    | error e' => exact .inl rfl
    | ok u =>
      cases check with
      | none => simp [htype, hname, failWith, bind, Except.bind, pure, Except.pure] at h
      | some e' => exact .inr rfl

/-- `modify_time` on a disk: nothing, or the removal of the digest and the renaming for the
current entry. -/
theorem modifyTime_cases (job : TransferJob) (disk : Disk) (faults : Faults) : job.modifyTime disk faults = disk ∨
      ∃ base entry, job.type = .generic ∧ job.dataSource = .filePath base ∧ job.currentEntry = some entry ∧
        (job.modifyTime disk faults =
            (if faults.unlinked then disk.remove (locate (digestPath (joinPath base entry.name)))
              else disk) ∨
          job.modifyTime disk faults =
            (if faults.unlinked then disk.remove (locate (digestPath (joinPath base entry.name)))
              else disk).rename
              (locate (downloadPath (joinPath base entry.name))) (locate (joinPath base entry.name))) := by
  unfold modifyTime
  split
  next base entry htype hsource hentry =>
    split
    · exact .inl rfl
    next path hpath =>
      obtain rfl := resolveEntryPath_eq htype hpath
      refine .inr ⟨base, entry, htype, hsource, hentry, ?_⟩
      by_cases hrenamed : faults.renamed
      · rw [if_pos hrenamed]
        exact .inr rfl
      · rw [if_neg hrenamed]
        exact .inl rfl
  next => exact .inl rfl

end TransferJob

namespace JobState

variable {file : OpenFile}

/-- Opening the file of an entry: an error, or an empty file at its path and a digest beside it. -/
theorem createStream_cases (s : JobState) (faults : Faults) (path : String) (digest : Option String)
    (hdigest : ∀ d, digest = some d → locate path ≠ locate d) :
    (∃ e disk, s.createStream faults path digest = (some e, { s with disk }) ∧ (faults.create.isSome ∨
          faults.digestRemoval.isSome ∧ ∃ d, digest = some d ∧ s.disk.existsAt (locate d) = true)) ∨
      ∃ inode disk, s.createStream faults path digest =
          (none, { job := { s.job with dataStream := some (.fileStream { path, inode }) }, disk }) ∧
        disk.names (locate path) = some inode ∧ disk.data inode = [] ∧
        ∀ l, l ≠ locate path → (∀ d, digest = some d → l ≠ locate d) →
          disk.names l = s.disk.names l ∧ disk.contents l = s.disk.contents l := by
  unfold createStream
  extract_lets stale disk opened disk' stream
  split
  next e he =>
    by_cases hstale : stale = true
    · rw [if_pos hstale] at he
      cases hd : digest with
      | none => simp [stale, hd] at hstale
      | some d => exact .inl ⟨e, s.disk, rfl, .inr ⟨by simp [he], d, rfl, by simpa [stale, hd] using hstale⟩⟩
    · simp [hstale] at he
  split
  next e he => exact .inl ⟨e, disk, rfl, .inl (by simp [he])⟩
  -- The removal of a stale digest and the new digest touch the digest only.
  have hstart : ∀ l, (∀ d, digest = some d → l ≠ locate d) →
      disk.names l = s.disk.names l ∧ disk.contents l = s.disk.contents l := by
    intro l hl
    cases hd : digest with
    | none => simp [disk, hd]
    | some d =>
      by_cases hs : stale = true
      · simp [disk, hs, hd, remove_names_of_ne s.disk (hl d hd), contents_remove_of_ne s.disk (hl d hd)]
      · simp [disk, hs]
  have hend : ∀ l, (∀ d, digest = some d → l ≠ locate d) →
      disk'.names l = opened.1.names l ∧ disk'.contents l = opened.1.contents l := by
    intro l hl
    cases hd : digest with
    | none => simp [disk', hd]
    | some d =>
      by_cases hw : faults.digestWritten = true
      · simp [disk', hw, hd, put_names_of_ne opened.1 (hl d hd), contents_put_of_ne opened.1 (hl d hd)]
      · simp [disk', hw]
  have hnames : disk'.names (locate path) = some opened.2 := by
    rw [(hend _ hdigest).1]
    exact create_names_self disk (locate path)
  refine .inr ⟨opened.2, disk', rfl, hnames, ?_, ?_⟩
  · have hcontents : disk'.contents (locate path) = some [] := by
      rw [(hend _ hdigest).2]
      exact contents_create_self disk (locate path)
    rw [contents_of_names hnames] at hcontents
    exact some.inj hcontents
  · intro l hl hld
    rw [(hend l hld).1, (hend l hld).2, ← (hstart l hld).1, ← (hstart l hld).2]
    exact ⟨create_names_of_ne disk hl, contents_create_of_ne disk hl⟩

/-- A step between the change of the number and the opened stream fails. -/
def openingFails (s : JobState) (faults : Faults) (base : String) (entry : FileEntry) : Bool :=
  faults.create.isSome ||
    decide (s.job.type = .generic) && (!(validateFileNameNoTraversal entry.name).isOk || faults.symlinkCheck.isSome ||
        faults.digestRemoval.isSome &&
          (s.job.modifyTime s.disk faults).existsAt (locate (digestPath (joinPath base entry.name))))

/-- The ways a change of entry ends. -/
theorem switchFile_cases (s : JobState) (faults : Faults) (base : String) (fileNum : Int)
    (entry : FileEntry) :
    (∃ e file, s.job.dataStream = some (.fileStream file) ∧ faults.sync = some e ∧
        s.switchFile faults base fileNum entry = (some e, s.modifyTime faults)) ∨
      (∃ e disk, s.switchFile faults base fileNum entry = (some e, { job := { s.job with fileNum }, disk }) ∧
        s.openingFails faults base entry = true) ∨
      ∃ path digest inode disk, s.job.writePaths base entry faults.symlinkCheck = .ok (path, digest) ∧
        s.switchFile faults base fileNum entry =
          (none,
            { job := { s.job with fileNum, dataStream := some (.fileStream { path, inode }) }
              disk }) ∧
        disk.names (locate path) = some inode ∧ disk.data inode = [] ∧
        ∀ l, l ≠ locate path → (∀ d, digest = some d → l ≠ locate d) →
          disk.names l = (s.job.modifyTime s.disk faults).names l ∧
            disk.contents l = (s.job.modifyTime s.disk faults).contents l := by
  unfold switchFile
  extract_lets s'
  split
  next file e hstream hsync => exact .inl ⟨e, file, hstream, hsync, rfl⟩
  next =>
    refine .inr ?_
    have hpaths : s'.job.writePaths base entry faults.symlinkCheck =
        s.job.writePaths base entry faults.symlinkCheck := rfl
    split
    next e he =>
      refine .inl ⟨e, s'.disk, rfl, ?_⟩
      rw [hpaths] at he
      obtain ⟨htype, hcheck⟩ := writePaths_eq_error he
      simp only [openingFails, htype, decide_true, Bool.true_and, Bool.or_eq_true]
      exact .inr (.inl hcheck)
    next path digest hok =>
      rw [hpaths] at hok
      have hdigest : ∀ d, digest = some d → locate path ≠ locate d := by
        rcases writePaths_eq_ok hok with ⟨-, -, rfl⟩ | ⟨-, rfl, rfl⟩
        · simp
        · rintro d ⟨⟩
          exact locate_downloadPath_ne_digestPath _ _
      rcases createStream_cases (s'.atFile fileNum) faults path digest hdigest with
        ⟨e, disk, heq, hfails⟩ | ⟨inode, disk, heq, hnames, hdata, hrest⟩
      · refine .inl ⟨e, disk, heq, ?_⟩
        rcases hfails with hcreate | ⟨hremoval, d, rfl, hexists⟩
        · simp [openingFails, hcreate]
        · rcases writePaths_eq_ok hok with ⟨-, -, hnone⟩ | ⟨htype, -, hd⟩
          · simp at hnone
          · obtain rfl := some.inj hd
            have hexists : (s.job.modifyTime s.disk faults).existsAt
                (locate (digestPath (joinPath base entry.name))) = true := hexists
            simp [openingFails, htype, hremoval, hexists]
      · exact .inr ⟨path, digest, inode, disk, hok, heq, hnames, hdata, hrest⟩

/-- The end of `write` moves the position in the open file and changes no name. -/
theorem writeData_cases (codec : Codec) (s : JobState) (faults : Faults) (block : FileTransferBlock)
    (hstream : s.job.dataStream = some (.fileStream file)) :
    ∃ pos finishedSize transferred disk, (s.writeData codec faults block).2 =
        { job :=
            { s.job with
              dataStream := some (.fileStream { file with pos })
              finishedSize
              transferred }
          disk } ∧
      disk.names = s.disk.names := by
  obtain ⟨path, inode, pos, writable⟩ := file
  unfold writeData
  rw [hstream]
  cases writable with
  | false =>
    cases faults.writeAll with
    | none => exact ⟨pos, s.job.finishedSize, s.job.transferred, s.disk, rfl, rfl⟩
    | some fault => exact ⟨pos, s.job.finishedSize, s.job.transferred, s.disk, rfl, rfl⟩
  | true =>
    cases faults.writeAll with
    | none => exact ⟨_, _, _, _, rfl, rfl⟩
    | some fault => exact ⟨_, s.job.finishedSize, s.job.transferred, _, rfl, rfl⟩

/-- Writing the bytes of a block to an open file. -/
theorem writeData_of_open (codec : Codec) {s : JobState} {faults : Faults} (block : FileTransferBlock)
    (hstream : s.job.dataStream = some (.fileStream file))
    (hwritable : file.writable = true) (hwrite : faults.writeAll = none) :
    s.writeData codec faults block =
      (none,
        { job :=
            { s.job with
              dataStream :=
                some (.fileStream { file with pos := file.pos + (blockBytes codec block).length })
              finishedSize := s.job.finishedSize + (blockBytes codec block).length
              transferred := s.job.transferred + block.data.length }
          disk := s.disk.write file.inode file.pos (blockBytes codec block) }) := by
  simp [writeData, hstream, hwrite, DataStream.writeAll, hwritable]

section

variable (s : JobState)

/-- The kind and the source of a job, which no call changes. -/
def kind : JobType × DataSource := (s.job.type, s.job.dataSource)

/-- What `write` leaves as it is. -/
def steady : Int × JobType × DataSource × Bool × Bool :=
  (s.job.id, s.job.type, s.job.dataSource, s.job.isResume, s.job.fileSkipped)

theorem steady_createStream (faults : Faults) (path : String) (digest : Option String) :
    (s.createStream faults path digest).2.steady = s.steady := by
  unfold createStream
  extract_lets stale disk opened disk' stream
  split
  · rfl
  · split <;> rfl

theorem steady_switchFile (faults : Faults) (base : String) (fileNum : Int)
    (entry : FileEntry) : (s.switchFile faults base fileNum entry).2.steady = s.steady := by
  unfold switchFile
  extract_lets s'
  split
  · rfl
  · split
    · rfl
    · exact steady_createStream (s'.atFile fileNum) faults _ _

theorem steady_chooseStream (faults : Faults) (block : FileTransferBlock) :
    (s.chooseStream faults block).2.steady = s.steady := by
  unfold chooseStream
  split
  · split
    · rfl
    · split
      · exact steady_switchFile s faults _ _ _
      · rfl
  · split <;> rfl

end

section SteadyWrites

variable (codec : Codec) (s : JobState) (faults : Faults) (block : FileTransferBlock)

theorem steady_writeData : (s.writeData codec faults block).2.steady = s.steady := by
  unfold writeData
  extract_lets bytes
  split
  · rfl
  · split
    · rfl
    · split <;> rfl

theorem steady_write : (s.write codec faults block).2.steady = s.steady := by
  unfold write
  split
  · rfl
  · have hchosen := steady_chooseStream s faults block
    split
    next e s' heq =>
      rw [heq] at hchosen
      exact hchosen
    next s' heq =>
      rw [heq] at hchosen
      exact (steady_writeData codec s' faults block).trans hchosen

end SteadyWrites

section Write

variable (codec : Codec) {s : JobState} {faults : Faults} {block : FileTransferBlock} {base : String}
  {entry : FileEntry}

/-- A block of the current entry is written to the open file. -/
theorem write_of_same (hid : block.id = s.job.id)
    (hsource : s.job.dataSource = .filePath base)
    (hentry : s.job.files[asUsize block.fileNum]? = some entry)
    (hsame : asUsize block.fileNum = asUsize s.job.fileNum)
    (hstream : s.job.dataStream = some (.fileStream file)) (hwritable : file.writable = true)
    (hwrite : faults.writeAll = none) :
    s.write codec faults block =
      (none,
        { job :=
            { s.job with
              dataStream :=
                some (.fileStream { file with pos := file.pos + (blockBytes codec block).length })
              finishedSize := s.job.finishedSize + (blockBytes codec block).length
              transferred := s.job.transferred + block.data.length }
          disk := s.disk.write file.inode file.pos (blockBytes codec block) }) := by
  have hchosen : s.chooseStream faults block = (none, s) := by
    simp only [chooseStream, hsource, hentry]
    rw [if_neg]
    simp [hsame, hstream]
  rw [write, if_neg (not_not.mpr hid), hchosen]
  exact writeData_of_open codec block hstream hwritable hwrite

/-- The first block of another entry, when no step fails: the old file is put in its place and the
bytes start a new one. -/
theorem write_of_switch (htype : s.job.type = .generic) (hid : block.id = s.job.id)
    (hsource : s.job.dataSource = .filePath base)
    (hentry : s.job.files[asUsize block.fileNum]? = some entry)
    (hswitch : asUsize block.fileNum ≠ asUsize s.job.fileNum ∨ s.job.dataStream = none)
    (hsync : faults.sync = none) (hopens : s.openingFails faults base entry = false)
    (hwrite : faults.writeAll = none) :
    let path := joinPath base entry.name
    ∃ (inode : ℕ) (disk : Disk), s.write codec faults block =
        (none,
          { job :=
              { s.job with
                fileNum := block.fileNum
                dataStream :=
                  some (.fileStream { path := downloadPath path, inode, pos := (blockBytes codec block).length })
                finishedSize := s.job.finishedSize + (blockBytes codec block).length
                transferred := s.job.transferred + block.data.length }
            disk := disk.write inode 0 (blockBytes codec block) }) ∧
      disk.names (locate (downloadPath path)) = some inode ∧ disk.data inode = [] ∧
      ∀ l, l ≠ locate (downloadPath path) → l ≠ locate (digestPath path) →
        disk.names l = (s.job.modifyTime s.disk faults).names l ∧
          disk.contents l = (s.job.modifyTime s.disk faults).contents l := by
  intro path
  have hchosen : s.chooseStream faults block = s.switchFile faults base block.fileNum entry := by
    simp only [chooseStream, hsource, hentry, if_pos hswitch]
  rw [write, if_neg (not_not.mpr hid), hchosen]
  rcases switchFile_cases s faults base block.fileNum entry with
    ⟨e, file, -, hfails, -⟩ | ⟨e, disk, -, hfails⟩ | ⟨p, digest, inode, disk, hpaths, heq, hnames, hdata, hrest⟩
  · simp [hsync] at hfails
  · simp [hopens] at hfails
  · rcases writePaths_eq_ok hpaths with ⟨hprinter, -⟩ | ⟨-, rfl, rfl⟩
    · simp [htype] at hprinter
    refine ⟨inode, disk, ?_, hnames, hdata, ?_⟩
    · rw [heq]
      simp only
      rw [writeData_of_open codec block rfl rfl hwrite]
      simp [path]
    · intro l hl hld
      exact hrest l hl fun d hd => by
        obtain rfl := some.inj hd
        exact hld

end Write

end JobState

end UnyDesk
