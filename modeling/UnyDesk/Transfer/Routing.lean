import UnyDesk.Lib.Machine
import UnyDesk.Transfer.Switch

/-!
# The file that the bytes of a block reach

`write` sets the number of the current entry before it opens the entry's file, and keeps the old
stream until the new one is open. A failure in between leaves the number of one entry beside the
stream of another, and the blocks that follow go to the wrong file. Without such a failure every
block reaches the file of its own entry, in whatever order the blocks come and whichever other
steps fail.
-/

namespace UnyDesk

open Lib FileSystem TransferJob Option

/-- A call of `write`, with what the operating system does with its steps. -/
structure WriteCall where
  block : FileTransferBlock
  faults : Faults := {}

namespace JobState

variable {file : OpenFile}

/-- The state that a call leaves. -/
def afterWrite (codec : Codec) (s : JobState) (c : WriteCall) : JobState :=
  (s.write codec c.faults c.block).2

/-- The file that the bytes of the block go to, and the state in which they are written. -/
def blockFile (s : JobState) (c : WriteCall) : Option (JobState × OpenFile) :=
  if c.block.id ≠ s.job.id then none
  else
    match s.chooseStream c.faults c.block with
    | (some _, _) => none
    | (none, s') =>
      match s'.job.dataStream with
      | some (.fileStream file) => some (s', file)
      | _ => none

/-- The open file is found at the temporary path of the entry, or it has already taken the place
of the destination. -/
def Holds (s : JobState) (fileNum : Int) (file : OpenFile) : Prop :=
  s.job.blockPath fileNum = some file.path ∧ (s.disk.names (locate file.path) = some file.inode ∨
      s.disk.names (locate file.path) = none ∧
        ∃ path, s.job.destPath fileNum = some path ∧ s.disk.names (locate path) = some file.inode)

/-- The bytes of the block are written to the file of the block's entry and to no other. -/
def Routed (codec : Codec) (s : JobState) (c : WriteCall) : Prop :=
  ∀ s' file, s.blockFile c = some (s', file) → s'.Holds c.block.fileNum file ∧ ∃ written, (s.afterWrite codec c).disk =
        s'.disk.write file.inode file.pos ((blockBytes codec c.block).take written)

/-- No change of entry fails between the change of the number and the opening of the file while
an older file is open. -/
def SwitchesCleanly (s : JobState) (c : WriteCall) : Prop :=
  c.block.id = s.job.id → ∀ base entry, s.job.dataSource = .filePath base →
    s.job.files[asUsize c.block.fileNum]? = some entry →
    asUsize c.block.fileNum ≠ asUsize s.job.fileNum → s.job.dataStream.isSome →
    c.faults.sync.isSome ∨ s.openingFails c.faults base entry = false

/-- The open stream belongs to the current entry. -/
structure Aligned (s : JobState) : Prop where
  source : ∃ base, s.job.dataSource = .filePath base
  stream : s.job.dataStream = none ∨ ∃ file, s.job.dataStream = some (.fileStream file) ∧ file.writable = true ∧
      s.Holds s.job.fileNum file

variable {s : JobState}

/-- The paths of an entry depend on its number as an index only. -/
theorem Holds.congr {k k' : Int} (h : s.Holds k file) (hk : asUsize k' = asUsize k) : s.Holds k' file := by
  simpa only [Holds, blockPath, destPath, hk] using h

/-- Putting a received file in its place keeps it the file of its entry. -/
theorem Holds.modifyTime (h : s.Holds s.job.fileNum file) (faults : Faults) :
    (s.modifyTime faults).Holds s.job.fileNum file := by
  obtain ⟨hpath, hnames⟩ := h
  refine ⟨hpath, ?_⟩
  change (s.job.modifyTime s.disk faults).names _ = _ ∨ (s.job.modifyTime s.disk faults).names _ = _ ∧
    ∃ path, s.job.destPath s.job.fileNum = some path ∧ (s.job.modifyTime s.disk faults).names _ = _
  rcases s.job.modifyTime_cases s.disk faults with
    hsame | ⟨base, entry, htype, hsource, hentry, hdisk⟩
  · rw [hsame]
    exact hnames
  have hdest : s.job.destPath s.job.fileNum = some (joinPath base entry.name) := by
    simp [destPath, hsource, show s.job.files[asUsize s.job.fileNum]? = _ from hentry, htype]
  obtain hdownload : downloadPath (joinPath base entry.name) = file.path := by
    simpa [blockPath, hsource, show s.job.files[asUsize s.job.fileNum]? = _ from hentry, htype] using hpath
  rw [hdest] at hnames ⊢
  rw [← hdownload] at hnames ⊢
  generalize joinPath base entry.name = dest at *
  -- The digest is neither the received file nor the destination.
  obtain ⟨disk, hrest, hd⟩ : ∃ disk : Disk, (∀ l, l ≠ locate (digestPath dest) → disk.names l = s.disk.names l) ∧
        (s.job.modifyTime s.disk faults = disk ∨
          s.job.modifyTime s.disk faults = disk.rename (locate (downloadPath dest)) (locate dest)) := by
    refine ⟨_, ?_, hdisk⟩
    intro l hl
    split
    · exact remove_names_of_ne s.disk hl
    · rfl
  have hsource' := hrest _ (locate_downloadPath_ne_digestPath dest dest)
  have htarget := hrest _ (locate_digestPath_ne dest).symm
  rcases hd with hd | hd
  · rw [hd, hsource']
    refine hnames.imp_right ?_
    rintro ⟨hgone, path, hpath, hnamed⟩
    obtain rfl := some.inj hpath
    exact ⟨hgone, dest, rfl, htarget.trans hnamed⟩
  · rcases hnames with hnamed | ⟨hgone, path, hpath, hnamed⟩
    · refine .inr ⟨?_, dest, rfl, ?_⟩
      · rw [hd]
        exact rename_names_source (locate_downloadPath_ne dest)
      · rw [hd, rename_names (locate_downloadPath_ne dest) (hsource'.trans hnamed)]
        simp [(locate_downloadPath_ne dest).symm]
    · obtain rfl := some.inj hpath
      rw [hd, rename_of_none (hsource'.trans hgone), hsource']
      exact .inr ⟨hgone, dest, rfl, htarget.trans hnamed⟩

/-- A call that gets as far as the bytes writes them to an open file of the block's entry. -/
theorem chooseStream_aligned {c : WriteCall} (hs : s.Aligned) (hid : c.block.id = s.job.id)
    (hclean : s.SwitchesCleanly c) :
    (s.chooseStream c.faults c.block).2.Aligned ∧ ((s.chooseStream c.faults c.block).1 = none →
        ∃ file, (s.chooseStream c.faults c.block).2.job.dataStream = some (.fileStream file) ∧
          file.writable = true ∧ (s.chooseStream c.faults c.block).2.Holds c.block.fileNum file ∧
          asUsize c.block.fileNum = asUsize (s.chooseStream c.faults c.block).2.job.fileNum) := by
  obtain ⟨base, hsource⟩ := hs.source
  unfold chooseStream
  rw [hsource]
  cases hentry : s.job.files[asUsize c.block.fileNum]? with
  | none => exact ⟨hs, by simp⟩
  | some entry =>
    by_cases hswitch : asUsize c.block.fileNum ≠ asUsize s.job.fileNum ∨ s.job.dataStream = none
    · simp only [if_pos hswitch]
      rcases switchFile_cases s c.faults base c.block.fileNum entry with
        ⟨e, file, hstream, -, heq⟩ | ⟨e, disk, heq, hfails⟩ | ⟨path, digest, inode, disk, hpaths, heq, hnames, -, -⟩
      · -- Syncing failed: the old entry stays current and its file may have been put in place.
        rw [heq]
        refine ⟨⟨⟨base, hsource⟩, .inr ?_⟩, by simp⟩
        obtain hnone | ⟨file', hstream', hwritable, hholds⟩ := hs.stream
        · simp [hstream] at hnone
        · exact ⟨file', hstream', hwritable, hholds.modifyTime c.faults⟩
      · -- Opening failed, which the condition allows only when no file was open.
        rw [heq]
        refine ⟨⟨⟨base, hsource⟩, .inl ?_⟩, by simp⟩
        by_contra hstream
        have hsome : s.job.dataStream.isSome := isSome_iff_ne_none.mpr hstream
        have hne := hswitch.resolve_right hstream
        rcases hclean hid base entry hsource hentry hne hsome with hsync | hopens
        · obtain ⟨file, hfile, -⟩ := hs.stream.resolve_left hstream
          obtain ⟨e', he'⟩ := isSome_iff_exists.mp hsync
          have hsynced : s.switchFile c.faults base c.block.fileNum entry = (some e', s.modifyTime c.faults) := by
            simp [switchFile, modifyTime, hfile, he']
          have hnum := congrArg (fun r => r.2.job.fileNum) (heq.symm.trans hsynced)
          exact hne (congrArg asUsize hnum)
        · simp [hopens] at hfails
      · -- The file is open at the temporary path of the entry.
        rw [heq]
        have hblockPath : s.job.blockPath c.block.fileNum = some path := by
          rcases writePaths_eq_ok hpaths with ⟨htype, rfl, -⟩ | ⟨htype, rfl, -⟩ <;>
            simp [blockPath, hsource, hentry, htype]
        have hholds : JobState.Holds
            ⟨{ s.job with fileNum := c.block.fileNum, dataStream := some (.fileStream { path, inode }) },
              disk⟩ c.block.fileNum { path, inode } := ⟨hblockPath, .inl hnames⟩
        exact ⟨⟨⟨base, hsource⟩, .inr ⟨_, rfl, rfl, hholds⟩⟩, fun _ => ⟨_, rfl, rfl, hholds, rfl⟩⟩
    · simp only [if_neg hswitch]
      obtain ⟨hsame, hopen⟩ := not_or.mp hswitch
      obtain ⟨file, hfile, hwritable, hholds⟩ := hs.stream.resolve_left hopen
      have hk : asUsize c.block.fileNum = asUsize s.job.fileNum := not_not.mp hsame
      exact ⟨hs, fun _ => ⟨file, hfile, hwritable, hholds.congr hk, hk⟩⟩

/-- The bytes of a block go to the open file and leave the stream with its entry. -/
theorem writeData_aligned (codec : Codec) (faults : Faults) (block : FileTransferBlock)
    (hs : s.Aligned) (hfile : s.job.dataStream = some (.fileStream file)) :
    (s.writeData codec faults block).2.Aligned := by
  obtain ⟨pos, finishedSize, transferred, disk, heq, hnames⟩ := writeData_cases codec s faults block hfile
  obtain hnone | ⟨file', hfile', hwritable, hpath, hheld⟩ := hs.stream
  · simp [hfile] at hnone
  obtain rfl : file = file' := by simpa [hfile] using hfile'
  rw [heq]
  refine ⟨hs.source, .inr ⟨{ file with pos }, rfl, hwritable, hpath, ?_⟩⟩
  change disk.names _ = _ ∨ disk.names _ = _ ∧ ∃ path, s.job.destPath _ = _ ∧ disk.names _ = _
  rw [hnames]
  exact hheld

theorem writeData_disk (codec : Codec) (faults : Faults) (block : FileTransferBlock)
    (hfile : s.job.dataStream = some (.fileStream file)) (hwritable : file.writable = true) :
    ∃ written, (s.writeData codec faults block).2.disk =
      s.disk.write file.inode file.pos ((blockBytes codec block).take written) := by
  unfold writeData
  rw [hfile]
  cases hfault : faults.writeAll with
  | none =>
    refine ⟨(blockBytes codec block).length, ?_⟩
    simp [DataStream.writeAll, hwritable]
  | some fault =>
    refine ⟨fault.1, ?_⟩
    simp [DataStream.writeAll, hwritable]

section SwitchesCleanly

variable (codec : Codec) (s : JobState) (c : WriteCall) (hs : s.Aligned) (hclean : s.SwitchesCleanly c)
include hs hclean

theorem afterWrite_aligned : (s.afterWrite codec c).Aligned := by
  unfold afterWrite write
  by_cases hid : c.block.id = s.job.id
  · rw [if_neg (not_not.mpr hid)]
    obtain ⟨haligned, hwrites⟩ := chooseStream_aligned hs hid hclean
    rcases hchosen : s.chooseStream c.faults c.block with ⟨_ | e, s'⟩
    · rw [hchosen] at haligned hwrites
      obtain ⟨file, hfile, -⟩ := hwrites rfl
      exact writeData_aligned codec c.faults c.block haligned hfile
    · rw [hchosen] at haligned
      exact haligned
  · rw [if_pos hid]
    exact hs

theorem routed_of_aligned : s.Routed codec c := by
  intro s' file hblock
  unfold blockFile at hblock
  by_cases hid : c.block.id = s.job.id
  · rw [if_neg (not_not.mpr hid)] at hblock
    obtain ⟨-, hwrites⟩ := chooseStream_aligned hs hid hclean
    rcases hchosen : s.chooseStream c.faults c.block with ⟨_ | e, chosen⟩
    · rw [hchosen] at hwrites
      obtain ⟨file', hfile', hwritable, hholds, -⟩ := hwrites rfl
      have hfile' : chosen.job.dataStream = some (.fileStream file') := hfile'
      obtain ⟨rfl, rfl⟩ : chosen = s' ∧ file' = file := by simpa [hchosen, hfile'] using hblock
      refine ⟨hholds, ?_⟩
      obtain ⟨written, hdisk⟩ := writeData_disk codec c.faults c.block hfile' hwritable
      refine ⟨written, ?_⟩
      rw [← hdisk]
      simp [afterWrite, write, hid, hchosen]
    · simp [hchosen] at hblock
  · simp [hid] at hblock

end SwitchesCleanly

end JobState

/-- In every run of `write` calls on a new job, with blocks for any entries in any order and any
failing steps: if no change of entry fails between the change of the number and the opening of the
file while an older file is open, the bytes of every block reach the file of their own entry. -/
theorem blocks_reach_their_own_file (codec : Codec) (job : TransferJob) (base : String) (disk : Disk)
    (calls : List WriteCall) (hsource : job.dataSource = .filePath base) (hnew : job.dataStream = none)
    (hrun : RunMeets (JobState.afterWrite codec) JobState.SwitchesCleanly ⟨job, disk⟩ calls) :
    RunMeets (JobState.afterWrite codec) (JobState.Routed codec) ⟨job, disk⟩ calls :=
  runMeets_of_invariant (JobState.afterWrite_aligned codec) (JobState.routed_of_aligned codec)
    ⟨⟨base, hsource⟩, .inl hnew⟩ hrun

section

/-- A codec that leaves the bytes as they are. -/
def plainCodec : Codec := ⟨id, id⟩

/-- A job for two files. -/
def twoFiles : TransferJob :=
  { id := 1, dataSource := .filePath "/dst", files := [{ name := "a" }, { name := "b" }] }

/-- A block of the first file, then one of the second. -/
def twoBlocks (faults : Faults) : List WriteCall :=
  [{ block := { id := 1, fileNum := 0, data := [1] } },
    { block := { id := 1, fileNum := 1, data := [2] }, faults }, { block := { id := 1, fileNum := 1, data := [3] } }]

end

/-- A failed sync between two files is within the condition. -/
theorem blocks_reach_their_own_file_two_files :
    let start : JobState := ⟨twoFiles, FileSystem.empty⟩
    let calls := twoBlocks { sync := some "sync failed" }
    RunMeets (JobState.afterWrite plainCodec) JobState.SwitchesCleanly start calls ∧
      RunMeets (JobState.afterWrite plainCodec) (JobState.Routed plainCodec) start calls := by
  intro start calls
  have hrun : RunMeets (JobState.afterWrite plainCodec) JobState.SwitchesCleanly start calls := by
    refine ⟨?_, ?_, ?_, trivial⟩
    · intro _ _ _ _ _ _ hstream
      exact absurd hstream (by decide)
    · intro _ _ _ _ _ _ _
      exact .inl rfl
    · intro _ base entry hsource hentry _ _
      obtain rfl : "/dst" = base := DataSource.filePath.inj hsource
      obtain rfl : { name := "b" } = entry := Option.some.inj hentry
      exact .inr (by decide)
  exact ⟨hrun, blocks_reach_their_own_file plainCodec twoFiles "/dst" FileSystem.empty calls rfl rfl hrun⟩

/-- When the second file cannot be created, its next block is appended to the first file, which has
already taken the place of its destination. -/
theorem block_reaches_another_file :
    let start : JobState := ⟨twoFiles, FileSystem.empty⟩
    let calls := twoBlocks { create := some "permission denied" }
    ¬ RunMeets (JobState.afterWrite plainCodec) (JobState.Routed plainCodec) start calls ∧
      (runEvents (JobState.afterWrite plainCodec) start calls).disk.contents (locate "/dst/a") = some [1, 3] := by
  refine ⟨?_, by decide⟩
  rintro ⟨-, -, hrouted, -⟩
  obtain ⟨⟨hpath, -⟩, -⟩ := hrouted _ _ rfl
  exact absurd hpath (by decide)

end UnyDesk
