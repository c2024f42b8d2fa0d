import UnyDesk.Transfer.ManagerRead

/-!
# The number of the current entry

The number at which a job starts and the numbers in the requests about it come from the other side, and need not be
those of an entry. The calls look an entry up before they use it, except for the one that moves a stream to an offset;
and a number is counted on without a look at the end of `i32`.
-/

namespace UnyDesk

open Lib Option Except

def i32Max : Int := 2147483647

/-- An `i32`. -/
abbrev I32 := { n : Int // -2147483648 ≤ n ∧ n ≤ i32Max }

/-- The requests that make a job, with the listing of the files that a read job finds. -/
inductive JobCreation
  | write (id : I32) (type : JobType) (dataSource : DataSource) (fileNum : I32) (enableOverwriteDetection : Bool)
      (files : List FileEntry) (symlinkChecks : Option String)
  | read (id : I32) (type : JobType) (path : String) (fileNum : I32) (enableOverwriteDetection : Bool)
      (listing : Except String (List FileEntry))
  | readBytes (id : I32) (type : JobType) (bytes : Bytes) (fileNum : I32) (enableOverwriteDetection : Bool)

def JobCreation.job : JobCreation → Except String TransferJob
  | .write id type dataSource fileNum enableOverwriteDetection files symlinkChecks =>
    (TransferJob.newWrite id type dataSource fileNum enableOverwriteDetection).setFiles files symlinkChecks
  | .read id type path fileNum enableOverwriteDetection listing =>
    TransferJob.newRead id type path fileNum enableOverwriteDetection listing
  | .readBytes id type bytes fileNum enableOverwriteDetection =>
    .ok (TransferJob.newReadBytes id type bytes fileNum enableOverwriteDetection)

/-- What can be asked of a job once it is made. -/
inductive JobRequest
  | setFiles (files : List FileEntry) (symlinkChecks : Option String)
  | write (faults : Faults) (id fileNum : I32) (data : Bytes) (compressed : Bool)
  | initDataStream (faults : ReadFaults)
  | read (faults : ReadFaults)
  | confirm (faults : Faults) (id fileNum : I32) (union : Option ConfirmUnion)
  | skip
  | digest (fileNum : I32) (fileSize lastModified : ℕ)
  | modifyTime (faults : Faults)
  | removeDownloadFile (faults : Faults)
  /-- The files are changed from outside. -/
  | outside (disk : Disk)

namespace JobState

/-- A job whose number was counted on; `none` is the panic of an `i32` that overflows. -/
def counted (s : JobState) : Option JobState := if s.job.fileNum ≤ i32Max then some s else none

/-- One request; `none` is a panic. -/
def serve (codec : Codec) (s : JobState) : JobRequest → Option JobState
  | .setFiles files symlinkChecks =>
    match s.job.setFiles files symlinkChecks with
    | .error _ => some s
    | .ok job => some { s with job }
  | .write faults id fileNum data compressed => some (s.write codec faults { id, fileNum, data, compressed }).2
  | .initDataStream faults => counted { s with job := (s.job.initDataStream s.disk faults).2.2 }
  | .read faults => counted { s with job := (s.job.read codec s.disk faults).2 }
  | .confirm faults id fileNum union => (s.confirm faults { id, fileNum, union }).bind counted
  | .skip => counted { s with job := s.job.setFileSkipped }
  | .digest fileNum fileSize lastModified =>
    match s.job.files[asUsize fileNum]? with
    | none => some s
    | some _ => some { s with job := s.job.setDigest fileSize lastModified }
  | .modifyTime faults => some (s.modifyTime faults)
  | .removeDownloadFile faults => some { s with disk := s.job.removeDownloadFile s.disk faults }
  | .outside disk => some { s with disk }

end JobState

namespace TransferJob

/-- The current entry has no stream, and its file cannot be opened. -/
def Refused (job : TransferJob) (disk : Disk) (faults : ReadFaults) : Prop :=
  ∃ base entry e, job.dataSource = .filePath base ∧ job.currentEntry = some entry ∧ job.dataStream = none ∧
    openFile disk (joinPath base entry.name) faults.opened = .error e

/-- The read of the current stream fails, or finds the end of a file. -/
def Ended (job : TransferJob) (disk : Disk) (faults : ReadFaults) : Prop :=
  ¬(job.type = .generic ∧ job.enableOverwriteDetection ∧ !job.fileConfirmed) ∧ ∃ stream, job.dataStream = some stream ∧
      match job.dataSource with
      | .filePath _ => job.currentEntry ≠ none ∧
          ∀ buf, fillBuffer faults.reads (stream.rest disk) bufSize = .ok buf → buf = []
      | .memoryCursor _ => ∃ e, fillBuffer faults.reads (stream.rest disk) bufSize = .error e

end TransferJob

/-- A request counts no number on that is the last of `i32`, and moves no stream of an entry that does not exist. -/
def JobState.InRange (s : JobState) : JobRequest → Prop
  | .initDataStream faults => s.job.Refused s.disk faults → s.job.fileNum ≠ i32Max
  | .read faults => s.job.Ended s.disk faults → s.job.fileNum ≠ i32Max
  | .confirm _ _ fileNum union => s.job.fileNum = fileNum → match union with
    | some (.skip true) => s.job.fileNum ≠ i32Max
    | some (.offsetBlk offset) => 0 < offset → (∃ base, s.job.dataSource = .filePath base) → s.job.currentEntry ≠ none
    | _ => True
  | .skip => s.job.fileNum ≠ i32Max
  | _ => True

section Numbers

variable {s s' : JobState} {job : TransferJob} {disk : Disk}

namespace TransferJob

theorem fileNum_setFiles {job' : TransferJob} {files : List FileEntry} {symlinkChecks : Option String}
    (h : job.setFiles files symlinkChecks = .ok job') : job'.fileNum = job.fileNum := by
  unfold setFiles at h
  cases hnames : validateTransferFileNames files with
  | error e =>
    rw [hnames] at h
    exact nomatch h
  | ok names =>
    rw [hnames] at h
    cases hsource : job.dataSource with
    | memoryCursor bytes =>
      rw [hsource] at h
      exact ok.inj h ▸ rfl
    | filePath base =>
      rw [hsource] at h
      cases symlinkChecks with
      | some e => exact nomatch h
      | none => exact ok.inj h ▸ rfl

/-- An entry whose file cannot be opened is passed over. -/
theorem fileNum_initDataStream (job : TransferJob) (disk : Disk) (faults : ReadFaults) :
    job.Refused disk faults ∧ (job.initDataStream disk faults).2.2.fileNum = job.fileNum + 1 ∨
      ¬job.Refused disk faults ∧ (job.initDataStream disk faults).2.2.fileNum = job.fileNum := by
  have hopen : job.Refused disk faults ∧ (∃ e, job.openDataStream disk faults = (.error e, job.nextFile)) ∨
      ¬job.Refused disk faults ∧ ∃ done job', job.openDataStream disk faults = (.ok done, job') ∧
        job'.fileNum = job.fileNum := by
    unfold openDataStream
    cases hsource : job.dataSource with
    | memoryCursor bytes =>
      have hnot : ¬job.Refused disk faults := fun ⟨_, _, _, hpath, _⟩ => nomatch hsource.symm.trans hpath
      dsimp only
      cases job.dataStream with
      | none => exact .inr ⟨hnot, _, _, rfl, rfl⟩
      | some stream => exact .inr ⟨hnot, _, _, rfl, rfl⟩
    | filePath base =>
      dsimp only
      cases hentry : job.currentEntry with
      | none =>
        have hnot : ¬job.Refused disk faults := fun ⟨_, _, _, _, hsome, _⟩ => nomatch hentry.symm.trans hsome
        exact .inr ⟨hnot, _, _, rfl, rfl⟩
      | some entry =>
        dsimp only
        cases hstream : job.dataStream with
        | some stream =>
          have hnot : ¬job.Refused disk faults := fun ⟨_, _, _, _, _, hnone, _⟩ => nomatch hstream.symm.trans hnone
          exact .inr ⟨hnot, _, _, rfl, rfl⟩
        | none =>
          dsimp only
          cases hfile : openFile disk (joinPath base entry.name) faults.opened with
          | error e => exact .inl ⟨⟨base, entry, e, hsource, hentry, hstream, hfile⟩, e, rfl⟩
          | ok file =>
            refine .inr ⟨?_, _, _, rfl, rfl⟩
            rintro ⟨base', entry', e, hsource', hentry', -, herror⟩
            obtain rfl := DataSource.filePath.inj (hsource.symm.trans hsource')
            obtain rfl := some.inj (hentry.symm.trans hentry')
            exact nomatch hfile.symm.trans herror
  unfold initDataStream
  obtain ⟨hrefused, e, heq⟩ | ⟨hrefused, done, job', heq, hnum⟩ := hopen
  · rw [heq]
    exact .inl ⟨hrefused, rfl⟩
  · rw [heq]
    refine .inr ⟨hrefused, ?_⟩
    cases done with
    | true => exact hnum
    | false =>
      dsimp only
      split
      next =>
        cases job'.getCurrentDigest disk faults with
        | error e => exact hnum
        | ok digest => exact hnum
      next => exact hnum

/-- A job with a stream that waits for nothing ends its entry with its next read, or does not. -/
theorem ended_iff {job : TransferJob} {stream : DataStream}
    (hwaits : ¬(job.type = .generic ∧ job.enableOverwriteDetection ∧ !job.fileConfirmed))
    (hstream : job.dataStream = some stream) (disk : Disk) (faults : ReadFaults) :
    job.Ended disk faults ↔ match job.dataSource with
      | .filePath _ => job.currentEntry ≠ none ∧
          ∀ buf, fillBuffer faults.reads (stream.rest disk) bufSize = .ok buf → buf = []
      | .memoryCursor _ => ∃ e, fillBuffer faults.reads (stream.rest disk) bufSize = .error e := by
  constructor
  · rintro ⟨-, stream', hsome, h⟩
    obtain rfl := some.inj (hstream.symm.trans hsome)
    exact h
  · exact fun h => ⟨hwaits, stream, hstream, h⟩

/-- An entry is counted on when its file is at its end or fails. -/
theorem fileNum_read (codec : Codec) (job : TransferJob) (disk : Disk) (faults : ReadFaults) :
    job.Ended disk faults ∧ (job.read codec disk faults).2.fileNum = job.fileNum + 1 ∨
      ¬job.Ended disk faults ∧ (job.read codec disk faults).2.fileNum = job.fileNum := by
  unfold read
  by_cases hwaits : job.type = .generic ∧ job.enableOverwriteDetection ∧ !job.fileConfirmed
  · rw [if_pos hwaits]
    exact .inr ⟨fun hended => hended.1 hwaits, rfl⟩
  rw [if_neg hwaits]
  cases hstream : job.dataStream with
  | none =>
    have hnot : ¬job.Ended disk faults := by
      rintro ⟨-, stream, hsome, -⟩
      cases hstream.symm.trans hsome
    refine .inr ⟨hnot, ?_⟩
    cases job.dataSource with
    | memoryCursor bytes => rfl
    | filePath base =>
      cases job.currentEntry with
      | none => rfl
      | some entry => rfl
  | some stream =>
    rw [ended_iff hwaits hstream]
    cases hsource : job.dataSource with
    | memoryCursor bytes =>
      dsimp only
      cases hfill : fillBuffer faults.reads (stream.rest disk) bufSize with
      | error e => exact .inl ⟨⟨e, rfl⟩, rfl⟩
      | ok buf =>
        have hfilled : ¬∃ e : String, (.ok buf : Except String Bytes) = .error e := by
          rintro ⟨e, he⟩
          cases he
        refine .inr ⟨hfilled, ?_⟩
        dsimp only
        split
        next => rfl
        next hbuf =>
          rw [blockOf, if_neg hbuf]
    | filePath base =>
      cases hentry : job.currentEntry with
      | none => exact .inr ⟨fun h => h.1 rfl, rfl⟩
      | some entry =>
        dsimp only
        cases hfill : fillBuffer faults.reads (stream.rest disk) bufSize with
        | error e => exact .inl ⟨⟨some_ne_none entry, fun buf hbuf => by cases hbuf⟩, rfl⟩
        | ok buf =>
          dsimp only
          by_cases hbuf : buf = []
          · left
            refine ⟨⟨some_ne_none entry, fun buf' hok => ok.inj hok ▸ hbuf⟩, ?_⟩
            rw [blockOf, if_pos hbuf]
            rfl
          · right
            refine ⟨fun h => hbuf (h.2 buf rfl), ?_⟩
            rw [blockOf, if_neg hbuf]

end TransferJob

namespace JobState

theorem fileNum_write (codec : Codec) (s : JobState) (faults : Faults) (block : FileTransferBlock) :
    (s.write codec faults block).2.job.fileNum = s.job.fileNum ∨
      (s.write codec faults block).2.job.fileNum = block.fileNum := by
  have hdata : ∀ t : JobState, (t.writeData codec faults block).2.job.fileNum = t.job.fileNum := by
    intro t
    unfold writeData
    extract_lets bytes
    split
    next => rfl
    next =>
      split
      next => rfl
      next => split <;> rfl
  have hcreate : ∀ (t : JobState) (path : String) (digest : Option String),
      (t.createStream faults path digest).2.job.fileNum = t.job.fileNum := by
    intro t path digest
    unfold createStream
    extract_lets stale disk opened disk' stream
    split
    next => rfl
    next => split <;> rfl
  have hswitch : ∀ base entry, (s.switchFile faults base block.fileNum entry).2.job.fileNum = s.job.fileNum ∨
      (s.switchFile faults base block.fileNum entry).2.job.fileNum = block.fileNum := by
    intro base entry
    unfold switchFile
    extract_lets t
    split
    next => exact .inl rfl
    next =>
      split
      next => exact .inr rfl
      next path digest _ => exact .inr (hcreate (t.atFile block.fileNum) path digest)
  have hchoose : (s.chooseStream faults block).2.job.fileNum = s.job.fileNum ∨
      (s.chooseStream faults block).2.job.fileNum = block.fileNum := by
    unfold chooseStream
    split
    next base _ =>
      split
      next => exact .inl rfl
      next entry _ =>
        split
        next => exact hswitch base entry
        next => exact .inl rfl
    next => split <;> exact .inl rfl
  unfold write
  split
  next => exact .inl rfl
  next =>
    split
    next heq =>
      rw [heq] at hchoose
      exact hchoose
    next t heq =>
      rw [heq] at hchoose
      rw [hdata t]
      exact hchoose

theorem counted_eq_some (h : s.counted = some s') : s' = s ∧ s.job.fileNum ≤ i32Max := by
  unfold counted at h
  split at h
  next hle => exact ⟨(some.inj h).symm, hle⟩
  next => exact nomatch h

theorem isSome_counted : s.counted.isSome ↔ s.job.fileNum ≤ i32Max := by
  unfold counted
  split
  next hle => exact iff_of_true rfl hle
  next hle => exact iff_of_false Bool.false_ne_true hle

/-- A number that is counted on or stays, and was in range. -/
theorem isSome_counted_iff {P : Prop} {num : Int} (hnum : num ≤ i32Max)
    (h : P ∧ s.job.fileNum = num + 1 ∨ ¬P ∧ s.job.fileNum = num) : s.counted.isSome ↔ (P → num ≠ i32Max) := by
  rw [isSome_counted]
  obtain ⟨hp, hnext⟩ | ⟨hp, hsame⟩ := h
  · rw [hnext]
    constructor
    · intro hle _
      omega
    · intro hne
      have hlt := hne hp
      omega
  · exact iff_of_true (hsame ▸ hnum) fun h => absurd h hp

/-- The offset of a stream is all that asks for the current entry. -/
theorem setStreamOffset_spec (s : JobState) (faults : Faults) (fileNum : Int) (offset : ℕ) :
    ((∃ base, s.job.dataSource = .filePath base) ∧ s.job.files[asUsize fileNum]? = none ∧
        s.setStreamOffset faults fileNum offset = none) ∨
      ((∃ base, s.job.dataSource = .filePath base) → s.job.files[asUsize fileNum]? ≠ none) ∧
        ∃ s', s.setStreamOffset faults fileNum offset = some s' ∧ s'.job.fileNum = s.job.fileNum := by
  unfold setStreamOffset
  cases hsource : s.job.dataSource with
  | memoryCursor bytes => exact .inr ⟨nofun, s, rfl, rfl⟩
  | filePath base =>
    cases hentry : s.job.files[asUsize fileNum]? with
    | none => exact .inl ⟨⟨base, rfl⟩, rfl, rfl⟩
    | some entry =>
      right
      refine ⟨fun _ => some_ne_none entry, ?_⟩
      dsimp only
      cases s.job.resolveEntryPath base entry.name faults.resolve with
      | none => exact ⟨s, rfl, rfl⟩
      | some path =>
        dsimp only
        split
        next => exact ⟨_, rfl, rfl⟩
        next => exact ⟨s, rfl, rfl⟩

/-- The requests that are answered in a state are those in range. -/
theorem isSome_serve_iff (codec : Codec) (h : s.job.fileNum ≤ i32Max) (request : JobRequest) :
    (s.serve codec request).isSome ↔ s.InRange request := by
  cases request with
  | setFiles files symlinkChecks =>
    refine iff_of_true ?_ trivial
    dsimp only [serve]
    cases s.job.setFiles files symlinkChecks with
    | error e => rfl
    | ok job => rfl
  | write | modifyTime | removeDownloadFile | outside => exact iff_of_true rfl trivial
  | initDataStream faults => exact isSome_counted_iff h (s.job.fileNum_initDataStream s.disk faults)
  | read faults => exact isSome_counted_iff h (s.job.fileNum_read codec s.disk faults)
  | skip =>
    refine (isSome_counted_iff h (.inl ⟨trivial, rfl⟩)).trans ?_
    exact ⟨fun hne => hne trivial, fun hne _ => hne⟩
  | digest fileNum fileSize lastModified =>
    refine iff_of_true ?_ trivial
    dsimp only [serve]
    cases s.job.files[asUsize fileNum]? with
    | none => rfl
    | some entry => rfl
  | confirm faults id fileNum union =>
    dsimp only [serve, confirm, InRange]
    by_cases hnum : s.job.fileNum = fileNum
    · rw [if_neg (not_not.mpr hnum)]
      have hstays : ∀ t : JobState, t.job.fileNum = s.job.fileNum → t.counted.isSome := fun t heq =>
        isSome_counted.mpr (heq ▸ h)
      match union with
      | none => exact iff_of_true (hstays s rfl) fun _ => trivial
      | some (.skip false) => exact iff_of_true (hstays _ rfl) fun _ => trivial
      | some (.skip true) =>
        refine (isSome_counted_iff h (.inl ⟨trivial, rfl⟩)).trans ?_
        exact ⟨fun hne _ => hne trivial, fun hne _ => hne hnum⟩
      | some (.offsetBlk offset) =>
        dsimp only
        by_cases hoffset : 0 < offset
        · rw [if_pos hoffset]
          have hentry : s.job.currentEntry = s.job.files[asUsize fileNum]? := by
            rw [TransferJob.currentEntry, hnum]
          rw [hentry]
          obtain ⟨hsource, hnone, hpanic⟩ | ⟨hfound, s', hset, hkept⟩ :=
            setStreamOffset_spec { s with job := s.job.setFileConfirmed true } faults fileNum offset
          · rw [hpanic]
            exact iff_of_false Bool.false_ne_true fun hin => hin hnum hoffset hsource hnone
          · rw [hset]
            exact iff_of_true (hstays s' hkept) fun _ _ hsource => hfound hsource
        · rw [if_neg hoffset]
          exact iff_of_true (hstays _ rfl) fun _ hpos => absurd hpos hoffset
    · rw [if_pos hnum]
      exact iff_of_true (isSome_counted.mpr h) fun heq => absurd heq hnum

theorem fileNum_le_of_serve {codec : Codec} (h : s.job.fileNum ≤ i32Max) {request : JobRequest}
    (hserve : s.serve codec request = some s') : s'.job.fileNum ≤ i32Max := by
  have hcounted : ∀ t : JobState, t.counted = some s' → s'.job.fileNum ≤ i32Max := by
    intro t heq
    obtain ⟨rfl, hle⟩ := counted_eq_some heq
    exact hle
  cases request with
  | setFiles files symlinkChecks =>
    dsimp only [serve] at hserve
    cases hset : s.job.setFiles files symlinkChecks with
    | error e =>
      rw [hset] at hserve
      exact some.inj hserve ▸ h
    | ok job =>
      rw [hset] at hserve
      obtain rfl := some.inj hserve
      change job.fileNum ≤ i32Max
      rw [TransferJob.fileNum_setFiles hset]
      exact h
  | write faults id fileNum data compressed =>
    obtain rfl := some.inj hserve
    obtain hold | hnew := fileNum_write codec s faults { id, fileNum, data, compressed }
    · rw [hold]
      exact h
    · rw [hnew]
      exact fileNum.2.2
  | modifyTime | removeDownloadFile | outside => exact some.inj hserve ▸ h
  | initDataStream | read | skip => exact hcounted _ hserve
  | digest fileNum fileSize lastModified =>
    dsimp only [serve] at hserve
    cases hentry : s.job.files[asUsize fileNum]? with
    | none =>
      rw [hentry] at hserve
      exact some.inj hserve ▸ h
    | some entry =>
      rw [hentry] at hserve
      exact some.inj hserve ▸ h
  | confirm faults id fileNum union =>
    obtain ⟨t, -, heq⟩ := bind_eq_some_iff.mp hserve
    exact hcounted t heq

end JobState

theorem JobCreation.fileNum_le {creation : JobCreation} (h : creation.job = .ok job) : job.fileNum ≤ i32Max := by
  cases creation with
  | write id type dataSource fileNum enableOverwriteDetection files symlinkChecks =>
    rw [TransferJob.fileNum_setFiles h]
    exact fileNum.2.2
  | read id type path fileNum enableOverwriteDetection listing =>
    dsimp only [JobCreation.job, TransferJob.newRead] at h
    cases listing with
    | error e => exact nomatch h
    | ok files =>
      obtain rfl := ok.inj h
      exact fileNum.2.2
  | readBytes id type bytes fileNum enableOverwriteDetection =>
    obtain rfl := ok.inj h
    exact fileNum.2.2

end Numbers

/-- Whatever is asked of a job that was made, no entry out of range is taken and no number overflows exactly if every
request is in range when it comes. -/
theorem job_requests_answered_iff (codec : Codec) {creation : JobCreation} {job : TransferJob}
    (h : creation.job = .ok job) (disk : Disk) (requests : List JobRequest) :
    (tryEvents (JobState.serve codec) ⟨job, disk⟩ requests).isSome ↔
      RunMeets (fun s request => (s.serve codec request).getD s) JobState.InRange ⟨job, disk⟩ requests :=
  isSome_tryEvents_iff (I := fun s => s.job.fileNum ≤ i32Max) (fun _ _ _ hle => JobState.fileNum_le_of_serve hle)
    (fun _ request hle => JobState.isSome_serve_iff codec hle request) (JobCreation.fileNum_le h) requests

/-- A job to write one file, started at the entry of a number. -/
def JobCreation.ofOne (fileNum : I32) : JobCreation :=
  .write ⟨1, by decide⟩ .generic (.filePath "d") fileNum true [{ name := "a" }] none

def TransferJob.ofOne (fileNum : I32) : TransferJob :=
  { id := 1, dataSource := .filePath "d", fileNum, files := [{ name := "a" }], enableOverwriteDetection := true }

theorem job_ofOne (fileNum : I32) : (JobCreation.ofOne fileNum).job = .ok (.ofOne fileNum) := by
  rfl

theorem job_requests_answered_first :
    (tryEvents (JobState.serve ⟨id, id⟩) ⟨.ofOne ⟨0, by decide⟩, .empty⟩ [.skip, .skip]).isSome ↔
      RunMeets (fun s request => (s.serve ⟨id, id⟩ request).getD s) JobState.InRange ⟨.ofOne ⟨0, by decide⟩, .empty⟩
        [.skip, .skip] :=
  job_requests_answered_iff ⟨id, id⟩ (job_ofOne ⟨0, by decide⟩) .empty [.skip, .skip]

/-- A job that starts after its only entry, and a confirmation of its number from the second block on. -/
theorem confirm_past_end_panics : ¬∀ (codec : Codec) (creation : JobCreation) (job : TransferJob) (disk : Disk)
    (requests : List JobRequest), creation.job = .ok job →
      (tryEvents (JobState.serve codec) ⟨job, disk⟩ requests).isSome := by
  intro hall
  have hanswered := hall ⟨id, id⟩ _ _ .empty [.confirm {} ⟨1, by decide⟩ ⟨1, by decide⟩ (some (.offsetBlk 1))]
    (job_ofOne ⟨1, by decide⟩)
  exact Bool.false_ne_true hanswered

end UnyDesk
