import UnyDesk.Client.Remote
import UnyDesk.Transfer.Failing

/-!
# The end of read jobs

A side keeps a list of read jobs. Every round of its timer opens the files of all jobs and serves the
first one; confirmations, cancellations and new jobs come at any time between rounds. Whether a job
has ended is inferred from its flags and not from the number of its current file, so the files that it
has passed are accounted for here.
-/

namespace UnyDesk

open Lib List JobState Option

variable {job : TransferJob} {sent : List FileResponse}

namespace TransferJob

/-- No file is left, as the code compares. -/
def AtEnd (job : TransferJob) : Prop := job.files.length ≤ asUsize job.fileNum

instance (job : TransferJob) : Decidable job.AtEnd := inferInstanceAs (Decidable (_ ≤ _))

theorem atEnd_iff : job.AtEnd ↔ job.currentEntry = none :=
  getElem?_eq_none_iff.symm

/-- Files of a path are read from files, and bytes in memory belong to no list of files. -/
def Shape (job : TransferJob) : Prop :=
  match job.dataSource with
  | .filePath _ => ∀ bytes pos, job.dataStream ≠ some (.bufStream bytes pos)
  | .memoryCursor _ => job.files = []

/-- The job passes over a failing file and ends in the same round, although files are left. -/
def losesFiles (disk : Disk) (faults : ReadFaults) (job : TransferJob) : Bool :=
  decide (job.type = .generic) && job.enableOverwriteDetection &&
    (job.openFails disk faults && !decide job.nextFile.AtEnd || (job.openDataStream disk faults).2.metadataFails faults)

/-- The files before the next one: the job may pass over one file, which was sent to its end or is
reported. The error carries the number of the file that follows. -/
def Passes (sent : List FileResponse) (job job' : TransferJob) : Prop :=
  job'.fileNum = job.fileNum ∨ job'.fileNum = job.fileNum + 1 ∧
      (.block { id := job.id, fileNum := job.fileNum, data := [] } ∈ sent ∨
        ∃ e, .error job.id e (job.fileNum + 1) ∈ sent)

/-- The job is still the same one. -/
structure Kept (job job' : TransferJob) : Prop where
  id : job'.id = job.id
  files : job'.files = job.files
  type : job'.type = job.type
  detection : job'.enableOverwriteDetection = job.enableOverwriteDetection
  isLastJob : job'.isLastJob = job.isLastJob
  shape : job.Shape → job'.Shape

section Job

variable {codec : Codec} {disk : Disk} {faults : ReadFaults} {job : TransferJob}

theorem Kept.refl (job : TransferJob) : job.Kept job := ⟨rfl, rfl, rfl, rfl, rfl, fun h => h⟩

theorem Kept.trans {job' job'' : TransferJob} (h : job.Kept job') (h' : job'.Kept job'') : job.Kept job'' :=
  ⟨h'.id.trans h.id, h'.files.trans h.files, h'.type.trans h.type, h'.detection.trans h.detection,
    h'.isLastJob.trans h.isLastJob, fun hshape => h'.shape (h.shape hshape)⟩

/-- A job without a stream has the shape of its source. -/
theorem Shape.withoutStream (h : job.Shape) (fileNum : Int) (confirmed skipped waiting : Bool) : ({ job with
        fileNum
        dataStream := none
        fileConfirmed := confirmed
        fileSkipped := skipped
        fileIsWaiting := waiting } : TransferJob).Shape := by
  unfold Shape at h ⊢
  cases hsource : job.dataSource with
  | filePath base => simp
  | memoryCursor bytes => simpa [hsource] using h

theorem kept_nextFile (job : TransferJob) : job.Kept job.nextFile :=
  ⟨rfl, rfl, rfl, rfl, rfl, fun h => h.withoutStream _ _ _ _⟩

/-- What opening the current file does: it fails and the file is passed over, there is none, or the
stream is open. -/
theorem openDataStream_cases (disk : Disk) (faults : ReadFaults) (job : TransferJob) :
    (∃ e, job.openDataStream disk faults = (.error e, job.nextFile) ∧ job.openFails disk faults = true) ∨
      (job.openDataStream disk faults = (.ok true, { job with dataStream := none }) ∧
        job.openFails disk faults = false ∧ job.currentEntry = none) ∨
      ∃ opened, job.openDataStream disk faults = (.ok false, opened) ∧ job.openFails disk faults = false ∧
        job.Kept opened ∧ opened.fileNum = job.fileNum ∧ opened.dataStream.isSome := by
  cases hsource : job.dataSource with
  | memoryCursor bytes =>
    have hfails : job.openFails disk faults = false := by simp [openFails, hsource]
    refine .inr (.inr ?_)
    cases hstream : job.dataStream with
    | some stream => exact ⟨job, by simp [openDataStream, hsource, hstream], hfails, .refl job, rfl, by simp [hstream]⟩
    | none =>
      let opened : TransferJob :=
        { job with dataStream := some (.bufStream bytes 0), dataSource := .memoryCursor [] }
      have hkept : job.Kept opened := ⟨rfl, rfl, rfl, rfl, rfl, fun h => by simpa [Shape, hsource] using h⟩
      exact ⟨opened, by simp only [openDataStream, hsource, hstream, opened], hfails, hkept, rfl, rfl⟩
  | filePath base =>
    cases hentry : job.currentEntry with
    | none =>
      refine .inr (.inl ⟨by simp only [openDataStream, hsource, hentry], ?_, rfl⟩)
      simp [openFails, hsource, hentry]
    | some entry =>
      cases hstream : job.dataStream with
      | some stream =>
        refine .inr (.inr ⟨job, by simp only [openDataStream, hsource, hentry, hstream], ?_, .refl job, rfl,
          by simp [hstream]⟩)
        simp [openFails, hsource, hentry, hstream]
      | none =>
        cases hopen : openFile disk (joinPath base entry.name) faults.opened with
        | error e =>
          refine .inl ⟨e, by simp only [openDataStream, hsource, hentry, hstream, hopen], ?_⟩
          simp [openFails, hsource, hentry, hstream, hopen, Except.isOk, Except.toBool]
        | ok file =>
          let opened : TransferJob :=
            { job with
              dataStream := some (.fileStream file)
              fileConfirmed := false
              fileIsWaiting := false }
          have hkept : job.Kept opened := ⟨rfl, rfl, rfl, rfl, rfl, fun _ => by simp [Shape, opened, hsource]⟩
          refine .inr (.inr ⟨opened, by simp only [openDataStream, hsource, hentry, hstream, hopen, opened], ?_,
            hkept, rfl, rfl⟩)
          simp [openFails, hsource, hentry, hstream, hopen, Except.isOk, Except.toBool]

/-- What the first half of a round does: nothing with a leftover of the last session, or what opening
does, with a digest and a wait for the confirmation where one is needed. -/
theorem initJob_cases (disk : Disk) (faults : ReadFaults) (job : TransferJob) :
    (job.isLastJob = true ∧ job.initJob disk faults = ([], job)) ∨ job.isLastJob = false ∧
        ((∃ e, job.openDataStream disk faults = (.error e, job.nextFile) ∧
            job.initJob disk faults = ([.error job.id e (job.fileNum + 1)], job.nextFile)) ∨
          (job.openDataStream disk faults = (.ok true, { job with dataStream := none }) ∧ job.currentEntry = none ∧
            job.initJob disk faults = ([], { job with dataStream := none })) ∨
          ∃ opened, job.openDataStream disk faults = (.ok false, opened) ∧ job.Kept opened ∧
            opened.fileNum = job.fileNum ∧ opened.dataStream.isSome ∧
            ((opened.needsDigest = false ∧ job.initJob disk faults = ([], opened)) ∨
              (∃ e, opened.needsDigest = true ∧ opened.getCurrentDigest disk faults = .error e ∧
                job.initJob disk faults = ([.error opened.id e opened.fileNum], opened)) ∨
              ∃ digest, opened.needsDigest = true ∧ opened.getCurrentDigest disk faults = .ok digest ∧
                job.initJob disk faults = ([.digest opened.id opened.fileNum digest.1 digest.2 opened.isResume],
                    { opened with fileIsWaiting := true }))) := by
  by_cases hlast : job.isLastJob = true
  · exact .inl ⟨hlast, by simp [initJob, hlast]⟩
  · refine .inr ⟨by simpa using hlast, ?_⟩
    rcases openDataStream_cases disk faults job with ⟨e, hopen, -⟩ | ⟨hopen, -, hentry⟩ |
      ⟨opened, hopen, -, hkept, hnum, hstream⟩
    · exact .inl ⟨e, hopen, by simp [initJob, hlast, initDataStream, hopen, nextFile]⟩
    · exact .inr (.inl ⟨hopen, hentry, by simp [initJob, hlast, initDataStream, hopen]⟩)
    · refine .inr (.inr ⟨opened, hopen, hkept, hnum, hstream, ?_⟩)
      cases hneeds : opened.needsDigest with
      | false => exact .inl ⟨rfl, by simp [initJob, hlast, initDataStream, hopen, hneeds]⟩
      | true =>
        cases hdigest : opened.getCurrentDigest disk faults with
        | error e => exact .inr (.inl ⟨e, rfl, rfl, by simp [initJob, hlast, initDataStream, hopen, hneeds, hdigest]⟩)
        | ok digest => exact .inr (.inr ⟨digest, rfl, rfl, by simp [initJob, hlast, initDataStream, hopen, hneeds, hdigest]⟩)

theorem initJob_kept : job.Kept (job.initJob disk faults).2 := by
  have hwithout : job.Kept { job with dataStream := none } :=
    ⟨rfl, rfl, rfl, rfl, rfl, fun h => h.withoutStream _ _ _ _⟩
  rcases initJob_cases disk faults job with ⟨-, heq⟩ | ⟨-, ⟨e, -, heq⟩ | ⟨-, -, heq⟩ |
    ⟨opened, -, hkept, -, -, ⟨-, heq⟩ | ⟨e, -, -, heq⟩ | ⟨digest, -, -, heq⟩⟩⟩
  all_goals rw [heq]
  · exact .refl job
  · exact kept_nextFile job
  · exact hwithout
  · exact hkept
  · exact hkept
  · exact hkept.trans ⟨rfl, rfl, rfl, rfl, rfl, fun h => h⟩

theorem initJob_passes : job.Passes (job.initJob disk faults).1 (job.initJob disk faults).2 := by
  rcases initJob_cases disk faults job with ⟨-, heq⟩ | ⟨-, ⟨e, -, heq⟩ | ⟨-, -, heq⟩ |
    ⟨opened, -, -, hnum, -, ⟨-, heq⟩ | ⟨e, -, -, heq⟩ | ⟨digest, -, -, heq⟩⟩⟩
  all_goals rw [heq]
  · exact .inl rfl
  · exact .inr ⟨rfl, .inr ⟨e, mem_singleton_self _⟩⟩
  · exact .inl rfl
  · exact .inl hnum
  · exact .inl hnum
  · exact .inl hnum

theorem openFails_eq (disk : Disk) (faults : ReadFaults) (job : TransferJob) :
    job.openFails disk faults = !(job.openDataStream disk faults).1.isOk := by
  rcases openDataStream_cases disk faults job with ⟨e, hopen, hfails⟩ | ⟨hopen, hfails, -⟩ | ⟨opened, hopen, hfails, -⟩
  all_goals rw [hopen, hfails]; rfl

variable (disk faults) in
/-- The metadata are the only thing that a digest of a listed file can fail on. -/
theorem getCurrentDigest_isOk (hshape : job.Shape) (hentry : job.currentEntry.isSome) (hstream : job.dataStream.isSome) :
    (job.getCurrentDigest disk faults).isOk = faults.metadata.isNone := by
  obtain ⟨stream, hstream⟩ := isSome_iff_exists.mp hstream
  cases stream with
  | bufStream bytes pos =>
    cases hsource : job.dataSource with
    | filePath base =>
      simp only [Shape, hsource] at hshape
      exact absurd hstream (hshape bytes pos)
    | memoryCursor bytes =>
      have hfiles : job.files = [] := by simpa [Shape, hsource] using hshape
      simp [currentEntry, hfiles] at hentry
  | fileStream file => cases hmeta : faults.metadata <;> simp [getCurrentDigest, hstream, hmeta, Except.isOk, Except.toBool]

variable (disk faults) in
/-- After the first half of a round a job that neither is confirmed nor waits has files left only when
it has passed over a failing one. -/
theorem initJob_idle_iff (hshape : job.Shape) (hlast : job.isLastJob = false) :
    ((job.initJob disk faults).2.needsDigest = true ∧ ¬(job.initJob disk faults).2.AtEnd) ↔
      job.losesFiles disk faults = true := by
  have hidle : ∀ opened : TransferJob, job.openDataStream disk faults = (.ok false, opened) →
      opened.AtEnd → job.losesFiles disk faults = false := by
    intro opened hopen hend
    simp [losesFiles, openFails_eq, hopen, Except.isOk, Except.toBool, metadataFails, atEnd_iff.mp hend]
  rcases initJob_cases disk faults job with ⟨htrue, -⟩ | ⟨-, ⟨e, hopen, heq⟩ | ⟨hopen, hentry, heq⟩ |
    ⟨opened, hopen, hkept, hnum, hstream, ⟨hneeds, heq⟩ | ⟨e, hneeds, hdigest, heq⟩ | ⟨digest, hneeds, hdigest, heq⟩⟩⟩
  · simp [hlast] at htrue
  · -- The open failed, and the next file is the current one.
    have hneeds : job.nextFile.needsDigest = (decide (job.type = .generic) && job.enableOverwriteDetection) := by
      simp only [needsDigest, nextFile, Bool.not_false, Bool.and_true]
      rfl
    have hfails : job.openFails disk faults = true := by simp [openFails_eq, hopen, Except.isOk, Except.toBool]
    rw [heq, losesFiles, hopen, hneeds, hfails]
    by_cases hend : job.nextFile.AtEnd
    · simp [hend, metadataFails, atEnd_iff.mp hend]
    · simp [hend]
  · have hend : ({ job with dataStream := none } : TransferJob).AtEnd := atEnd_iff.mpr hentry
    have hloses : job.losesFiles disk faults = false := by
      have hnone : ({ job with dataStream := none } : TransferJob).currentEntry = none := hentry
      simp [losesFiles, openFails_eq, hopen, Except.isOk, Except.toBool, metadataFails, hnone]
    simp [heq, hend, hloses]
  · have hloses : job.losesFiles disk faults = false := by
      simp [losesFiles, openFails_eq, hopen, Except.isOk, Except.toBool, metadataFails, hneeds]
    simp [heq, hneeds, hloses]
  · rw [heq]
    by_cases hend : opened.AtEnd
    · simp [hend, hidle opened hopen hend]
    · have hentry : opened.currentEntry.isSome := Option.isSome_iff_ne_none.mpr (mt atEnd_iff.mpr hend)
      have hok := getCurrentDigest_isOk disk faults (hkept.shape hshape) hentry hstream
      have hmeta : faults.metadata.isSome := by
        rw [hdigest] at hok
        cases hm : faults.metadata with
        | none => simp [hm, Except.isOk, Except.toBool] at hok
        | some e => rfl
      have hgate : job.type = .generic ∧ job.enableOverwriteDetection = true := by
        simp only [needsDigest, Bool.and_eq_true, decide_eq_true_eq] at hneeds
        exact ⟨hkept.type ▸ hneeds.1.1.1, hkept.detection ▸ hneeds.1.1.2⟩
      simp [hend, hneeds, losesFiles, hopen, metadataFails, hentry, hmeta, hgate]
  · have hloses : job.losesFiles disk faults = false := by
      by_cases hend : opened.AtEnd
      · exact hidle opened hopen hend
      · have hentry : opened.currentEntry.isSome := Option.isSome_iff_ne_none.mpr (mt atEnd_iff.mpr hend)
        have hok := getCurrentDigest_isOk disk faults (hkept.shape hshape) hentry hstream
        have hmeta : faults.metadata = none := by
          rw [hdigest] at hok
          simpa [Except.isOk, Except.toBool] using hok.symm
        simp [losesFiles, openFails_eq, hopen, Except.isOk, Except.toBool, metadataFails, hmeta]
    simp [heq, needsDigest, hloses]

/-- A piece of the current file was read. -/
structure SendsPiece (block : FileTransferBlock) (job job' : TransferJob) : Prop where
  kept : job.Kept job'
  source : job'.dataSource = job.dataSource
  fileNum : job'.fileNum = job.fileNum
  fileIsWaiting : job'.fileIsWaiting = job.fileIsWaiting
  stream : job'.dataStream.isSome
  id : block.id = job.id

/-- What `read` does: it waits at the gate of the confirmation, is at the end, has no stream, fails to
read, ends the file, or sends a piece of it. -/
theorem read_cases (codec : Codec) (disk : Disk) (faults : ReadFaults) (hshape : job.Shape) :
    (job.type = .generic ∧ job.enableOverwriteDetection = true ∧ job.fileConfirmed = false ∧
        job.read codec disk faults = (.ok none, job)) ∨
      (job.AtEnd ∧ job.read codec disk faults = (.ok none, { job with dataStream := none })) ∨
      (∃ e, job.read codec disk faults = (.error e, job)) ∨
      (∃ e, job.read codec disk faults = (.error e, job.nextFile)) ∨
      job.read codec disk faults = (.ok (some { id := job.id, fileNum := job.fileNum, data := [] }), job.nextFile) ∨
      ∃ block job', job.read codec disk faults = (.ok (some block), job') ∧ SendsPiece block job job' := by
  by_cases hgate : job.type = .generic ∧ job.enableOverwriteDetection = true ∧ (!job.fileConfirmed) = true
  · exact .inl ⟨hgate.1, hgate.2.1, by simpa using hgate.2.2, by simp only [read, if_pos hgate]⟩
  refine .inr ?_
  -- A piece of the file leaves the job at it, with the stream further on.
  have hpiece : ∀ (compressible : Bool) (stream : DataStream) (buf : Bytes), buf ≠ [] → job.dataStream = some stream →
        SendsPiece (job.blockOf codec compressible stream buf).1 job (job.blockOf codec compressible stream buf).2 := by
    intro compressible stream buf hbuf hstream
    rw [blockOf, if_neg hbuf]
    refine ⟨⟨rfl, rfl, rfl, rfl, rfl, fun h => ?_⟩, rfl, rfl, rfl, rfl, rfl⟩
    unfold Shape at h ⊢
    cases hsource : job.dataSource with
    | memoryCursor bytes => simpa [hsource] using h
    | filePath base =>
      cases stream with
      | fileStream file => simp [DataStream.advance]
      | bufStream bytes pos => exact absurd hstream (by simpa [hsource] using (hsource ▸ h) bytes pos)
  cases hsource : job.dataSource with
  | filePath base =>
    cases hentry : job.currentEntry with
    | none => exact .inl ⟨atEnd_iff.mpr hentry, by simp only [read, if_neg hgate, hsource, hentry]⟩
    | some entry =>
      refine .inr ?_
      cases hstream : job.dataStream with
      | none => exact .inl ⟨"data stream is None", by simp only [read, if_neg hgate, hsource, hentry, hstream]⟩
      | some stream =>
        refine .inr ?_
        cases hfill : fillBuffer faults.reads (stream.rest disk) bufSize with
        | error e => exact .inl ⟨e, by simp only [read, if_neg hgate, hsource, hentry, hstream, hfill]⟩
        | ok buf =>
          refine .inr ?_
          by_cases hbuf : buf = []
          · exact .inl (by simp only [read, if_neg hgate, hsource, hentry, hstream, hfill, blockOf, if_pos hbuf])
          · have hsent := hpiece (!isCompressedFile (job.blockName base entry)) stream buf hbuf hstream
            exact .inr ⟨(job.blockOf codec (!isCompressedFile (job.blockName base entry)) stream buf).1, _,
              by simp only [read, if_neg hgate, hsource, hentry, hstream, hfill], hsent⟩
  | memoryCursor bytes =>
    have hend : job.AtEnd := by
      have hfiles : job.files = [] := by simpa [Shape, hsource] using hshape
      simp [AtEnd, hfiles]
    cases hstream : job.dataStream with
    | none => exact .inr (.inl ⟨"data stream is None", by simp only [read, if_neg hgate, hsource, hstream]⟩)
    | some stream =>
      cases hfill : fillBuffer faults.reads (stream.rest disk) bufSize with
      | error e => exact .inr (.inr (.inl ⟨e, by simp only [read, if_neg hgate, hsource, hstream, hfill]⟩))
      | ok buf =>
        by_cases hbuf : buf = []
        · exact .inl ⟨hend, by simp only [read, if_neg hgate, hsource, hstream, hfill, if_pos hbuf]⟩
        · have hsent := hpiece false stream buf hbuf hstream
          exact .inr (.inr (.inr (.inr ⟨(job.blockOf codec false stream buf).1, _,
            by simp only [read, if_neg hgate, hsource, hstream, hfill, if_neg hbuf], hsent⟩)))

theorem passes_nextFile_of_error {e : String}
    (h : .error job.id e (job.fileNum + 1) ∈ sent) : job.Passes sent job.nextFile :=
  .inr ⟨rfl, .inr ⟨e, h⟩⟩

/-- The second half of a round keeps the job and passes over a file that it sent or reported. -/
theorem readTurn_kept (codec : Codec) (disk : Disk) (faults : ReadFaults) (hshape : job.Shape) :
    job.Kept (job.readTurn codec disk faults).2.1 ∧
      job.Passes (job.readTurn codec disk faults).1 (job.readTurn codec disk faults).2.1 := by
  have hnone : ∀ job' : TransferJob, job.read codec disk faults = (.ok none, job') →
      (job.readTurn codec disk faults).2.1 = job' := by
    intro job' hread
    simp only [readTurn, hread]
    split
    · split <;> rfl
    · rfl
  rcases read_cases codec disk faults hshape with ⟨-, -, -, hread⟩ | ⟨-, hread⟩ | ⟨e, hread⟩ | ⟨e, hread⟩ | hread |
    ⟨block, job', hread, hsent⟩
  · rw [hnone _ hread]
    exact ⟨.refl job, .inl rfl⟩
  · rw [hnone _ hread]
    exact ⟨⟨rfl, rfl, rfl, rfl, rfl, fun h => h.withoutStream _ _ _ _⟩, .inl rfl⟩
  · simp only [readTurn, hread]
    exact ⟨.refl job, .inl rfl⟩
  · simp only [readTurn, hread]
    exact ⟨kept_nextFile job, passes_nextFile_of_error (mem_singleton_self _)⟩
  · simp only [readTurn, hread]
    exact ⟨kept_nextFile job, .inr ⟨rfl, .inl (mem_singleton_self _)⟩⟩
  · simp only [readTurn, hread]
    exact ⟨hsent.kept, .inl hsent.fileNum⟩

/-- The second half of a round ends a job with files left exactly when the job waits for a confirmation
that nobody was asked for. -/
theorem readTurn_ends_early_iff (codec : Codec) (disk : Disk) (faults : ReadFaults) (hshape : job.Shape) :
    ((job.readTurn codec disk faults).2.2 = true ∧ ¬(job.readTurn codec disk faults).2.1.AtEnd) ↔
      job.needsDigest = true ∧ ¬job.AtEnd := by
  have hgoes : ∀ result job', job.read codec disk faults = (result, job') → result ≠ .ok none →
      (job.readTurn codec disk faults).2.2 = false := by
    intro result job' hread hne
    rcases result with e | _ | block
    · simp [readTurn, hread]
    · exact absurd rfl hne
    · simp [readTurn, hread]
  -- A read that is not at the gate shows that no digest is missing.
  have hopen : ∀ result job', job.read codec disk faults = (result, job') → result ≠ .ok none →
      ¬(job.needsDigest = true) := by
    intro result job' hread hne hneeds
    simp only [needsDigest, Bool.and_eq_true, decide_eq_true_eq] at hneeds
    rw [read, if_pos ⟨hneeds.1.1.1, hneeds.1.1.2, hneeds.1.2⟩] at hread
    exact hne (Prod.mk.inj hread).1.symm
  rcases read_cases codec disk faults hshape with ⟨htype, hdetection, hconfirmed, hread⟩ | ⟨hend, hread⟩ |
    ⟨e, hread⟩ | ⟨e, hread⟩ | hread | ⟨block, job', hread, -⟩
  · have hneeds : job.needsDigest = job.jobCompleted := by
      simp [needsDigest, jobCompleted, htype, hdetection, hconfirmed]
    rw [hneeds]
    cases hcompleted : job.jobCompleted with
    | true =>
      simp only [readTurn, hread, hcompleted, if_true]
      cases job.jobError <;> simp
    | false => simp [readTurn, hread, hcompleted]
  · have hend' : ({ job with dataStream := none } : TransferJob).AtEnd := hend
    have hlast : (job.readTurn codec disk faults).2.1.AtEnd := by
      simp only [readTurn, hread]
      split
      · split <;> exact hend'
      · exact hend'
    simp [hend, hlast]
  · simp [hgoes _ _ hread, hopen _ _ hread]
  · simp [hgoes _ _ hread, hopen _ _ hread]
  · simp [hgoes _ _ hread, hopen _ _ hread]
  · simp [hgoes _ _ hread, hopen _ _ hread]

/-- The end is announced for a job that has ended, with the number of its current file. -/
theorem readTurn_done {id n : Int} (h : .done id n ∈ (job.readTurn codec disk faults).1) :
    (job.readTurn codec disk faults).2.2 = true ∧ (job.readTurn codec disk faults).2.1.id = id ∧
      (job.readTurn codec disk faults).2.1.fileNum = n := by
  cases hread : job.read codec disk faults with
  | mk result job' =>
    simp only [readTurn, hread] at h ⊢
    rcases result with e | _ | block
    · simp at h
    · by_cases hcompleted : job'.jobCompleted = true
      · cases herror : job'.jobError with
        | some e => simp [hcompleted, herror] at h
        | none =>
          simp only [hcompleted, if_true, herror, mem_singleton, FileResponse.done.injEq] at h ⊢
          exact ⟨trivial, h.1.symm, h.2.symm⟩
      · simp [hcompleted] at h
    · simp at h

theorem initJob_done {id n : Int} : .done id n ∉ (job.initJob disk faults).1 := by
  rcases initJob_cases disk faults job with ⟨-, heq⟩ | ⟨-, ⟨e, -, heq⟩ | ⟨-, -, heq⟩ |
    ⟨opened, -, -, -, -, ⟨-, heq⟩ | ⟨e, -, -, heq⟩ | ⟨digest, -, -, heq⟩⟩⟩
  all_goals simp [heq]

end Job

/-- The job that a round serves, with its place in the list. -/
def turnOf : ℕ → List TransferJob → Option (ℕ × TransferJob)
  | _, [] => none
  | i, job :: jobs => if job.isLastJob then turnOf (i + 1) jobs else some (i, job)

section Jobs

variable {codec : Codec} {disk : Disk} {faults : ℕ → ReadFaults} {jobs : List TransferJob} {i : ℕ}

/-- A change to the jobs that leaves them in use leaves the turn where it is. -/
theorem turnOf_mapIdx {f : ℕ → TransferJob → TransferJob} (hf : ∀ n job, (f n job).isLastJob = job.isLastJob)
    (jobs : List TransferJob) (i : ℕ) :
    turnOf i (jobs.mapIdx fun k => f (i + k)) = (turnOf i jobs).map fun turn => (turn.1, f turn.1 turn.2) := by
  induction jobs generalizing i with
  | nil => rfl
  | cons job jobs ih =>
    have hrest : (fun k => f (i + (k + 1))) = fun k => f (i + 1 + k) := by
      funext k
      rw [Nat.add_assoc, Nat.add_comm 1 k]
    rw [mapIdx_cons, turnOf, turnOf, hf, hrest, ih, Nat.add_zero]
    split <;> rfl

theorem firstTurn_of_none (h : turnOf i jobs = none) : firstTurn codec disk faults i jobs = ([], jobs, none) := by
  induction jobs generalizing i with
  | nil => rfl
  | cons job jobs ih =>
    rw [turnOf] at h
    split at h
    next hlast => simp only [firstTurn, hlast, if_true, ih h]
    next => simp at h

variable (codec disk faults) in
/-- The turn of a round changes one job and leaves the others alone. -/
theorem firstTurn_of_some {n : ℕ} (h : turnOf i jobs = some (n, job)) :
    job.isLastJob = false ∧ ∃ before after, jobs = before ++ job :: after ∧ firstTurn codec disk faults i jobs =
        (let turn := job.readTurn codec disk (faults n)
        (turn.1, before ++ turn.2.1 :: after, if turn.2.2 then some turn.2.1 else none)) := by
  induction jobs generalizing i with
  | nil => simp [turnOf] at h
  | cons first jobs ih =>
    rw [turnOf] at h
    split at h
    next hlast =>
      obtain ⟨hjob, before, after, hjobs, hturn⟩ := ih h
      exact ⟨hjob, first :: before, after, by rw [hjobs, cons_append], by simp only [firstTurn, hlast, if_true, hturn]; rfl⟩
    next hlast =>
      obtain ⟨rfl, rfl⟩ := Prod.mk.inj (some.inj h)
      exact ⟨by simpa using hlast, [], jobs, rfl, by simp only [firstTurn, hlast, if_false, Bool.false_eq_true]; rfl⟩

theorem mem_removeJob {id : Int} (h : job ∈ removeJob id jobs) : job ∈ jobs := by
  induction jobs with
  | nil => exact h
  | cons first jobs ih =>
    rw [removeJob] at h
    split at h
    next => exact mem_cons_of_mem _ h
    next =>
      rcases mem_cons.mp h with rfl | h
      · exact mem_cons_self
      · exact mem_cons_of_mem _ (ih h)

/-- A removal takes one number away. -/
theorem map_id_removeJob (id : Int) (jobs : List TransferJob) :
    (removeJob id jobs).map TransferJob.id = (jobs.map TransferJob.id).erase id := by
  induction jobs with
  | nil => rfl
  | cons first jobs ih =>
    rw [removeJob, map_cons, erase_cons]
    by_cases h : first.id = id
    · simp [h]
    · simp [h, ih]

/-- The jobs of a round after their files were opened. -/
def opened (disk : Disk) (faults : ℕ → ReadFaults) (jobs : List TransferJob) : List TransferJob :=
  jobs.mapIdx fun n job => (job.initJob disk (faults n)).2

/-- What a round does: the files of all jobs are opened, and one job is served. -/
theorem handleReadJobs_cases (codec : Codec) (disk : Disk) (faults : ℕ → ReadFaults) (jobs : List TransferJob) :
    ∃ announced : List FileResponse,
      (∀ m ∈ announced, ∃ (n : ℕ) (job : TransferJob), jobs[n]? = some job ∧ m ∈ (job.initJob disk (faults n)).1) ∧
      (∀ (n : ℕ) (job : TransferJob), jobs[n]? = some job → ∀ m ∈ (job.initJob disk (faults n)).1, m ∈ announced) ∧
      ((turnOf 0 jobs = none ∧ handleReadJobs codec disk faults jobs = (announced, opened disk faults jobs, none)) ∨
        ∃ n job before after, turnOf 0 jobs = some (n, job) ∧ job.isLastJob = false ∧
          opened disk faults jobs = before ++ (job.initJob disk (faults n)).2 :: after ∧
          handleReadJobs codec disk faults jobs =
            (let turn := (job.initJob disk (faults n)).2.readTurn codec disk (faults n)
            let remaining := before ++ turn.2.1 :: after
            (announced ++ turn.1, if turn.2.2 then removeJob turn.2.1.id remaining else remaining,
              if turn.2.2 then some turn.2.1 else none))) := by
  have hopened : (jobs.mapIdx fun n job => job.initJob disk (faults n)).map Prod.snd = opened disk faults jobs := by
    exact List.ext_getElem? fun n => by simp [opened, Function.comp_def]
  have hturn : turnOf 0 (opened disk faults jobs) =
      (turnOf 0 jobs).map fun turn => (turn.1, (turn.2.initJob disk (faults turn.1)).2) := by
    rw [← turnOf_mapIdx (f := fun n job => (job.initJob disk (faults n)).2) (fun n job => initJob_kept.isLastJob)]
    simp only [Nat.zero_add]
    rfl
  refine ⟨((jobs.mapIdx fun n job => job.initJob disk (faults n)).map Prod.fst).flatten, ?_, ?_, ?_⟩
  · intro m hm
    obtain ⟨sent, hsent, hm⟩ := List.mem_flatten.mp hm
    obtain ⟨_, hpair, rfl⟩ := List.mem_map.mp hsent
    obtain ⟨n, hn, rfl⟩ := List.mem_mapIdx.mp hpair
    exact ⟨n, jobs[n], List.getElem?_eq_getElem hn, hm⟩
  · intro n job hjob m hm
    obtain ⟨hn, rfl⟩ := List.getElem?_eq_some_iff.mp hjob
    exact List.mem_flatten.mpr ⟨_, List.mem_map.mpr ⟨_, List.mem_mapIdx.mpr ⟨n, hn, rfl⟩, rfl⟩, hm⟩
  · cases hjob : turnOf 0 jobs with
    | none =>
      rw [hjob] at hturn
      refine .inl ⟨rfl, ?_⟩
      simp only [handleReadJobs, hopened, firstTurn_of_none hturn, List.append_nil]
      rfl
    | some turn =>
      rw [hjob] at hturn
      obtain ⟨-, before, after, hjobs, hfirst⟩ := firstTurn_of_some codec disk faults hturn
      obtain ⟨hlast, -⟩ := firstTurn_of_some codec disk faults hjob
      refine .inr ⟨turn.1, turn.2, before, after, rfl, hlast, hjobs, ?_⟩
      simp only [handleReadJobs, hopened, hfirst]
      cases ((turn.2.initJob disk (faults turn.1)).2.readTurn codec disk (faults turn.1)).2.2 <;> rfl

end Jobs

end TransferJob

/-- `new_read` of bytes in memory. -/
def TransferJob.newReadBytes (id : Int) (type : JobType) (bytes : Bytes) (fileNum : Int)
    (enableOverwriteDetection : Bool) : TransferJob :=
  { id, type, dataSource := .memoryCursor bytes, fileNum, enableOverwriteDetection, totalSize := bytes.length }

/-- What happens to the read jobs of a side. -/
inductive ReadEvent
  | readPath (id : Int) (type : JobType) (path : String) (fileNum : Int) (enableOverwriteDetection isLastJob : Bool)
      (listing : Except String (List FileEntry))
  | readBytes (id : Int) (type : JobType) (bytes : Bytes) (fileNum : Int) (enableOverwriteDetection : Bool)
  | resume (id : Int)
  | tick (disk : Disk) (faults : ℕ → ReadFaults)
  | confirm (disk : Disk) (faults : Faults) (request : SendConfirm)
  | cancel (id : Int)

/-- The read jobs of a side, and the record of what has happened to them. -/
structure ReadJobs where
  jobs : List TransferJob := []
  sent : List FileResponse := []
  /-- The jobs that were started, with the file that each was to start at. -/
  started : List (Int × Int) := []
  cancelled : List Int := []
  /-- The files that the peer wanted to skip. -/
  skipped : List (Int × Int) := []
  /-- The jobs whose end was announced, as they were then. -/
  ended : List TransferJob := []

namespace ReadJobs

variable {jobs : List TransferJob} {job job' : TransferJob}

/-- A new job. -/
def push (s : ReadJobs) (job : TransferJob) : ReadJobs :=
  { s with jobs := s.jobs ++ [job], started := s.started ++ [(job.id, job.fileNum)] }

/-- A change to the job that `get_job` gives. -/
def onJob (s : ReadJobs) (id : Int) (f : TransferJob → TransferJob) : ReadJobs :=
  match getJob id s.jobs with
  | none => s
  | some job => { s with jobs := setJob id (f job) s.jobs }

/-- A job that is taken up again. -/
def resumed (job : TransferJob) : TransferJob :=
  match job.dataSource with
  | .filePath _ => { job with isLastJob := false, isResume := true }.setFinishedSizeOnResume
  | .memoryCursor _ => job

/-- One event of a side. -/
def step (codec : Codec) (s : ReadJobs) : ReadEvent → ReadJobs
  | .readPath id type path fileNum enableOverwriteDetection isLastJob listing =>
    match TransferJob.newRead id type path fileNum enableOverwriteDetection listing with
    | .error _ => s
    | .ok job => s.push { job with isLastJob }
  | .readBytes id type bytes fileNum enableOverwriteDetection =>
    s.push (TransferJob.newReadBytes id type bytes fileNum enableOverwriteDetection)
  | .resume id => s.onJob id resumed
  | .tick disk faults =>
    let round := TransferJob.handleReadJobs codec disk faults s.jobs
    { s with jobs := round.2.1, sent := s.sent ++ round.1, ended := s.ended ++ round.2.2.toList }
  | .confirm disk faults request =>
    let s : ReadJobs :=
      if request.union = some (.skip true) then { s with skipped := s.skipped ++ [(request.id, request.fileNum)] } else s
    s.onJob request.id fun job => (JobState.confirmed faults request ⟨job, disk⟩).job
  | .cancel id =>
    match getJob id s.jobs with
    | none => s
    | some _ => { s with jobs := TransferJob.removeJob id s.jobs, cancelled := s.cancelled ++ [id] }

/-- The file of a job was sent to its end, reported with an error or skipped. -/
def Settled (s : ReadJobs) (id fileNum : Int) : Prop :=
  .block { id, fileNum, data := [] } ∈ s.sent ∨ (∃ e, .error id e (fileNum + 1) ∈ s.sent) ∨ (id, fileNum) ∈ s.skipped

/-- All files that the job has passed since its start are settled. -/
def Accounts (s : ReadJobs) (job : TransferJob) : Prop :=
  ∃ first, (job.id, first) ∈ s.started ∧ ∀ k, first ≤ k → k < job.fileNum → s.Settled job.id k

/-- In a round the job that is served does not lose the files that follow a failing one. -/
def KeepsFiles (s : ReadJobs) : ReadEvent → Prop
  | .tick disk faults => ∀ n job, TransferJob.turnOf 0 s.jobs = some (n, job) → job.losesFiles disk (faults n) = false
  | _ => True

/-- The later state has what the earlier one recorded. -/
structure Extends (s s' : ReadJobs) : Prop where
  sent : ∀ m ∈ s.sent, m ∈ s'.sent
  started : ∀ p ∈ s.started, p ∈ s'.started
  skipped : ∀ p ∈ s.skipped, p ∈ s'.skipped

/-- What holds of the record in every run. -/
structure Sound (s : ReadJobs) : Prop where
  shape : ∀ job ∈ s.jobs, job.Shape
  accounts : ∀ job, job ∈ s.jobs ∨ job ∈ s.ended → s.Accounts job
  announced : ∀ id n, .done id n ∈ s.sent → ∃ job ∈ s.ended, job.id = id ∧ job.fileNum = n
  numbers : (s.started.map Prod.fst).Perm (s.jobs.map TransferJob.id ++ s.ended.map TransferJob.id ++ s.cancelled)

theorem mem_setJob {id : Int} {job j : TransferJob} (h : j ∈ setJob id job jobs) : j = job ∨ j ∈ jobs := by
  induction jobs with
  | nil => exact .inr h
  | cons first jobs ih =>
    rw [setJob] at h
    split at h
    next => exact (mem_cons.mp h).imp_right (mem_cons_of_mem _)
    next =>
      rcases mem_cons.mp h with rfl | h
      · exact .inr mem_cons_self
      · exact (ih h).imp_right (mem_cons_of_mem _)

theorem map_id_setJob {id : Int} (hid : job.id = id) (jobs : List TransferJob) :
    (setJob id job jobs).map TransferJob.id = jobs.map TransferJob.id := by
  induction jobs with
  | nil => rfl
  | cons first jobs ih =>
    rw [setJob]
    split
    next h => rw [map_cons, map_cons, hid, h]
    next => rw [map_cons, map_cons, ih]

variable {codec : Codec} {s s' : ReadJobs}

theorem Settled.mono (h : s.Extends s') {id fileNum : Int} (hsettled : s.Settled id fileNum) : s'.Settled id fileNum := by
  rcases hsettled with hblock | ⟨e, herror⟩ | hskip
  · exact .inl (h.sent _ hblock)
  · exact .inr (.inl ⟨e, h.sent _ herror⟩)
  · exact .inr (.inr (h.skipped _ hskip))

theorem Accounts.mono (h : s.Extends s') (haccounts : s.Accounts job) : s'.Accounts job := by
  obtain ⟨first, hfirst, hsettled⟩ := haccounts
  exact ⟨first, h.started _ hfirst, fun k hk hlt => (hsettled k hk hlt).mono h⟩

/-- A job that passes over at most its current file, which is settled, is still accounted for. -/
theorem Accounts.advance (haccounts : s.Accounts job) (hid : job'.id = job.id)
    (hnum : job'.fileNum = job.fileNum ∨ job'.fileNum = job.fileNum + 1 ∧ s.Settled job.id job.fileNum) :
    s.Accounts job' := by
  obtain ⟨first, hfirst, hsettled⟩ := haccounts
  refine ⟨first, hid ▸ hfirst, fun k hk hlt => ?_⟩
  rw [hid]
  rcases hnum with heq | ⟨heq, hcurrent⟩
  · exact hsettled k hk (heq ▸ hlt)
  · rcases Int.lt_or_eq_of_le (Int.le_of_lt_add_one (heq ▸ hlt)) with hlt | rfl
    · exact hsettled k hk hlt
    · exact hcurrent

theorem Accounts.passes (haccounts : s.Accounts job)
    (hkept : job.Kept job') (hpasses : job.Passes sent job') (hsent : ∀ m ∈ sent, m ∈ s.sent) : s.Accounts job' := by
  refine haccounts.advance hkept.id (hpasses.imp_right fun ⟨heq, hfile⟩ => ⟨heq, ?_⟩)
  rcases hfile with hblock | ⟨e, herror⟩
  · exact .inl (hsent _ hblock)
  · exact .inr (.inl ⟨e, hsent _ herror⟩)

/-- A seek opens a stream of a file or leaves the job alone. -/
theorem setStreamOffset_kept {js js' : JobState} {faults : Faults} {fileNum : Int} {offset : ℕ}
    (h : js.setStreamOffset faults fileNum offset = some js') :
    js.job.Kept js'.job ∧ js'.job.fileNum = js.job.fileNum := by
  have hsame : some js = some js' → js.job.Kept js'.job ∧ js'.job.fileNum = js.job.fileNum := by
    rintro ⟨rfl⟩
    exact ⟨.refl _, rfl⟩
  unfold setStreamOffset at h
  split at h
  next => exact hsame h
  next base hsource =>
    split at h
    next => simp at h
    next entry =>
      split at h
      next => exact hsame h
      next path =>
        dsimp only at h
        split at h
        next =>
          obtain rfl := some.inj h
          exact ⟨⟨rfl, rfl, rfl, rfl, rfl, fun _ => by simp [TransferJob.Shape, hsource]⟩, rfl⟩
        next => exact hsame h

/-- What a confirmation does to a job: it keeps the file, or skips it. -/
theorem confirmed_cases (faults : Faults) (request : SendConfirm) (job : TransferJob) (disk : Disk) :
    job.Kept (confirmed faults request ⟨job, disk⟩).job ∧
      ((confirmed faults request ⟨job, disk⟩).job.fileNum = job.fileNum ∨
        (confirmed faults request ⟨job, disk⟩).job.fileNum = job.fileNum + 1 ∧
          request.fileNum = job.fileNum ∧ request.union = some (.skip true)) := by
  have hset : job.Kept (job.setFileConfirmed true) := ⟨rfl, rfl, rfl, rfl, rfl, fun h => h⟩
  unfold confirmed confirm
  by_cases hnum : job.fileNum = request.fileNum
  · rw [if_neg (not_not.mpr hnum)]
    match hunion : request.union with
    | some (.skip true) =>
      exact ⟨⟨rfl, rfl, rfl, rfl, rfl, fun h => h.withoutStream _ _ _ _⟩, .inr ⟨rfl, hnum.symm, rfl⟩⟩
    | some (.skip false) => exact ⟨hset, .inl rfl⟩
    | some (.offsetBlk offset) =>
      dsimp only
      split
      next =>
        cases hseek : setStreamOffset ⟨job.setFileConfirmed true, disk⟩ faults request.fileNum offset with
        | none => exact ⟨.refl job, .inl rfl⟩
        | some js =>
          obtain ⟨hkept, heq⟩ := setStreamOffset_kept hseek
          exact ⟨hset.trans hkept, .inl heq⟩
      next => exact ⟨hset, .inl rfl⟩
    | none => exact ⟨.refl job, .inl rfl⟩
  · rw [if_pos hnum]
    exact ⟨.refl job, .inl rfl⟩

theorem resumed_kept (job : TransferJob) : (resumed job).id = job.id ∧ (job.Shape → (resumed job).Shape) ∧
    (resumed job).fileNum = job.fileNum := by
  unfold resumed
  cases hsource : job.dataSource with
  | memoryCursor bytes => exact ⟨rfl, id, rfl⟩
  | filePath base =>
    simp only [TransferJob.setFinishedSizeOnResume]
    split <;> exact ⟨rfl, fun h => by simpa [TransferJob.Shape, hsource] using h, rfl⟩

/-- A change to one job that keeps its number, its shape and its account. -/
theorem Sound.onJob (h : s.Sound) (id : Int) {f : TransferJob → TransferJob}
    (hf : ∀ job, job.id = id → (f job).id = job.id ∧ (job.Shape → (f job).Shape) ∧ (s.Accounts job → s.Accounts (f job))) :
    (s.onJob id f).Sound := by
  unfold ReadJobs.onJob
  cases hget : getJob id s.jobs with
  | none => exact h
  | some job =>
    have hjob : job ∈ s.jobs := mem_of_find?_eq_some hget
    have hid : job.id = id := by simpa using find?_some hget
    obtain ⟨hkeep, hshape, haccounts⟩ := hf job hid
    refine ⟨fun j hj => ?_, fun j hj => ?_, h.announced, ?_⟩
    · rcases mem_setJob hj with rfl | hj
      · exact hshape (h.shape job hjob)
      · exact h.shape j hj
    · rcases hj with hj | hj
      · rcases mem_setJob hj with rfl | hj
        · exact haccounts (h.accounts job (.inl hjob))
        · exact h.accounts j (.inl hj)
      · exact h.accounts j (.inr hj)
    · rw [map_id_setJob (hkeep.trans hid)]
      exact h.numbers

theorem Sound.push (h : s.Sound) (hshape : job.Shape) : (s.push job).Sound := by
  have hext : s.Extends (s.push job) := ⟨fun _ hm => hm, fun _ hp => mem_append_left _ hp, fun _ hp => hp⟩
  refine ⟨fun j hj => ?_, fun j hj => ?_, h.announced, ?_⟩
  · rcases mem_append.mp hj with hj | hj
    · exact h.shape j hj
    · exact mem_singleton.mp hj ▸ hshape
  · have hold : j ∈ s.jobs ∨ j ∈ s.ended → (s.push job).Accounts j := fun hj => (h.accounts j hj).mono hext
    rcases hj with hj | hj
    · rcases mem_append.mp hj with hj | hj
      · exact hold (.inl hj)
      · -- A new job has passed no file.
        obtain rfl := mem_singleton.mp hj
        refine ⟨j.fileNum, mem_append_right _ (mem_singleton_self _), fun k hk hlt => ?_⟩
        omega
    · exact hold (.inr hj)
  · simp only [ReadJobs.push, map_append, map_cons, map_nil]
    rw [perm_iff_count]
    intro k
    have hcount := perm_iff_count.mp h.numbers k
    simp only [count_append] at hcount ⊢
    omega

/-- A number that is taken off the list and recorded elsewhere is not lost. -/
theorem perm_removeJob (hjob : job.id ∈ jobs.map TransferJob.id) :
    (jobs.map TransferJob.id).Perm ((TransferJob.removeJob job.id jobs).map TransferJob.id ++ [job.id]) := by
  rw [TransferJob.map_id_removeJob]
  exact (perm_cons_erase hjob).trans (perm_append_singleton _ _).symm

/-- Opening the files of a round leaves the numbers of the jobs. -/
theorem map_id_opened (disk : Disk) (faults : ℕ → ReadFaults) (jobs : List TransferJob) :
    (TransferJob.opened disk faults jobs).map TransferJob.id = jobs.map TransferJob.id := by
  refine ext_getElem? fun n => ?_
  simp only [TransferJob.opened, getElem?_map, getElem?_mapIdx, Option.map_map]
  exact congrArg (fun f => Option.map f jobs[n]?) (funext fun job => TransferJob.initJob_kept.id)

section Sound

variable (h : s.Sound) {disk : Disk} {faults : ℕ → ReadFaults} {announced : List FileResponse}
  (hall : ∀ (n : ℕ) (job : TransferJob), s.jobs[n]? = some job → ∀ m ∈ (job.initJob disk (faults n)).1, m ∈ announced)
include h hall

/-- The opened jobs account for the files that they pass, once what they announce is sent. -/
theorem Sound.opened (hext : s.Extends s') (hsent : ∀ m ∈ announced, m ∈ s'.sent) :
    ∀ j ∈ TransferJob.opened disk faults s.jobs, j.Shape ∧ s'.Accounts j := by
  intro j hj
  obtain ⟨n, hn, rfl⟩ := mem_mapIdx.mp hj
  have hjob : s.jobs[n] ∈ s.jobs := getElem_mem hn
  refine ⟨TransferJob.initJob_kept.shape (h.shape _ hjob), ?_⟩
  refine ((h.accounts _ (.inl hjob)).mono hext).passes TransferJob.initJob_kept TransferJob.initJob_passes fun m hm => ?_
  exact hsent m (hall n _ (getElem?_eq_getElem hn) m hm)

/-- A round in which no job is served. -/
theorem Sound.openAll (hnodone : ∀ id n, .done id n ∉ announced) :
    Sound { s with jobs := TransferJob.opened disk faults s.jobs, sent := s.sent ++ announced } := by
  have hext : s.Extends { s with jobs := TransferJob.opened disk faults s.jobs, sent := s.sent ++ announced } :=
    ⟨fun _ hm => mem_append_left _ hm, fun _ hp => hp, fun _ hp => hp⟩
  have hopened := h.opened hall hext fun m hm => mem_append_right _ hm
  refine ⟨fun j hj => (hopened j hj).1, fun j hj => ?_, fun id n hdone => ?_, ?_⟩
  · rcases hj with hj | hj
    · exact (hopened j hj).2
    · exact (h.accounts j (.inr hj)).mono hext
  · rcases mem_append.mp hdone with hdone | hdone
    · exact h.announced id n hdone
    · exact absurd hdone (hnodone id n)
  · rw [map_id_opened]
    exact h.numbers

end Sound

/-- A job that has ended is recorded when it is taken off the list. -/
theorem Sound.numbers_served (h : s.Sound) {remaining : List TransferJob} {turned : TransferJob} (hmem : turned ∈ remaining)
    (hnumbers : remaining.map TransferJob.id = s.jobs.map TransferJob.id) (finished : Bool) :
    (s.started.map Prod.fst).Perm
      ((if finished then TransferJob.removeJob turned.id remaining else remaining).map TransferJob.id ++
        (s.ended ++ if finished then [turned] else []).map TransferJob.id ++ s.cancelled) := by
  rw [perm_iff_count]
  intro k
  have hcount := perm_iff_count.mp h.numbers k
  rw [← hnumbers] at hcount
  cases finished with
  | false => simpa using hcount
  | true =>
    have hremoved := perm_iff_count.mp (perm_removeJob (mem_map_of_mem hmem)) k
    simp only [if_true, map_append, map_cons, map_nil, count_append] at hcount hremoved ⊢
    omega

theorem Sound.tick (h : s.Sound) (codec : Codec) (disk : Disk) (faults : ℕ → ReadFaults) :
    (s.step codec (.tick disk faults)).Sound := by
  obtain ⟨announced, hannounced, hall, hround⟩ := TransferJob.handleReadJobs_cases codec disk faults s.jobs
  have hnodone : ∀ id n, .done id n ∉ announced := by
    intro id n hm
    obtain ⟨k, job, -, hm⟩ := hannounced _ hm
    exact TransferJob.initJob_done hm
  rcases hround with ⟨-, hround⟩ | ⟨n, job, before, after, hturn, -, hjobs, hround⟩
  · simp only [ReadJobs.step, hround, toList_none, append_nil]
    exact h.openAll hall hnodone
  · let served := (job.initJob disk (faults n)).2
    let turn := served.readTurn codec disk (faults n)
    let remaining := before ++ turn.2.1 :: after
    let s' := s.step codec (.tick disk faults)
    have hext : s.Extends s' := ⟨fun _ hm => mem_append_left _ hm, fun _ hp => hp, fun _ hp => hp⟩
    have hsent : s'.sent = s.sent ++ (announced ++ turn.1) := by simp only [s', ReadJobs.step, hround, turn, served]
    have hjobs' : s'.jobs = if turn.2.2 then TransferJob.removeJob turn.2.1.id remaining else remaining := by
      simp only [s', ReadJobs.step, hround, turn, served, remaining]
    have hended : s'.ended = s.ended ++ if turn.2.2 then [turn.2.1] else [] := by
      simp only [s', ReadJobs.step, hround, turn, served]
      split <;> rfl
    have hopened' := h.opened hall hext fun m hm => by
      rw [hsent]
      exact mem_append_right _ (mem_append_left _ hm)
    -- The job that is served is one of the opened jobs, and its turn accounts for the file it passes.
    obtain ⟨hshape, haccounts⟩ := hopened' served (hjobs ▸ mem_append_right _ mem_cons_self)
    obtain ⟨hkept, hpasses⟩ := TransferJob.readTurn_kept codec disk (faults n) hshape
    have hturn' : turn.2.1.Shape ∧ s'.Accounts turn.2.1 := by
      refine ⟨hkept.shape hshape, haccounts.passes hkept hpasses fun m hm => ?_⟩
      rw [hsent]
      exact mem_append_right _ (mem_append_right _ hm)
    have hremaining : ∀ j ∈ remaining, j.Shape ∧ s'.Accounts j := by
      intro j hj
      rcases mem_append.mp hj with hj | hj
      · exact hopened' j (hjobs ▸ mem_append_left _ hj)
      · rcases mem_cons.mp hj with rfl | hj
        · exact hturn'
        · exact hopened' j (hjobs ▸ mem_append_right _ (mem_cons_of_mem _ hj))
    have hmem : ∀ j ∈ s'.jobs, j ∈ remaining := by
      intro j hj
      rw [hjobs'] at hj
      split at hj
      next => exact TransferJob.mem_removeJob hj
      next => exact hj
    have hnumbers : remaining.map TransferJob.id = s.jobs.map TransferJob.id := by
      rw [← map_id_opened disk faults s.jobs, hjobs]
      have hid : turn.2.1.id = served.id := hkept.id
      simp only [remaining, map_append, map_cons, hid, served]
    refine ⟨fun j hj => (hremaining j (hmem j hj)).1, fun j hj => ?_, fun id k hdone => ?_, ?_⟩
    · rcases hj with hj | hj
      · exact (hremaining j (hmem j hj)).2
      · rcases mem_append.mp (hended ▸ hj) with hj | hj
        · exact (h.accounts j (.inr hj)).mono hext
        · split at hj
          next => exact mem_singleton.mp hj ▸ hturn'.2
          next => simp at hj
    · have hdone' : .done id k ∈ s.sent ++ (announced ++ turn.1) := hsent ▸ hdone
      rcases mem_append.mp hdone' with hdone | hdone
      · obtain ⟨j, hj, heq⟩ := h.announced id k hdone
        exact ⟨j, hended ▸ mem_append_left _ hj, heq⟩
      · rcases mem_append.mp hdone with hdone | hdone
        · exact absurd hdone (hnodone id k)
        · obtain ⟨htrue, heq⟩ := TransferJob.readTurn_done hdone
          refine ⟨turn.2.1, ?_, heq⟩
          rw [hended, if_pos htrue]
          exact mem_append_right _ (mem_singleton_self _)
    · rw [hjobs', hended]
      exact h.numbers_served (mem_append_right _ mem_cons_self) hnumbers _

theorem Sound.step (h : s.Sound) (codec : Codec) (e : ReadEvent) : (s.step codec e).Sound := by
  cases e with
  | readPath id type path fileNum enableOverwriteDetection isLastJob listing =>
    simp only [ReadJobs.step]
    cases listing with
    | error err => exact h
    | ok files => exact h.push (by simp [TransferJob.Shape])
  | readBytes id type bytes fileNum enableOverwriteDetection => exact h.push rfl
  | resume id =>
    refine h.onJob id fun job _ => ?_
    obtain ⟨hid, hshape, hnum⟩ := resumed_kept job
    exact ⟨hid, hshape, fun haccounts => haccounts.advance hid (.inl hnum)⟩
  | tick disk faults => exact h.tick codec disk faults
  | confirm disk faults request =>
    simp only [ReadJobs.step]
    by_cases hskip : request.union = some (.skip true)
    · rw [if_pos hskip]
      have hext : s.Extends { s with skipped := s.skipped ++ [(request.id, request.fileNum)] } :=
        ⟨fun _ hm => hm, fun _ hp => hp, fun _ hp => mem_append_left _ hp⟩
      have hs : Sound { s with skipped := s.skipped ++ [(request.id, request.fileNum)] } :=
        ⟨h.shape, fun job hjob => (h.accounts job hjob).mono hext, h.announced, h.numbers⟩
      refine hs.onJob request.id fun job hid => ?_
      obtain ⟨hkept, hnum⟩ := confirmed_cases faults request job disk
      refine ⟨hkept.id, hkept.shape, fun haccounts => haccounts.advance hkept.id (hnum.imp_right fun ⟨heq, hcurrent, _⟩ => ⟨heq, ?_⟩)⟩
      refine .inr (.inr (mem_append_right _ ?_))
      rw [hid, hcurrent]
      exact mem_singleton_self _
    · rw [if_neg hskip]
      refine h.onJob request.id fun job hid => ?_
      obtain ⟨hkept, hnum⟩ := confirmed_cases faults request job disk
      refine ⟨hkept.id, hkept.shape, fun haccounts => haccounts.advance hkept.id (hnum.imp_right ?_)⟩
      exact fun hcontra => absurd hcontra.2.2 hskip
  | cancel id =>
    simp only [ReadJobs.step]
    cases hget : getJob id s.jobs with
    | none => exact h
    | some job =>
      have hjob : job.id ∈ s.jobs.map TransferJob.id := mem_map_of_mem (mem_of_find?_eq_some hget)
      have hid : job.id = id := by simpa using find?_some hget
      refine ⟨fun j hj => h.shape j (TransferJob.mem_removeJob hj), fun j hj => ?_, h.announced, ?_⟩
      · exact h.accounts j (hj.imp_left TransferJob.mem_removeJob)
      · subst hid
        rw [perm_iff_count]
        intro k
        have hcount := perm_iff_count.mp h.numbers k
        have hremoved := perm_iff_count.mp (perm_removeJob hjob) k
        simp only [count_append] at hcount hremoved ⊢
        omega

/-- Jobs that an event does not end stay what they are, and a round ends no job with files left exactly
if the served job loses none. -/
theorem ended_step_iff (h : s.Sound) (codec : Codec) (e : ReadEvent) :
    (∀ job ∈ (s.step codec e).ended, job.AtEnd) ↔ (∀ job ∈ s.ended, job.AtEnd) ∧ s.KeepsFiles e := by
  have hsame : (s.step codec e).ended = s.ended → s.KeepsFiles e →
      ((∀ job ∈ (s.step codec e).ended, job.AtEnd) ↔ (∀ job ∈ s.ended, job.AtEnd) ∧ s.KeepsFiles e) := by
    intro heq hkeeps
    rw [heq]
    exact (and_iff_left hkeeps).symm
  have honJob : ∀ (s : ReadJobs) (id : Int) (f : TransferJob → TransferJob), (s.onJob id f).ended = s.ended := by
    intro s id f
    unfold ReadJobs.onJob
    split <;> rfl
  cases e with
  | readPath id type path fileNum enableOverwriteDetection isLastJob listing =>
    cases listing with
    | error err => exact hsame rfl trivial
    | ok files => exact hsame rfl trivial
  | readBytes id type bytes fileNum enableOverwriteDetection => exact hsame rfl trivial
  | resume id => exact hsame (honJob s id _) trivial
  | confirm disk faults request =>
    refine hsame ?_ trivial
    simp only [ReadJobs.step]
    split <;> exact honJob _ _ _
  | cancel id =>
    refine hsame ?_ trivial
    simp only [ReadJobs.step]
    split <;> rfl
  | tick disk faults =>
    obtain ⟨announced, -, -, hround⟩ := TransferJob.handleReadJobs_cases codec disk faults s.jobs
    rcases hround with ⟨hturn, hround⟩ | ⟨n, job, before, after, hturn, hlast, -, hround⟩
    · refine hsame (by simp [ReadJobs.step, hround]) ?_
      simp [ReadJobs.KeepsFiles, hturn]
    · have hjob : job.Shape := by
        obtain ⟨-, before, after, hjobs, -⟩ := TransferJob.firstTurn_of_some codec disk faults hturn
        exact h.shape job (hjobs ▸ mem_append_right _ mem_cons_self)
      have hloses := (TransferJob.readTurn_ends_early_iff codec disk (faults n)
        (TransferJob.initJob_kept.shape hjob)).trans (TransferJob.initJob_idle_iff disk (faults n) hjob hlast)
      have hkeeps : s.KeepsFiles (.tick disk faults) ↔ job.losesFiles disk (faults n) = false := by
        constructor
        · exact fun hkeeps => hkeeps n job hturn
        · intro hfalse n' job' hturn'
          obtain ⟨rfl, rfl⟩ := Prod.mk.inj (some.inj (hturn.symm.trans hturn'))
          exact hfalse
      rw [hkeeps, ← Bool.not_eq_true, ← hloses]
      simp only [ReadJobs.step, hround]
      cases hended : ((job.initJob disk (faults n)).2.readTurn codec disk (faults n)).2.2 with
      | false => simp
      | true => simp [or_imp, forall_and]

theorem run_sound {s : ReadJobs} (h : s.Sound) (codec : Codec) (events : List ReadEvent) :
    (runEvents (ReadJobs.step codec) s events).Sound :=
  runEvents_invariant_of_step (I := ReadJobs.Sound) (fun _ e hs => hs.step codec e) h events

/-- In a run no job ends with files left exactly if no round loses files. -/
theorem ended_run_iff (h : s.Sound) (codec : Codec) (events : List ReadEvent) :
    (∀ job ∈ (runEvents (ReadJobs.step codec) s events).ended, job.AtEnd) ↔
      (∀ job ∈ s.ended, job.AtEnd) ∧ RunMeets (ReadJobs.step codec) ReadJobs.KeepsFiles s events := by
  induction events generalizing s with
  | nil => exact (and_iff_left trivial).symm
  | cons e events ih =>
    calc (∀ job ∈ (runEvents (ReadJobs.step codec) (s.step codec e) events).ended, job.AtEnd)
        ↔ (∀ job ∈ (s.step codec e).ended, job.AtEnd) ∧
            RunMeets (ReadJobs.step codec) ReadJobs.KeepsFiles (s.step codec e) events := ih (h.step codec e)
      _ ↔ ((∀ job ∈ s.ended, job.AtEnd) ∧ s.KeepsFiles e) ∧
            RunMeets (ReadJobs.step codec) ReadJobs.KeepsFiles (s.step codec e) events := by
          rw [ended_step_iff h]
      _ ↔ (∀ job ∈ s.ended, job.AtEnd) ∧ RunMeets (ReadJobs.step codec) ReadJobs.KeepsFiles s (e :: events) :=
          and_assoc

theorem sound_empty : Sound {} :=
  ⟨fun _ hj => absurd hj not_mem_nil, fun _ hj => absurd hj (by simp), fun _ _ hm => absurd hm not_mem_nil,
    List.Perm.refl _⟩

end ReadJobs

/-- A job announces its end with files left exactly when a round passes over a file that cannot be opened,
or whose metadata cannot be read, while the next file waits for its confirmation. All files before the
last one of a job that has ended are settled in every case, and no job gets lost. -/
theorem ends_after_last_file_iff (codec : Codec) (events : List ReadEvent) :
    let run := runEvents (ReadJobs.step codec) {} events
    ((∀ job ∈ run.ended, job.files.length ≤ asUsize job.fileNum) ↔
        RunMeets (ReadJobs.step codec) ReadJobs.KeepsFiles {} events) ∧
      (∀ id n, .done id n ∈ run.sent → ∃ job ∈ run.ended, job.id = id ∧ job.fileNum = n) ∧
      (∀ job ∈ run.ended, ∃ first, (job.id, first) ∈ run.started ∧
        ∀ k, first ≤ k → k < job.fileNum → run.Settled job.id k) ∧
      (run.started.map Prod.fst).Perm
        (run.jobs.map TransferJob.id ++ run.ended.map TransferJob.id ++ run.cancelled) := by
  intro run
  have hsound : run.Sound := ReadJobs.run_sound ReadJobs.sound_empty codec events
  refine ⟨?_, hsound.announced, fun job hjob => hsound.accounts job (.inr hjob), hsound.numbers⟩
  exact (ReadJobs.ended_run_iff ReadJobs.sound_empty codec events).trans (and_iff_right (by simp))

/-- Two files, of which the first is gone when its turn comes. -/
def firstFileMissing : List ReadEvent :=
  [.readPath 1 .generic "/src" 0 true false (.ok [{ name := "gone" }, { name := "kept" }]),
    .tick (FileSystem.empty.put (locate "/src/kept") [1, 2, 3]) fun _ => {}]

/-- The job ends when the first of its files cannot be opened, before the second one is sent. -/
theorem job_ends_at_missing_file : ∃ job ∈ (runEvents (ReadJobs.step ⟨id, id⟩) {} firstFileMissing).ended,
      asUsize job.fileNum = 1 ∧ job.files.length = 2 := by
  decide

end UnyDesk
