import UnyDesk.Transfer.ManagerRead

/-!
# Confirmations of files that are read

The client answers the digest of a file with a confirmation that carries the number of the file. The
answer may come late, twice or out of order, and the sender may have gone on to another file meanwhile.
A connection serves a job itself or leaves it to the connection manager, in which case the answer
waits in the channel between the two.
-/

namespace UnyDesk

open Lib JobState Option

/-- What a job has decided about one file: it is behind, it is the current one, or it is still to come,
when nothing is decided about it. -/
inductive FileDecision
  | passed
  | current (confirmed isWaiting : Bool) (stream : Option DataStream)

/-- The decision of a job about the file of a number. Whether the last decision was to skip is not a
decision about one file. -/
def TransferJob.decision (job : TransferJob) (fileNum : Int) : FileDecision :=
  if fileNum < job.fileNum then .passed
  else if fileNum = job.fileNum then .current job.fileConfirmed job.fileIsWaiting job.dataStream
  else .current false false none

/-- `FS`, as far as the connection asks the manager about read jobs. -/
inductive ReadRequest
  | readFile (id : Int) (path : String) (fileNum : Int) (overwriteDetection : Bool)
  | cancelRead (id : Int)
  | sendConfirmForRead (confirm : ConfirmForRead)
deriving DecidableEq

/-- The read jobs of a connection and of its manager, and the channels between them. -/
structure ReadSystem where
  readJobs : List TransferJob := []
  cmReadJobIds : Finset Int := ∅
  toManager : List ReadRequest := []
  managerJobs : List TransferJob := []
  toConnection : List ReadData := []
  sent : List FileResponse := []

/-- The listing of a new job, and the reason of `check_file_count_limit` to refuse it. -/
structure Listing where
  files : Except String (List FileEntry)
  refusal : Option String := none

/-- What happens to a connection and its manager. -/
inductive ReadSystemEvent
  | startHere (id : Int) (type : JobType) (source : DataSource) (fileNum : Int) (enableOverwriteDetection : Bool)
      (listing : Listing)
  | startManaged (id : Int) (path : String) (fileNum : Int) (enableOverwriteDetection : Bool)
  | cancel (id : Int)
  | confirm (disk : Disk) (faults : Faults) (request : SendConfirm)
  | tick (disk : Disk) (faults : ℕ → ReadFaults)
  /-- The manager takes the next request. -/
  | manage (disk : Disk) (faults : Faults) (listing : Listing)
  | managerTick (disk : Disk) (faults : ℕ → ReadFaults)
  /-- The connection takes the next answer. -/
  | relay

namespace ReadSystem

/-- `create_and_start_read_job`. -/
def createAndStartReadJob (s : ReadSystem) (id : Int) (type : JobType) (source : DataSource) (fileNum : Int)
    (enableOverwriteDetection : Bool) (listing : Listing) : ReadSystem :=
  match source with
  | .memoryCursor bytes =>
    { s with readJobs := s.readJobs ++ [.newReadBytes id type bytes fileNum enableOverwriteDetection] }
  | .filePath path =>
    match TransferJob.newRead id type path fileNum enableOverwriteDetection listing.files, listing.refusal with
    | .error err, _ => { s with sent := s.sent ++ [.error id err 0] }
    | .ok _, some msg => { s with sent := s.sent ++ [.error id msg (-1)] }
    | .ok job, none => { s with readJobs := s.readJobs ++ [job] }

/-- The branch of `SendConfirm` in `on_message`. A confirmation of a job that is not read is handed on to
the jobs that write. -/
def sendConfirm (s : ReadSystem) (disk : Disk) (faults : Faults) (r : SendConfirm) : ReadSystem :=
  match getJob r.id s.readJobs with
  | some job => { s with readJobs := setJob r.id (JobState.confirmed faults r ⟨job, disk⟩).job s.readJobs }
  | none =>
    if r.id ∈ s.cmReadJobIds then { s with toManager := s.toManager ++ [.sendConfirmForRead r.forRead] } else s

/-- `handle_fs`, for the requests about read jobs. -/
def handleFs (s : ReadSystem) (disk : Disk) (faults : Faults) (listing : Listing) : ReadRequest → ReadSystem
  | .readFile id path fileNum overwriteDetection =>
    match TransferJob.newRead id .generic path fileNum overwriteDetection listing.files, listing.refusal with
    | .error err, _ => { s with toConnection := s.toConnection ++ [.readJobInitResult id (some err)] }
    | .ok _, some msg => { s with toConnection := s.toConnection ++ [.readJobInitResult id (some msg)] }
    | .ok job, none =>
      { s with
        managerJobs := s.managerJobs ++ [job]
        toConnection := s.toConnection ++ [.readJobInitResult id none] }
  | .cancelRead id => { s with managerJobs := TransferJob.removeJob id s.managerJobs }
  | .sendConfirmForRead c => { s with managerJobs := confirmForRead disk (fun _ => faults) c s.managerJobs }

/-- One event. -/
def step (codec : Codec) (s : ReadSystem) : ReadSystemEvent → ReadSystem
  | .startHere id type source fileNum enableOverwriteDetection listing =>
    s.createAndStartReadJob id type source fileNum enableOverwriteDetection listing
  | .startManaged id path fileNum enableOverwriteDetection =>
    { s with
      cmReadJobIds := insert id s.cmReadJobIds
      toManager := s.toManager ++ [.readFile id path fileNum enableOverwriteDetection] }
  | .cancel id =>
    { s with
      cmReadJobIds := s.cmReadJobIds.erase id
      toManager := s.toManager ++ [.cancelRead id]
      readJobs := TransferJob.removeJob id s.readJobs }
  | .confirm disk faults request => s.sendConfirm disk faults request
  | .tick disk faults =>
    let round := TransferJob.handleReadJobs codec disk faults s.readJobs
    { s with readJobs := round.2.1, sent := s.sent ++ round.1 }
  | .manage disk faults listing =>
    match s.toManager with
    | [] => s
    | request :: later => { s with toManager := later }.handleFs disk faults listing request
  | .managerTick disk faults =>
    let round := TransferJob.handleReadJobsTick codec disk faults s.managerJobs
    { s with managerJobs := round.2, toConnection := s.toConnection ++ round.1 }
  | .relay =>
    match s.toConnection with
    | [] => s
    | data :: later =>
      let relayed := UnyDesk.relay s.cmReadJobIds data
      { s with cmReadJobIds := relayed.1, toConnection := later, sent := s.sent ++ relayed.2 }

end ReadSystem

/-- Between the two lists, only the decision of the named job about one file has changed, and nothing has
if that file is not its current one. -/
structure DecidesOnly (id fileNum : Int) (jobs jobs' : List TransferJob) : Prop where
  decisions : List.Forall₂
    (fun job job' => job'.id = job.id ∧ ∀ k, job.id ≠ id ∨ k ≠ fileNum → job'.decision k = job.decision k) jobs jobs'
  noEffect : (∀ job, getJob id jobs = some job → job.fileNum ≠ fileNum) → jobs' = jobs

/-- The job is behind its last file. -/
def TransferJob.pastEnd (job : TransferJob) : Bool :=
  match job.dataSource with
  | .filePath _ => job.currentEntry.isNone
  | .memoryCursor _ => false

/-- The file that the job is at can be opened at an offset. -/
def TransferJob.canSeek (disk : Disk) (faults : Faults) (job : TransferJob) : Bool :=
  match job.dataSource, job.currentEntry with
  | .filePath base, some entry =>
    match job.resolveEntryPath base entry.name faults.resolve with
    | none => false
    | some path =>
      (disk.existsAt (locate path) ||
          disk.existsAt (locate (downloadPath path)) && disk.existsAt (locate (digestPath path))) &&
        faults.reopened && faults.sought
  | _, _ => false

/-- The confirmation ends the process, since it asks for an offset of a file that does not exist. -/
def confirmPanics (disk : Disk) (faults : Faults) (request : TransferJob → SendConfirm) (id : Int)
    (jobs : List TransferJob) : Prop :=
  ∃ job, getJob id jobs = some job ∧ JobState.confirm ⟨job, disk⟩ faults (request job) = none

/-- A confirmation changes the decision about its own file only, where it is taken. -/
def ReadSystem.PerFile (codec : Codec) (s : ReadSystem) (e : ReadSystemEvent) : Prop :=
  match e, s.toManager with
  | .confirm disk faults request, _ =>
    let s' := s.step codec (.confirm disk faults request)
    ¬confirmPanics disk faults (fun _ => request) request.id s.readJobs ∧
      DecidesOnly request.id request.fileNum s.readJobs s'.readJobs ∧ s'.managerJobs = s.managerJobs
  | .manage disk faults listing, .sendConfirmForRead c :: _ =>
    let s' := s.step codec (.manage disk faults listing)
    ¬confirmPanics disk faults c.request c.id s.managerJobs ∧
      DecidesOnly c.id c.fileNum s.managerJobs s'.managerJobs ∧ s'.readJobs = s.readJobs
  | _, _ => True

/-- No offset is confirmed for a job that is behind its last file. The manager takes a confirmation while
the job is at the file it carries, or when it says again what the job has decided. -/
def ReadSystem.TakesCurrent (s : ReadSystem) (e : ReadSystemEvent) : Prop :=
  match e, s.toManager with
  | .confirm _ _ r, _ =>
    ∀ job, getJob r.id s.readJobs = some job → job.fileNum = r.fileNum → ¬(0 < r.offsetBlk ∧ job.pastEnd = true)
  | .manage disk faults _, .sendConfirmForRead c :: _ =>
    ∀ job, getJob c.id s.managerJobs = some job → ¬(c.skip = false ∧ 0 < c.offsetBlk ∧ job.pastEnd = true) ∧
        (job.fileNum = c.fileNum ∨ c.skip = false ∧ job.fileConfirmed = true ∧ job.fileSkipped = false ∧
            (c.offsetBlk = 0 ∨ job.canSeek disk faults = false))
  | _, _ => True

section Job

variable {disk : Disk} {faults : Faults} {job : TransferJob} {r : SendConfirm}

/-- A seek in a file that resolves uses the stream of the unfinished file, if there is one with its digest. -/
theorem setStreamOffset_of_path {base path : String} {entry : FileEntry} (hsource : job.dataSource = .filePath base)
    (hentry : job.currentEntry = some entry) (hpath : job.resolveEntryPath base entry.name faults.resolve = some path)
    (disk : Disk) (offset : ℕ) :
    ∃ opened : Option OpenFile, opened.isSome = (disk.existsAt (locate path) ||
        disk.existsAt (locate (downloadPath path)) && disk.existsAt (locate (digestPath path))) ∧
      setStreamOffset ⟨job, disk⟩ faults job.fileNum offset = match opened, faults.reopened, faults.sought with
        | some file, true, true =>
          some ⟨{ job with
            dataStream := some (.fileStream { file with pos := offset })
            transferred := job.transferred + offset
            finishedSize := job.finishedSize + offset }, disk⟩
        | _, _, _ => some ⟨job, disk⟩ := by
  have hentries : job.files[asUsize job.fileNum]? = job.currentEntry := rfl
  simp only [setStreamOffset, hsource, hentries, hentry, hpath]
  refine ⟨_, ?_, rfl⟩
  cases hdownload : disk.existsAt (locate (downloadPath path)) <;>
    cases hdigest : disk.existsAt (locate (digestPath path)) <;>
      simp_all [FileSystem.existsAt]

/-- What a seek at the current file does: there is a panic where no file is left, nothing where the file
cannot be opened, and a stream at the offset otherwise. -/
theorem setStreamOffset_cases (disk : Disk) (faults : Faults) (job : TransferJob) (offset : ℕ) :
    (job.pastEnd = true ∧ setStreamOffset ⟨job, disk⟩ faults job.fileNum offset = none) ∨ job.pastEnd = false ∧
        ((job.canSeek disk faults = false ∧ setStreamOffset ⟨job, disk⟩ faults job.fileNum offset = some ⟨job, disk⟩) ∨
          (job.canSeek disk faults = true ∧ ∃ stream, setStreamOffset ⟨job, disk⟩ faults job.fileNum offset =
              some ⟨{ job with
                dataStream := some stream
                transferred := job.transferred + offset
                finishedSize := job.finishedSize + offset }, disk⟩)) := by
  obtain ⟨bytes, hsource⟩ | ⟨base, hsource⟩ :
      (∃ bytes, job.dataSource = .memoryCursor bytes) ∨ ∃ base, job.dataSource = .filePath base := by
    cases job.dataSource <;> simp
  · exact .inr ⟨by simp [TransferJob.pastEnd, hsource], .inl ⟨by simp [TransferJob.canSeek, hsource],
      by simp [setStreamOffset, hsource]⟩⟩
  · have hentries : job.files[asUsize job.fileNum]? = job.currentEntry := rfl
    cases hentry : job.currentEntry with
    | none =>
      exact .inl ⟨by simp [TransferJob.pastEnd, hsource, hentry], by simp [setStreamOffset, hsource, hentries, hentry]⟩
    | some entry =>
      refine .inr ⟨by simp [TransferJob.pastEnd, hsource, hentry], ?_⟩
      cases hpath : job.resolveEntryPath base entry.name faults.resolve with
      | none =>
        exact .inl ⟨by simp [TransferJob.canSeek, hsource, hentry, hpath],
          by simp [setStreamOffset, hsource, hentries, hentry, hpath]⟩
      | some path =>
        obtain ⟨opened, hsome, heq⟩ := setStreamOffset_of_path hsource hentry hpath disk offset
        have hseek : job.canSeek disk faults = (opened.isSome && faults.reopened && faults.sought) := by
          simp only [TransferJob.canSeek, hsource, hentry, hpath, hsome]
        rw [heq, hseek]
        cases opened with
        | none => exact .inl ⟨rfl, rfl⟩
        | some file =>
          cases hreopened : faults.reopened with
          | false => exact .inl ⟨by simp, rfl⟩
          | true =>
            cases hsought : faults.sought with
            | false => exact .inl ⟨by simp, rfl⟩
            | true => exact .inr ⟨rfl, _, rfl⟩

/-- A decision about the current file leaves all others alone. -/
theorem decision_of_fileNum {job' : TransferJob} (hnum : job'.fileNum = job.fileNum) {k : Int} (hk : k ≠ job.fileNum) :
    job'.decision k = job.decision k := by
  simp [TransferJob.decision, hnum, hk]

/-- A skipped file is behind, and the next one has no decision yet. -/
theorem decision_setFileSkipped (job : TransferJob) {k : Int} (hk : k ≠ job.fileNum) :
    job.setFileSkipped.decision k = job.decision k := by
  have hnum : job.setFileSkipped.fileNum = job.fileNum + 1 := rfl
  unfold TransferJob.decision
  rw [hnum]
  by_cases hlt : k < job.fileNum
  · rw [if_pos hlt, if_pos (Int.lt_trans hlt (Int.lt_succ job.fileNum))]
  · have hgt : job.fileNum < k := lt_of_le_of_ne (not_lt.mp hlt) (Ne.symm hk)
    rw [if_neg hlt, if_neg hk, if_neg (not_lt.mpr hgt)]
    split <;> rfl

variable (disk faults) in
/-- What a confirmation for the current file does. -/
theorem confirm_current (hnum : job.fileNum = r.fileNum) :
    (0 < r.offsetBlk ∧ job.pastEnd = true ∧ confirm ⟨job, disk⟩ faults r = none) ∨
      ¬(0 < r.offsetBlk ∧ job.pastEnd = true) ∧
        ∃ job', confirm ⟨job, disk⟩ faults r = some ⟨job', disk⟩ ∧ job'.id = job.id ∧
          ∀ k, k ≠ job.fileNum → job'.decision k = job.decision k := by
  unfold confirm
  rw [if_neg (not_not.mpr hnum)]
  match hunion : r.union with
  | none =>
    exact .inr ⟨by simp [SendConfirm.offsetBlk, hunion], job, rfl, rfl, fun _ _ => rfl⟩
  | some (.skip true) =>
    exact .inr ⟨by simp [SendConfirm.offsetBlk, hunion], job.setFileSkipped, rfl, rfl,
      fun k hk => decision_setFileSkipped job hk⟩
  | some (.skip false) =>
    exact .inr ⟨by simp [SendConfirm.offsetBlk, hunion], job.setFileConfirmed true, rfl, rfl,
      fun k hk => decision_of_fileNum (by rfl) hk⟩
  | some (.offsetBlk offset) =>
    have hoffset : r.offsetBlk = offset := by simp [SendConfirm.offsetBlk, hunion]
    rw [hoffset]
    dsimp only
    by_cases hpos : 0 < offset
    · rw [if_pos hpos]
      have hpast : (job.setFileConfirmed true).pastEnd = job.pastEnd := rfl
      have hfile : r.fileNum = (job.setFileConfirmed true).fileNum := hnum.symm
      rw [hfile]
      rcases setStreamOffset_cases disk faults (job.setFileConfirmed true) offset with ⟨hend, heq⟩ |
        ⟨hend, ⟨-, heq⟩ | ⟨-, stream, heq⟩⟩
      · exact .inl ⟨hpos, hpast ▸ hend, heq⟩
      · exact .inr ⟨fun h => by simp [← hpast, hend] at h, _, heq, rfl, fun k hk => decision_of_fileNum (by rfl) hk⟩
      · exact .inr ⟨fun h => by simp [← hpast, hend] at h, _, heq, rfl, fun k hk => decision_of_fileNum (by rfl) hk⟩
    · rw [if_neg hpos]
      exact .inr ⟨fun h => hpos h.1, _, rfl, rfl, fun k hk => decision_of_fileNum (by rfl) hk⟩

variable (disk faults) in
/-- A confirmation for the current file says what the job has decided already, or changes the job. -/
theorem confirm_eq_self_iff (hnum : job.fileNum = r.fileNum) (hunion : r.union.isSome)
    (hpanic : ¬(0 < r.offsetBlk ∧ job.pastEnd = true)) :
    confirm ⟨job, disk⟩ faults r = some ⟨job, disk⟩ ↔
      r.skip = false ∧ job.fileConfirmed = true ∧ job.fileSkipped = false ∧
        (r.offsetBlk = 0 ∨ job.canSeek disk faults = false) := by
  have hset : job.setFileConfirmed true = job ↔ job.fileConfirmed = true ∧ job.fileSkipped = false := by
    constructor
    · intro heq
      rw [← heq]
      exact ⟨rfl, rfl⟩
    · rintro ⟨hconfirmed, hskipped⟩
      cases job
      simp_all [TransferJob.setFileConfirmed]
  unfold confirm
  rw [if_neg (not_not.mpr hnum)]
  match hr : r.union with
  | none => simp [hr] at hunion
  | some (.skip true) =>
    have hne : job.setFileSkipped ≠ job := fun heq => by
      have hcontra : job.fileNum + 1 = job.fileNum := congrArg TransferJob.fileNum heq
      omega
    simp [SendConfirm.skip, hr, hne]
  | some (.skip false) => simp [SendConfirm.skip, SendConfirm.offsetBlk, hr, hset]
  | some (.offsetBlk offset) =>
    have hoffset : r.offsetBlk = offset := by simp [SendConfirm.offsetBlk, hr]
    have hskip : r.skip = false := by simp [SendConfirm.skip, hr]
    rw [hoffset] at hpanic ⊢
    dsimp only
    by_cases hpos : 0 < offset
    · have hfile : r.fileNum = (job.setFileConfirmed true).fileNum := hnum.symm
      have hcan : (job.setFileConfirmed true).canSeek disk faults = job.canSeek disk faults := rfl
      rw [if_pos hpos, hfile]
      rcases setStreamOffset_cases disk faults (job.setFileConfirmed true) offset with ⟨hend, -⟩ |
        ⟨-, ⟨hseek, heq⟩ | ⟨hseek, stream, heq⟩⟩
      · exact absurd ⟨hpos, hend⟩ hpanic
      · simp [heq, hset, hskip, ← hcan, hseek]
      · -- A seek counts the bytes before the offset as sent.
        rw [heq]
        constructor
        · intro hsame
          have hcontra : job.transferred + offset = job.transferred :=
            congrArg (fun js : JobState => js.job.transferred) (some.inj hsame)
          omega
        · rintro ⟨-, -, -, hzero | hfalse⟩
          · omega
          · simp [← hcan, hseek] at hfalse
    · obtain rfl : offset = 0 := Nat.eq_zero_of_not_pos hpos
      simp [hset, hskip]

end Job

section Jobs

variable {id : Int} {job job' : TransferJob} {jobs : List TransferJob}

/-- The named job is the one that a change replaces. -/
theorem setJob_eq_self_iff (h : getJob id jobs = some job) : setJob id job' jobs = jobs ↔ job' = job := by
  induction jobs with
  | nil => simp [getJob] at h
  | cons first jobs ih =>
    rw [getJob_cons] at h
    rw [setJob]
    by_cases hid : first.id = id
    · rw [if_pos hid] at h ⊢
      obtain rfl := some.inj h
      simp
    · rw [if_neg hid] at h ⊢
      simp [ih h]

/-- A change to the named job that keeps its number and all decisions but one. -/
theorem decidesOnly_setJob {fileNum : Int} (h : getJob id jobs = some job) (hid : job'.id = job.id)
    (hdecision : ∀ k, k ≠ fileNum → job'.decision k = job.decision k) :
    List.Forall₂ (fun job job' => job'.id = job.id ∧ ∀ k, job.id ≠ id ∨ k ≠ fileNum → job'.decision k = job.decision k)
      jobs (setJob id job' jobs) := by
  have hsame : ∀ jobs : List TransferJob, List.Forall₂
      (fun job job' => job'.id = job.id ∧ ∀ k, job.id ≠ id ∨ k ≠ fileNum → job'.decision k = job.decision k) jobs jobs :=
    fun jobs => List.forall₂_same.mpr fun _ _ => ⟨rfl, fun _ _ => rfl⟩
  induction jobs with
  | nil => exact .nil
  | cons first jobs ih =>
    rw [getJob_cons] at h
    rw [setJob]
    by_cases hfirst : first.id = id
    · rw [if_pos hfirst] at h ⊢
      obtain rfl := some.inj h
      refine .cons ⟨hid, fun k hk => hdecision k ?_⟩ (hsame jobs)
      exact hk.resolve_left (not_not.mpr hfirst)
    · rw [if_neg hfirst] at h ⊢
      exact .cons ⟨rfl, fun _ _ => rfl⟩ (ih h)

theorem decidesOnly_refl (id fileNum : Int) (jobs : List TransferJob) : DecidesOnly id fileNum jobs jobs :=
  ⟨List.forall₂_same.mpr fun _ _ => ⟨rfl, fun _ _ => rfl⟩, fun _ => rfl⟩

/-- A change that a confirmation makes to a job concerns one file exactly if it is the file of the
confirmation, or nothing changes. -/
theorem decidesOnly_setJob_iff {fileNum : Int} (h : getJob id jobs = some job) (hid : job'.id = job.id)
    (hdecision : ∀ k, k ≠ job.fileNum → job'.decision k = job.decision k) :
    DecidesOnly id fileNum jobs (setJob id job' jobs) ↔ job.fileNum = fileNum ∨ job' = job := by
  constructor
  · intro hdecides
    by_cases hnum : job.fileNum = fileNum
    · exact .inl hnum
    · refine .inr ((setJob_eq_self_iff h).mp (hdecides.noEffect fun found hfound => ?_))
      obtain rfl := some.inj (h.symm.trans hfound)
      exact hnum
  · rintro (rfl | rfl)
    · exact ⟨decidesOnly_setJob h hid hdecision, fun hne => absurd rfl (hne job h)⟩
    · rw [(setJob_eq_self_iff h).mpr rfl]
      exact decidesOnly_refl id fileNum jobs

end Jobs

namespace ReadSystem

variable (codec : Codec) (s : ReadSystem) (disk : Disk) (faults : Faults)

/-- A confirmation of a job that the connection serves itself. -/
theorem perFile_confirm_iff (r : SendConfirm) :
    s.PerFile codec (.confirm disk faults r) ↔ s.TakesCurrent (.confirm disk faults r) := by
  simp only [PerFile, TakesCurrent, step, sendConfirm]
  cases hget : getJob r.id s.readJobs with
  | none =>
    have hpanic : ¬confirmPanics disk faults (fun _ => r) r.id s.readJobs := by
      rintro ⟨job, hjob, -⟩
      simp [hget] at hjob
    refine iff_of_true ⟨hpanic, ?_⟩ (fun _ h => by simp at h)
    dsimp only
    split
    · exact ⟨decidesOnly_refl _ _ _, rfl⟩
    · exact ⟨decidesOnly_refl _ _ _, rfl⟩
  | some job =>
    have hpanics : confirmPanics disk faults (fun _ => r) r.id s.readJobs ↔
        confirm ⟨job, disk⟩ faults r = none := by simp [confirmPanics, hget]
    have htakes : (∀ found, some job = some found → found.fileNum = r.fileNum →
          ¬(0 < r.offsetBlk ∧ found.pastEnd = true)) ↔
        (job.fileNum = r.fileNum → ¬(0 < r.offsetBlk ∧ job.pastEnd = true)) := by simp
    rw [hpanics, htakes]
    by_cases hnum : job.fileNum = r.fileNum
    · rcases confirm_current disk faults hnum with ⟨hpos, hend, hnone⟩ | ⟨hno, job', hsome, hid, hdecision⟩
      · exact iff_of_false (fun h => h.1 hnone) (fun h => h hnum ⟨hpos, hend⟩)
      · have hconfirmed : (confirmed faults r ⟨job, disk⟩).job = job' := by
          rw [confirmed, hsome]
          rfl
        refine iff_of_true ⟨by simp [hsome], ?_, rfl⟩ (fun _ => hno)
        dsimp only
        rw [hconfirmed]
        exact (decidesOnly_setJob_iff hget hid hdecision).mpr (.inl hnum)
    · have hsame : confirm ⟨job, disk⟩ faults r = some ⟨job, disk⟩ := by
        rw [confirm, if_pos hnum]
      have hconfirmed : (confirmed faults r ⟨job, disk⟩).job = job := by
        rw [confirmed, hsame]
        rfl
      refine iff_of_true ⟨by simp [hsame], ?_, rfl⟩ (fun h => absurd h hnum)
      dsimp only
      rw [hconfirmed, (setJob_eq_self_iff hget).mpr rfl]
      exact decidesOnly_refl _ _ _

/-- A confirmation that the manager takes. -/
theorem perFile_manage_iff (listing : Listing) :
    s.PerFile codec (.manage disk faults listing) ↔ s.TakesCurrent (.manage disk faults listing) := by
  unfold PerFile TakesCurrent
  match hqueue : s.toManager with
  | [] => exact Iff.rfl
  | .readFile id path fileNum overwriteDetection :: later => exact Iff.rfl
  | .cancelRead id :: later => exact Iff.rfl
  | .sendConfirmForRead c :: later =>
    simp only [step, hqueue, handleFs, confirmForRead, and_true]
    cases hget : getJob c.id s.managerJobs with
    | none =>
      have hpanic : ¬confirmPanics disk faults c.request c.id s.managerJobs := by
        rintro ⟨job, hjob, -⟩
        simp [hget] at hjob
      exact iff_of_true ⟨hpanic, decidesOnly_refl _ _ _⟩ (fun _ h => by simp at h)
    | some job =>
      -- The request that the manager makes is always for the current file.
      have hnum : job.fileNum = (c.request job).fileNum := rfl
      have hunion : (c.request job).union.isSome := by
        unfold ConfirmForRead.request
        split <;> rfl
      have hskip : (c.request job).skip = c.skip := by
        unfold ConfirmForRead.request SendConfirm.skip
        cases c.skip <;> rfl
      have hoffset : 0 < (c.request job).offsetBlk ↔ c.skip = false ∧ 0 < c.offsetBlk := by
        unfold ConfirmForRead.request SendConfirm.offsetBlk
        cases c.skip <;> simp
      have hzero : c.skip = false → (c.request job).offsetBlk = c.offsetBlk := by
        intro hfalse
        simp [ConfirmForRead.request, SendConfirm.offsetBlk, hfalse]
      have hpanics : confirmPanics disk faults c.request c.id s.managerJobs ↔
          JobState.confirm ⟨job, disk⟩ faults (c.request job) = none := by simp [confirmPanics, hget]
      have htakes : (∀ found, some job = some found → ¬(c.skip = false ∧ 0 < c.offsetBlk ∧ found.pastEnd = true) ∧
              (found.fileNum = c.fileNum ∨ c.skip = false ∧ found.fileConfirmed = true ∧ found.fileSkipped = false ∧
                (c.offsetBlk = 0 ∨ found.canSeek disk faults = false))) ↔
          ¬(c.skip = false ∧ 0 < c.offsetBlk ∧ job.pastEnd = true) ∧
            (job.fileNum = c.fileNum ∨ c.skip = false ∧ job.fileConfirmed = true ∧ job.fileSkipped = false ∧
              (c.offsetBlk = 0 ∨ job.canSeek disk faults = false)) := by simp
      have hpast : (c.skip = false ∧ 0 < c.offsetBlk ∧ job.pastEnd = true) ↔
          0 < (c.request job).offsetBlk ∧ job.pastEnd = true := by rw [hoffset, and_assoc]
      rw [hpanics, htakes, hpast]
      rcases confirm_current disk faults hnum with ⟨hpos, hend, hnone⟩ | ⟨hno, job', hsome, hid, hdecision⟩
      · exact iff_of_false (fun h => h.1 hnone) (fun h => h.1 ⟨hpos, hend⟩)
      · have hconfirmed : (JobState.confirmed faults (c.request job) ⟨job, disk⟩).job = job' := by
          rw [JobState.confirmed, hsome]
          rfl
        have hself : job' = job ↔ c.skip = false ∧ job.fileConfirmed = true ∧ job.fileSkipped = false ∧
            (c.offsetBlk = 0 ∨ job.canSeek disk faults = false) := by
          have hiff := confirm_eq_self_iff disk faults hnum hunion hno
          rw [hsome, hskip] at hiff
          simp only [some.injEq, JobState.mk.injEq, and_true] at hiff
          refine hiff.trans (and_congr_right fun hfalse => ?_)
          rw [hzero hfalse]
        dsimp only
        rw [hconfirmed, decidesOnly_setJob_iff hget hid hdecision, hself]
        exact ⟨fun h => ⟨hno, h.2⟩, fun h => ⟨by simp [hsome], h.2⟩⟩

end ReadSystem

/-- In a run, a confirmation changes the decision about its own file only, each time one is taken, exactly
if the manager takes confirmations while their file is the current one, or when they say nothing new, and
no offset is confirmed for a job behind its last file. -/
theorem confirmations_per_file_iff (codec : Codec) (s : ReadSystem) (events : List ReadSystemEvent) :
    RunMeets (ReadSystem.step codec) (ReadSystem.PerFile codec) s events ↔
      RunMeets (ReadSystem.step codec) ReadSystem.TakesCurrent s events := by
  have hstep : ∀ (s : ReadSystem) (e : ReadSystemEvent), s.PerFile codec e ↔ s.TakesCurrent e := by
    intro s e
    cases e with
    | confirm disk faults request => exact ReadSystem.perFile_confirm_iff codec s disk faults request
    | manage disk faults listing => exact ReadSystem.perFile_manage_iff codec s disk faults listing
    | startHere => exact Iff.rfl
    | startManaged => exact Iff.rfl
    | cancel => exact Iff.rfl
    | tick => exact Iff.rfl
    | managerTick => exact Iff.rfl
    | relay => exact Iff.rfl
  induction events generalizing s with
  | nil => exact Iff.rfl
  | cons e events ih => exact and_congr (hstep s e) (ih (s.step codec e))

/-- The files of a job with two entries. -/
def pairDisk : Disk :=
  (FileSystem.empty.put (locate "/src/first") [1]).put (locate "/src/second") [2]

/-- The first of two files is confirmed twice and sent to its end, while the second confirmation waits in
the channel. -/
def confirmedTwice : List ReadSystemEvent :=
  [.startManaged 1 "/src" 0 true, .manage pairDisk {} ⟨.ok [{ name := "first" }, { name := "second" }], none⟩,
    .managerTick pairDisk fun _ => {}, .confirm pairDisk {} ⟨1, 0, some (.offsetBlk 0)⟩,
    .confirm pairDisk {} ⟨1, 0, some (.offsetBlk 0)⟩, .manage pairDisk {} ⟨.ok [], none⟩,
    .managerTick pairDisk fun _ => {}, .managerTick pairDisk fun _ => {}, .managerTick pairDisk fun _ => {}]

/-- The second confirmation of the first file lets the second file be sent. -/
theorem second_confirmation_confirms_next_file : ¬RunMeets (ReadSystem.step ⟨id, id⟩) (ReadSystem.PerFile ⟨id, id⟩) {}
      (confirmedTwice ++ [.manage pairDisk {} ⟨.ok [], none⟩]) := by
  intro h
  have hlast := (ReadSystem.perFile_manage_iff _ _ _ _ _).mp (runMeets_append.mp h).2.1
  have hqueue : (runEvents (ReadSystem.step ⟨id, id⟩) {} confirmedTwice).toManager =
      [.sendConfirmForRead ⟨1, 0, false, 0⟩] := by decide
  have hjob : (getJob 1 (runEvents (ReadSystem.step ⟨id, id⟩) {} confirmedTwice).managerJobs).map
      (fun job => (job.fileNum, job.fileConfirmed)) = some (1, false) := by decide
  obtain ⟨job, hget, heq⟩ := Option.map_eq_some_iff.mp hjob
  obtain ⟨hnum, hconfirmed⟩ := Prod.mk.inj heq
  simp only [ReadSystem.TakesCurrent, hqueue] at hlast
  have hcontra := (hlast job hget).2
  simp [hnum, hconfirmed] at hcontra

end UnyDesk
