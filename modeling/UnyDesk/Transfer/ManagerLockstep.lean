import UnyDesk.Transfer.Confirmation
import UnyDesk.Transfer.ManagerRefinement

/-!
# The manager and the connection over the same jobs

Where no file fails, the loop of the manager and the loop of the connection go through the same jobs
round by round. The connection opens all jobs in every round and so asks for a confirmation of jobs
that wait for their turn, ahead of the manager.
-/

namespace UnyDesk

open Lib FileResponse ManagedReads TransferJob List Option Bool

variable {marks : List PairedJob} {e : RoundEvent}

namespace TransferJob

/-- All files of the job can be read. -/
def AllReadable (sys : StaticSystem) (job : TransferJob) : Prop :=
  ∀ base, job.dataSource = .filePath base → ∀ f ∈ job.files,
    (sys.disk.names (locate (joinPath base f.name))).isSome ∧ ∀ pos, (sys.reads (joinPath base f.name) pos).Clean

/-- A job of the manager over files that can be read. -/
structure Healthy (sys : StaticSystem) (job : TransferJob) : Prop where
  isLastJob : job.isLastJob = false
  source : ∃ base, job.dataSource = .filePath base
  shape : job.Shape
  readable : job.AllReadable sys
  waiting : job.fileIsWaiting = true → job.currentEntry.isSome ∧ job.dataStream.isSome

variable {codec : Codec} {sys : StaticSystem} {job job' : TransferJob}

/-- The job was changed without a change to its files. -/
theorem Healthy.of_kept (h : job.Healthy sys) (hkept : job.Kept job') (hsource : job'.dataSource = job.dataSource)
    (hwaiting : job'.fileIsWaiting = true → job'.currentEntry.isSome ∧ job'.dataStream.isSome) : job'.Healthy sys := by
  refine ⟨hkept.isLastJob.trans h.isLastJob, hsource ▸ h.source, hkept.shape h.shape, ?_, hwaiting⟩
  intro base hbase f hf
  rw [hsource] at hbase
  rw [hkept.files] at hf
  exact h.readable base hbase f hf

theorem Healthy.readFaults (h : job.Healthy sys) (hentry : job.currentEntry.isSome) :
    (sys.readFaults job).Clean ∧ ∃ base f, job.dataSource = .filePath base ∧ job.currentEntry = some f ∧
      (sys.disk.names (locate (joinPath base f.name))).isSome := by
  obtain ⟨base, hsource⟩ := h.source
  obtain ⟨f, hf⟩ := isSome_iff_exists.mp hentry
  obtain ⟨hnames, hclean⟩ := h.readable base hsource f (mem_of_getElem? hf)
  refine ⟨?_, base, f, hsource, hf, hnames⟩
  have hpath : job.currentPath = some (joinPath base f.name) := by simp only [currentPath, hsource, hf]
  simp only [StaticSystem.readFaults, hpath]
  exact hclean job.position

/-- Opening a job behind its last file. -/
theorem openDataStream_of_none (disk : Disk) (faults : ReadFaults) {base : String}
    (hsource : job.dataSource = .filePath base) (hentry : job.currentEntry = none) :
    job.openDataStream disk faults = (.ok true, { job with dataStream := none }) := by
  unfold openDataStream
  split
  next => rw [hentry]
  next hbytes => simp [hsource] at hbytes

/-- The first half of a round of a job whose files can be read: there is no file left, or the file is open
and confirmed, or asked for. -/
theorem Healthy.initJob_cases (h : job.Healthy sys) :
    (job.currentEntry = none ∧ job.initJob sys.disk (sys.readFaults job) = ([], { job with dataStream := none })) ∨
      job.currentEntry.isSome ∧ ∃ sent opened, job.initJob sys.disk (sys.readFaults job) = (sent, opened) ∧
        (∀ m ∈ sent, m.isError = false ∧ m.id = job.id) ∧ job.Kept opened ∧ opened.dataSource = job.dataSource ∧
        opened.fileNum = job.fileNum ∧ opened.dataStream.isSome ∧ opened.position = job.position ∧
        opened.needsDigest = false ∧ (job.fileIsWaiting = true → sent = [] ∧ opened = job) := by
  cases hentry : job.currentEntry with
  | none =>
    obtain ⟨base, hsource⟩ := h.source
    have hopen := openDataStream_of_none sys.disk (sys.readFaults job) hsource hentry
    exact .inl ⟨rfl, by simp only [initJob, h.isLastJob, false_eq_true, if_false, initDataStream, hopen]⟩
  | some entry =>
    obtain ⟨hclean, base, f, hsource, hf, hnames⟩ := h.readFaults (isSome_iff_exists.mpr ⟨entry, hentry⟩)
    obtain rfl := some.inj (hentry.symm.trans hf)
    refine .inr ⟨rfl, ?_⟩
    -- A file that is open is asked for, if that was not done yet.
    have hask : ∀ opened : TransferJob, job.openDataStream sys.disk (sys.readFaults job) = (.ok false, opened) →
        job.Kept opened → opened.dataSource = job.dataSource → opened.fileNum = job.fileNum →
        opened.dataStream.isSome → opened.position = job.position →
        (job.fileIsWaiting = true → opened = job) →
        ∃ sent opened, job.initJob sys.disk (sys.readFaults job) = (sent, opened) ∧
          (∀ m ∈ sent, m.isError = false ∧ m.id = job.id) ∧ job.Kept opened ∧ opened.dataSource = job.dataSource ∧
          opened.fileNum = job.fileNum ∧ opened.dataStream.isSome ∧ opened.position = job.position ∧
          opened.needsDigest = false ∧ (job.fileIsWaiting = true → sent = [] ∧ opened = job) := by
      intro opened hopen hkept hdata hnum hstream hposition hsame
      cases hneeds : opened.needsDigest with
      | false =>
        refine ⟨[], opened, ?_, by simp, hkept, hdata, hnum, hstream, hposition, hneeds, fun hw => ⟨rfl, hsame hw⟩⟩
        simp only [initJob, h.isLastJob, false_eq_true, if_false, initDataStream, hopen, hneeds]
      | true =>
        have hopened : opened.currentEntry.isSome := by
          rw [currentEntry, hkept.files, hnum]
          exact isSome_iff_exists.mpr ⟨entry, hentry⟩
        have hok := getCurrentDigest_isOk sys.disk (sys.readFaults job) (hkept.shape h.shape) hopened hstream
        rw [hclean.2.1] at hok
        rcases hdigest : opened.getCurrentDigest sys.disk (sys.readFaults job) with e | digest
        · simp [hdigest, Except.isOk, Except.toBool] at hok
        · refine ⟨[.digest opened.id opened.fileNum digest.1 digest.2 opened.isResume],
            { opened with fileIsWaiting := true }, ?_, ?_, hkept.trans ⟨rfl, rfl, rfl, rfl, rfl, fun h => h⟩, hdata, hnum,
            hstream, hposition, by simp [needsDigest], fun hw => ?_⟩
          · simp only [initJob, h.isLastJob, false_eq_true, if_false, initDataStream, hopen, hneeds, if_true, hdigest]
          · intro m hm
            obtain rfl := mem_singleton.mp hm
            exact ⟨rfl, hkept.id⟩
          · rw [hsame hw] at hneeds
            simp [needsDigest, hw] at hneeds
    cases hstream : job.dataStream with
    | some stream =>
      refine hask job ?_ (.refl job) rfl rfl (by simp [hstream]) rfl fun _ => rfl
      simp only [openDataStream, hsource, hentry, hstream]
    | none =>
      obtain ⟨inode, hinode⟩ := isSome_iff_exists.mp hnames
      let opened : TransferJob :=
        { job with
          dataStream := some (.fileStream { path := joinPath base entry.name, inode, writable := false })
          fileConfirmed := false
          fileIsWaiting := false }
      have hkept : job.Kept opened := ⟨rfl, rfl, rfl, rfl, rfl, fun _ => by simp [Shape, opened, hsource]⟩
      refine hask opened ?_ hkept rfl rfl rfl ?_ fun hw => ?_
      · simp only [openDataStream, hsource, hentry, hstream, openFile, hclean.1, hinode, opened]
      · simp [position, opened, hstream]
      · have hcontra := (h.waiting hw).2
        simp [hstream] at hcontra

/-- The job after the first half of a round. -/
def ahead (sys : StaticSystem) (job : TransferJob) : TransferJob := (job.initJob sys.disk (sys.readFaults job)).2

/-- What the first half of a round sends. -/
def asks (sys : StaticSystem) (job : TransferJob) : List FileResponse :=
  (job.initJob sys.disk (sys.readFaults job)).1

section

variable (h : job.Healthy sys)
include h

/-- Opening a job sends no error, and opening it again does nothing. -/
theorem Healthy.ahead :
    job.Kept (job.ahead sys) ∧ (job.ahead sys).Healthy sys ∧ sys.readFaults (job.ahead sys) = sys.readFaults job ∧
      (∀ m ∈ job.asks sys, m.isError = false ∧ m.id = job.id) ∧
      (job.ahead sys).initJob sys.disk (sys.readFaults job) = ([], job.ahead sys) ∧
      ((job.ahead sys).currentEntry.isSome → (job.ahead sys).dataStream.isSome) := by
  obtain ⟨base, hsource⟩ := h.source
  rcases h.initJob_cases with ⟨hentry, hinit⟩ | ⟨hentry, sent, opened, hinit, hsent, hkept, hdata, hnum, hstream, hposition,
    hneeds, -⟩
  · have hahead : job.ahead sys = { job with dataStream := none } := by rw [TransferJob.ahead, hinit]
    have hasks : job.asks sys = [] := by rw [asks, hinit]
    have hnone : (job.ahead sys).currentEntry = none := by rw [hahead]; exact hentry
    have hkept : job.Kept (job.ahead sys) := by
      rw [hahead]
      exact ⟨rfl, rfl, rfl, rfl, rfl, fun h => h.withoutStream _ _ _ _⟩
    have hsource' : (job.ahead sys).dataSource = job.dataSource := by rw [hahead]
    have hwaiting : (job.ahead sys).fileIsWaiting = job.fileIsWaiting := by rw [hahead]
    refine ⟨hkept, h.of_kept hkept hsource' fun hw => ?_, ?_, by simp [hasks], ?_, by simp [hnone]⟩
    · have hcontra := (h.waiting (hwaiting.symm.trans hw)).1
      simp [hentry] at hcontra
    · simp only [StaticSystem.readFaults, currentPath, hsource', hsource, hnone, hentry, Option.elim]
    · have hopen : (job.ahead sys).openDataStream sys.disk (sys.readFaults job) = (.ok true, job.ahead sys) := by
        rw [openDataStream_of_none _ _ (hsource'.trans hsource) hnone, hahead]
      simp only [initJob, hkept.isLastJob, h.isLastJob, false_eq_true, if_false, initDataStream, hopen]
  · have hahead : job.ahead sys = opened := by rw [TransferJob.ahead, hinit]
    have hasks : job.asks sys = sent := by rw [asks, hinit]
    have hsome : opened.currentEntry = job.currentEntry := by rw [currentEntry, hkept.files, hnum, currentEntry]
    rw [hahead, hasks]
    refine ⟨hkept, h.of_kept hkept hdata fun _ => ⟨hsome ▸ hentry, hstream⟩, ?_, hsent, ?_, fun _ => hstream⟩
    · simp only [StaticSystem.readFaults, currentPath, hdata, hsome, hposition]
    · obtain ⟨entry, hf⟩ := Option.isSome_iff_exists.mp hentry
      obtain ⟨stream, hs⟩ := Option.isSome_iff_exists.mp hstream
      have hopen : opened.openDataStream sys.disk (sys.readFaults job) = (.ok false, opened) := by
        simp only [openDataStream, hdata, hsource, hsome, hf, hs]
      simp only [initJob, hkept.isLastJob, h.isLastJob, false_eq_true, if_false, initDataStream, hopen, hneeds]

/-- A job whose files can be read reports an error at its end only. -/
theorem Healthy.readTurn_error (codec : Codec) {faults : ReadFaults}
    (hclean : job.currentEntry.isSome → faults.Clean) (hopen : job.currentEntry.isSome → job.dataStream.isSome)
    (herror : (job.readTurn codec sys.disk faults).1.any isError = true) :
    (job.readTurn codec sys.disk faults).2.2 = true := by
  have hread : ∀ e job', job.read codec sys.disk faults ≠ (.error e, job') := by
    intro e job' hread
    obtain ⟨base, hsource⟩ := h.source
    unfold read at hread
    split at hread
    next => simp at hread
    next =>
      rw [hsource] at hread
      cases hentry : job.currentEntry with
      | none => simp [hentry] at hread
      | some entry =>
        have hsome : job.currentEntry.isSome := isSome_iff_exists.mpr ⟨entry, hentry⟩
        obtain ⟨stream, hstream⟩ := isSome_iff_exists.mp (hopen hsome)
        have hfill := fillBuffer_eq (hclean hsome).2.2 (stream.rest sys.disk) (show 0 < bufSize by simp [bufSize])
        simp [hentry, hstream, hfill] at hread
  unfold readTurn at herror ⊢
  rcases hresult : job.read codec sys.disk faults with ⟨e | (_ | block), job'⟩
  · exact absurd hresult (hread e job')
  · simp only [hresult] at herror ⊢
    by_cases hcompleted : job'.jobCompleted = true
    · simp only [hcompleted, if_true]
      cases job'.jobError <;> rfl
    · simp [hcompleted] at herror
  · simp [hresult, isError] at herror

/-- The second half of a round leaves a job one whose files can be read. -/
theorem Healthy.readTurn (codec : Codec) (faults : ReadFaults) :
    (job.readTurn codec sys.disk faults).2.1.Healthy sys := by
  have hnext : job.nextFile.Healthy sys := h.of_kept (kept_nextFile job) rfl fun hw => Bool.noConfusion hw
  have hclosed : job.AtEnd → ({ job with dataStream := none } : TransferJob).Healthy sys := by
    intro hend
    refine h.of_kept ⟨rfl, rfl, rfl, rfl, rfl, fun h => h.withoutStream _ _ _ _⟩ rfl fun hw => ?_
    have hcontra := (h.waiting hw).1
    simp [atEnd_iff.mp hend] at hcontra
  have hnone : ∀ job', job.read codec sys.disk faults = (.ok none, job') →
      (job.readTurn codec sys.disk faults).2.1 = job' := by
    intro job' hread
    simp only [TransferJob.readTurn, hread]
    split
    · split <;> rfl
    · rfl
  rcases read_cases codec sys.disk faults h.shape with ⟨-, -, -, hread⟩ | ⟨hend, hread⟩ | ⟨e, hread⟩ | ⟨e, hread⟩ |
    hread | ⟨block, job', hread, hpiece⟩
  · rw [hnone _ hread]
    exact h
  · rw [hnone _ hread]
    exact hclosed hend
  · simp only [TransferJob.readTurn, hread]
    exact h
  · simp only [TransferJob.readTurn, hread]
    exact hnext
  · simp only [TransferJob.readTurn, hread]
    exact hnext
  · simp only [TransferJob.readTurn, hread]
    refine h.of_kept hpiece.kept hpiece.source fun hw => ⟨?_, hpiece.stream⟩
    rw [currentEntry, hpiece.kept.files, hpiece.fileNum]
    exact (h.waiting (hpiece.fileIsWaiting ▸ hw)).1

/-- A job whose files can be read is served without an error of the files, and stays one. -/
theorem Healthy.serve (codec : Codec) :
    ((job.serve codec sys).2.2 || (job.serve codec sys).1.any isError) = (job.serve codec sys).2.2 ∧
      upToError (job.serve codec sys).1 = (job.serve codec sys).1 ∧
      ((job.serve codec sys).2.2 = false → (job.serve codec sys).2.1.Healthy sys) ∧
      (job.initReadJobForCm sys.disk (sys.readFaults job)).1 = none := by
  obtain ⟨hkept, hahead, hfaults, hasks, -, hopen⟩ := h.ahead
  have hturn : ((job.ahead sys).readTurn codec sys.disk (sys.readFaults job)).1.any isError = true →
      ((job.ahead sys).readTurn codec sys.disk (sys.readFaults job)).2.2 = true := by
    exact hahead.readTurn_error codec (hfaults ▸ fun hentry => (hahead.readFaults hentry).1) hopen
  have hnone : (job.asks sys).any isError = false := by
    rw [List.any_eq_false]
    exact fun m hm => by simp [(hasks m hm).1]
  have hserve : job.serve codec sys = (job.asks sys ++ ((job.ahead sys).readTurn codec sys.disk (sys.readFaults job)).1,
        ((job.ahead sys).readTurn codec sys.disk (sys.readFaults job)).2) := rfl
  obtain ⟨hlength, -, -⟩ := readTurn_sent codec sys.disk (sys.readFaults job) hahead.shape
  rw [hserve]
  refine ⟨?_, ?_, fun _ => ?_, ?_⟩
  · rw [List.any_append, hnone, Bool.false_or]
    cases hany : ((job.ahead sys).readTurn codec sys.disk (sys.readFaults job)).1.any isError with
    | false => simp
    | true => simp [hturn hany]
  · rw [upToError_append fun m hm => (hasks m hm).1, upToError_of_length hlength]
  · exact hahead.readTurn codec (sys.readFaults job)
  · rw [initReadJobForCm_eq]
    have hinit : (job.initDataStream sys.disk (sys.readFaults job)).1.isSome → (job.asks sys).any isError = true := by
      intro hsome
      obtain ⟨e, he⟩ := Option.isSome_iff_exists.mp hsome
      rcases hdata : job.initDataStream sys.disk (sys.readFaults job) with ⟨err, sent, opened⟩
      rw [hdata] at he
      obtain rfl : err = some e := he
      simp [asks, initJob, h.isLastJob, hdata, isError]
    rw [hnone] at hinit
    simpa using hinit

/-- A confirmation leaves a job one whose files can be read. -/
theorem Healthy.confirmed (faults : Faults) (r : SendConfirm) (disk : Disk) :
    (JobState.confirmed faults r ⟨job, disk⟩).job.Healthy sys := by
  by_cases hnum : job.fileNum = r.fileNum
  · have hset : (job.setFileConfirmed true).Healthy sys :=
      h.of_kept ⟨rfl, rfl, rfl, rfl, rfl, fun h => h⟩ rfl h.waiting
    unfold JobState.confirmed JobState.confirm
    rw [if_neg (not_not.mpr hnum)]
    match r.union with
    | none => exact h
    | some (.skip true) =>
      exact h.of_kept ⟨rfl, rfl, rfl, rfl, rfl, fun h => h.withoutStream _ _ _ _⟩ rfl fun hw => Bool.noConfusion hw
    | some (.skip false) => exact hset
    | some (.offsetBlk offset) =>
      dsimp only
      split
      next =>
        have hfile : r.fileNum = (job.setFileConfirmed true).fileNum := hnum.symm
        rw [hfile]
        rcases setStreamOffset_cases disk faults (job.setFileConfirmed true) offset with ⟨-, heq⟩ |
          ⟨-, ⟨-, heq⟩ | ⟨-, stream, heq⟩⟩
        · rw [heq]
          exact h
        · rw [heq]
          exact hset
        · obtain ⟨hkept, -⟩ := ReadJobs.setStreamOffset_kept heq
          rw [heq]
          exact hset.of_kept hkept rfl fun hw => ⟨(hset.waiting hw).1, rfl⟩
      next => exact hset
  · have hsame : JobState.confirm ⟨job, disk⟩ faults r = some ⟨job, disk⟩ := by
      rw [JobState.confirm, if_pos hnum]
    rw [JobState.confirmed, hsame]
    exact h

end

end TransferJob

/-- The messages about a job. -/
def DirectReads.sentFor (d : DirectReads) (id : Int) : List FileResponse := d.sent.filter fun m => m.id = id

/-- A confirmation answers the digest that the manager has sent for the current file of a job. -/
def ManagedReads.AnswersDigest (s : ManagedReads) : RoundEvent → Prop
  | .tick => True
  | .confirm r => ∀ job, getJob r.id s.jobs = some job →
      job.fileIsWaiting = true ∧ job.fileNum = r.fileNum ∧ r.union.isSome

/-- A job of the manager, and whether the connection has opened it already. -/
structure PairedJob where
  job : TransferJob
  isAhead : Bool

namespace PairedJob

section

variable (sys : StaticSystem)

/-- The job, as the connection has it. -/
def direct (p : PairedJob) : TransferJob := if p.isAhead then p.job.ahead sys else p.job

/-- What the connection has sent ahead of the manager. -/
def sentAhead (p : PairedJob) : List FileResponse := if p.isAhead then p.job.asks sys else []

/-- What the connection sends when it opens the job. -/
def opens (p : PairedJob) : List FileResponse := if p.isAhead then [] else p.job.asks sys

end

variable {sys : StaticSystem} {p : PairedJob}

theorem sentAhead_append_opens (sys : StaticSystem) (p : PairedJob) : p.sentAhead sys ++ p.opens sys = p.job.asks sys := by
  unfold sentAhead opens
  split
  · exact append_nil _
  · rfl

section

variable (h : p.job.Healthy sys)
include h

theorem direct_kept : p.job.Kept (p.direct sys) := by
  unfold direct
  split
  · exact h.ahead.1
  · exact .refl p.job

theorem readFaults_direct : sys.readFaults (p.direct sys) = sys.readFaults p.job := by
  unfold direct
  split
  · exact h.ahead.2.2.1
  · rfl

/-- Whether it was opened before or not, a round of the connection leaves the job open. -/
theorem initJob_direct :
    (p.direct sys).initJob sys.disk (sys.readFaults (p.direct sys)) = (p.opens sys, p.job.ahead sys) := by
  rw [readFaults_direct h]
  unfold direct opens
  split
  · exact h.ahead.2.2.2.2.1
  · rfl

/-- A job that waits for a confirmation is the same on both sides. -/
theorem of_waiting (hwaiting : p.job.fileIsWaiting = true) :
    p.direct sys = p.job ∧ p.sentAhead sys = [] := by
  have hahead : p.job.ahead sys = p.job ∧ p.job.asks sys = [] := by
    rcases h.initJob_cases with ⟨hentry, -⟩ | ⟨-, sent, opened, hinit, -, -, -, -, -, -, -, hsame⟩
    · have hcontra := (h.waiting hwaiting).1
      simp [hentry] at hcontra
    · obtain ⟨rfl, rfl⟩ := hsame hwaiting
      exact ⟨by rw [ahead, hinit], by rw [asks, hinit]⟩
  unfold direct sentAhead
  split
  · exact hahead
  · exact ⟨rfl, rfl⟩

end

end PairedJob

/-- The two sides have the same jobs, and the connection is ahead by what opening some of them sends. -/
structure Lockstep (sys : StaticSystem) (s : ManagedReads) (d : DirectReads) (marks : List PairedJob) : Prop where
  steady : s.Steady
  managed : s.jobs = marks.map PairedJob.job
  direct : d.jobs = marks.map (PairedJob.direct sys)
  healthy : ∀ p ∈ marks, p.job.Healthy sys
  sent : ∀ id, d.sentFor id = s.sentFor id ++ (marks.filter fun p => p.job.id = id).flatMap (PairedJob.sentAhead sys)

namespace Lockstep

variable {codec : Codec} {sys : StaticSystem} {s : ManagedReads} {d : DirectReads} {marks : List PairedJob}
  {rest : List PairedJob} {p : PairedJob}

theorem map_id (h : Lockstep sys s d marks) : d.jobs.map TransferJob.id = s.jobs.map TransferJob.id := by
  rw [h.direct, h.managed, List.map_map, List.map_map]
  exact List.map_congr_left fun p hp => (PairedJob.direct_kept (h.healthy p hp)).id

/-- The messages of the first half of a round, by job. -/
theorem filter_opens (h : Lockstep sys s d marks) (id : Int) :
    (marks.flatMap (PairedJob.opens sys)).filter (fun m => m.id = id) =
      (marks.filter fun p => p.job.id = id).flatMap (PairedJob.opens sys) := by
  have hids : ∀ p ∈ marks, ∀ m ∈ p.opens sys, m.id = p.job.id := by
    intro p hp m hm
    unfold PairedJob.opens at hm
    split at hm
    · simp at hm
    · exact ((h.healthy p hp).ahead.2.2.2.1 m hm).2
  clear h
  induction marks with
  | nil => rfl
  | cons p marks ih =>
    have hrest := ih fun q hq => hids q (mem_cons_of_mem _ hq)
    rw [flatMap_cons, filter_append, hrest, filter_cons]
    rw [filter_of_id (hids p mem_cons_self)]
    by_cases hid : p.job.id = id
    · rw [if_pos hid, if_pos (decide_eq_true hid), flatMap_cons]
    · rw [if_neg hid, if_neg (by simpa using hid), nil_append]

/-- A round of the connection opens all jobs and serves the first one. -/
theorem handleReadJobs_paired (codec : Codec) (hhealthy : ∀ q ∈ p :: rest, q.job.Healthy sys) :
    let jobs := (p :: rest).map (PairedJob.direct sys)
    let turn := (p.job.ahead sys).readTurn codec sys.disk (sys.readFaults p.job)
    handleReadJobs codec sys.disk (sys.faultsOf jobs) jobs = ((p :: rest).flatMap (PairedJob.opens sys) ++ turn.1,
        if turn.2.2 then rest.map fun q => q.job.ahead sys else turn.2.1 :: rest.map fun q => q.job.ahead sys,
        if turn.2.2 then some turn.2.1 else none) := by
  intro jobs turn
  have hopened : (jobs.mapIdx fun n job => job.initJob sys.disk (sys.faultsOf jobs n)) =
      (p :: rest).map fun q => (q.opens sys, q.job.ahead sys) := by
    refine List.ext_getElem? fun n => ?_
    rw [List.getElem?_mapIdx]
    cases hq : (p :: rest)[n]? with
    | none =>
      have hjob : jobs[n]? = none := by rw [List.getElem?_map, hq, Option.map_none]
      rw [hjob, List.getElem?_map, hq, Option.map_none, Option.map_none]
    | some q =>
      have hjob : jobs[n]? = some (q.direct sys) := by rw [List.getElem?_map, hq, Option.map_some]
      have hfaults : sys.faultsOf jobs n = sys.readFaults (q.direct sys) := by
        rw [StaticSystem.faultsOf, hjob]
        rfl
      rw [hjob, List.getElem?_map, hq, Option.map_some, Option.map_some, hfaults,
        PairedJob.initJob_direct (hhealthy q (List.mem_of_getElem? hq))]
  have hp : p.job.Healthy sys := hhealthy p List.mem_cons_self
  have hfirst : sys.faultsOf jobs 0 = sys.readFaults p.job := PairedJob.readFaults_direct hp
  have hlast : (p.job.ahead sys).isLastJob = false := hp.ahead.2.1.isLastJob
  have hmessages : (((p :: rest).map fun q => (q.opens sys, q.job.ahead sys)).map Prod.fst).flatten =
      (p :: rest).flatMap (PairedJob.opens sys) := by
    rw [List.map_map, List.flatMap_def]
    rfl
  have hjobs : ((p :: rest).map fun q => (q.opens sys, q.job.ahead sys)).map Prod.snd =
      p.job.ahead sys :: rest.map fun q => q.job.ahead sys := by
    rw [List.map_map]
    rfl
  simp only [handleReadJobs, hopened, hmessages, hjobs, firstTurn, hlast, false_eq_true, if_false, hfirst]
  change _ = (_, if turn.2.2 then _ else _, _)
  cases hended : turn.2.2 with
  | false => simp [turn]
  | true => simp [turn, removeJob]

/-- The marks after a round: the first job is the same on both sides, and the connection is ahead with the
other ones. -/
def nextMarks (codec : Codec) (sys : StaticSystem) : List PairedJob → List PairedJob
  | [] => []
  | p :: rest =>
    (if (p.job.serve codec sys).2.2 then [] else [⟨(p.job.serve codec sys).2.1, false⟩]) ++
      rest.map fun q => ⟨q.job, true⟩

/-- With different numbers, one job at most has a number. -/
theorem filter_marks (hids : (marks.map fun p => p.job.id).Nodup) (id : Int) :
    marks.filter (fun p => p.job.id = id) = [] ∨ ∃ p, marks.filter (fun p => p.job.id = id) = [p] := by
  induction marks with
  | nil => exact .inl rfl
  | cons p marks ih =>
    rw [map_cons, nodup_cons] at hids
    rw [filter_cons]
    by_cases hid : p.job.id = id
    · rw [if_pos (decide_eq_true hid)]
      refine .inr ⟨p, ?_⟩
      rw [cons.injEq, filter_eq_nil_iff]
      refine ⟨rfl, fun q hq heq => hids.1 ?_⟩
      rw [hid, ← of_decide_eq_true heq]
      exact mem_map_of_mem hq
    · rw [if_neg (by simpa using hid)]
      exact ih hids.2

/-- What the connection had sent ahead and what it sends now is what opening the job sends. -/
theorem flatMap_asks (h : marks = [] ∨ ∃ p, marks = [p]) :
    marks.flatMap (PairedJob.sentAhead sys) ++ marks.flatMap (PairedJob.opens sys) =
      marks.flatMap fun p => p.job.asks sys := by
  rcases h with rfl | ⟨p, rfl⟩
  · rfl
  · simp only [flatMap_cons, flatMap_nil, append_nil, PairedJob.sentAhead_append_opens]

/-- What the connection is ahead with after a round. -/
theorem filter_nextMarks (codec : Codec) (sys : StaticSystem) (p : PairedJob) (rest : List PairedJob) (id : Int) :
    ((nextMarks codec sys (p :: rest)).filter fun q => q.job.id = id).flatMap (PairedJob.sentAhead sys) =
      (rest.filter fun q => q.job.id = id).flatMap fun q => q.job.asks sys := by
  have hfirst : ((if (p.job.serve codec sys).2.2 then [] else [(⟨(p.job.serve codec sys).2.1, false⟩ : PairedJob)]).filter
      fun q => q.job.id = id).flatMap (PairedJob.sentAhead sys) = [] := by
    rw [List.flatMap_eq_nil_iff]
    intro q hq
    have hmem := (List.mem_filter.mp hq).1
    split at hmem
    · simp at hmem
    · rw [List.mem_singleton.mp hmem]
      rfl
  rw [nextMarks, List.filter_append, List.flatMap_append, hfirst, List.nil_append, List.filter_map, List.flatMap_map]
  rfl

theorem nodup (h : Lockstep sys s d marks) : (marks.map fun p => p.job.id).Nodup := by
  have hids := h.steady.ids
  rw [h.managed, List.map_map] at hids
  exact hids

/-- A round of the manager over jobs whose files can be read is the turn of the first one. -/
theorem step_managed (codec : Codec) (h : Lockstep sys s d (p :: rest)) : (s.step codec sys .tick).Steady ∧
      (s.step codec sys .tick).jobs = (nextMarks codec sys (p :: rest)).map PairedJob.job ∧
      (s.step codec sys .tick).sent = s.sent ++ (p.job.serve codec sys).1 := by
  have hp : p.job.Healthy sys := h.healthy p List.mem_cons_self
  obtain ⟨hfinished, hupto, -, hinit⟩ := hp.serve codec
  have hjobs : s.jobs = p.job :: rest.map PairedJob.job := h.managed
  have hget : getJob p.job.id s.jobs = some p.job := by rw [hjobs, getJob_cons, if_pos rfl]
  have hvisited : visited sys s.jobs = [p.job.id] := by
    rw [hjobs, visited, hp.isLastJob, if_neg Bool.false_ne_true, hinit, if_neg (by simp)]
  have hstep : s.step codec sys .tick = visit codec sys s p.job.id := by
    rw [step_tick codec sys h.steady, hvisited]
    rfl
  refine ⟨hstep ▸ h.steady.visit codec sys p.job.id, ?_, ?_⟩
  · have hothers : (rest.map fun q => (⟨q.job, true⟩ : PairedJob)).map PairedJob.job = rest.map PairedJob.job := by
      rw [List.map_map]
      rfl
    rw [hstep, visit_spec codec sys h.steady hget, nextMarks, List.map_append, hothers]
    simp only [hfinished, hjobs]
    cases (p.job.serve codec sys).2.2 with
    | true => simp [removeJob]
    | false => simp [setJob]
  · rw [hstep, visit_spec codec sys h.steady hget, hupto]

/-- After a round of the connection it is ahead with what it sent for the jobs that it has opened. -/
theorem sent_tick (codec : Codec) (h : Lockstep sys s d (p :: rest)) (hdirect : d.step codec sys .tick =
      (let turn := (p.job.ahead sys).readTurn codec sys.disk (sys.readFaults p.job)
      ⟨if turn.2.2 then rest.map fun q => q.job.ahead sys else turn.2.1 :: rest.map fun q => q.job.ahead sys,
        d.sent ++ ((p :: rest).flatMap (PairedJob.opens sys) ++ turn.1)⟩)) (id : Int) :
    (d.step codec sys .tick).sentFor id = (s.step codec sys .tick).sentFor id ++
      ((nextMarks codec sys (p :: rest)).filter fun q => q.job.id = id).flatMap (PairedJob.sentAhead sys) := by
  have hp : p.job.Healthy sys := h.healthy p mem_cons_self
  obtain ⟨-, -, hsent⟩ := h.step_managed codec
  set turn := (p.job.ahead sys).readTurn codec sys.disk (sys.readFaults p.job) with hturn
  have hserve : p.job.serve codec sys = (p.job.asks sys ++ turn.1, turn.2) := rfl
  have hasks : ∀ m ∈ p.job.asks sys, m.id = p.job.id := fun m hm => (hp.ahead.2.2.2.1 m hm).2
  have hturned : ∀ m ∈ turn.1, m.id = p.job.id := by
    obtain ⟨-, hids, -⟩ := readTurn_sent codec sys.disk (sys.readFaults p.job) hp.ahead.2.1.shape
    exact fun m hm => (hids m hm).trans hp.ahead.1.id
  have hsentFor : (d.step codec sys .tick).sentFor id = s.sentFor id ++ ((p :: rest).filter fun q =>
      q.job.id = id).flatMap (fun q => q.job.asks sys) ++ turn.1.filter fun m => m.id = id := by
    have hopens := h.filter_opens id
    have hbefore : d.sent.filter (fun m => m.id = id) = _ := h.sent id
    rw [hdirect, DirectReads.sentFor, filter_append, filter_append, hopens, hbefore,
      ← flatMap_asks (filter_marks h.nodup id)]
    simp only [append_assoc]
  have hsentFor' : (s.step codec sys .tick).sentFor id = s.sentFor id ++
      ((p.job.asks sys).filter (fun m => m.id = id) ++ turn.1.filter fun m => m.id = id) := by
    rw [ManagedReads.sentFor, hsent, hserve, filter_append, filter_append]
    rfl
  rw [hsentFor, hsentFor', filter_nextMarks, filter_cons, filter_of_id hasks, filter_of_id hturned]
  by_cases hid : p.job.id = id
  · have hrest : rest.filter (fun q => q.job.id = id) = [] := by
      rw [filter_eq_nil_iff]
      intro q hq heq
      have hnot : p.job.id ∉ rest.map fun q => q.job.id := (nodup_cons.mp h.nodup).1
      rw [hid, ← of_decide_eq_true heq] at hnot
      exact hnot (mem_map_of_mem hq)
    rw [if_pos (decide_eq_true hid), if_pos hid, if_pos hid, hrest]
    simp
  · rw [if_neg (by simpa using hid), if_neg hid, if_neg hid]
    simp

theorem tick (h : Lockstep sys s d marks) (codec : Codec) :
    Lockstep sys (s.step codec sys .tick) (d.step codec sys .tick) (nextMarks codec sys marks) := by
  cases marks with
  | nil =>
    have hjobs : s.jobs = [] := h.managed
    have hdirect : d.jobs = [] := h.direct
    have hstep : s.step codec sys .tick = s := by
      rw [ManagedReads.step_tick codec sys h.steady, hjobs]
      rfl
    have hstep' : d.step codec sys .tick = d := by
      obtain ⟨jobs, sent⟩ := d
      obtain rfl : jobs = [] := hdirect
      simp [DirectReads.step, handleReadJobs, firstTurn]
    rw [hstep, hstep']
    exact h
  | cons p rest =>
    have hp : p.job.Healthy sys := h.healthy p mem_cons_self
    obtain ⟨-, -, hnext, -⟩ := hp.serve codec
    obtain ⟨hsteady, hmanaged, hsent⟩ := h.step_managed codec
    have hround := handleReadJobs_paired codec h.healthy
    have hdirect : d.step codec sys .tick =
        (let turn := (p.job.ahead sys).readTurn codec sys.disk (sys.readFaults p.job)
        ⟨if turn.2.2 then rest.map fun q => q.job.ahead sys else turn.2.1 :: rest.map fun q => q.job.ahead sys,
          d.sent ++ ((p :: rest).flatMap (PairedJob.opens sys) ++ turn.1)⟩) := by
      simp only [DirectReads.step, h.direct, hround]
    have hserve : p.job.serve codec sys =
        (p.job.asks sys ++ ((p.job.ahead sys).readTurn codec sys.disk (sys.readFaults p.job)).1,
          ((p.job.ahead sys).readTurn codec sys.disk (sys.readFaults p.job)).2) := rfl
    refine ⟨hsteady, hmanaged, ?_, ?_, ?_⟩
    · rw [hdirect, nextMarks, hserve]
      cases hended : ((p.job.ahead sys).readTurn codec sys.disk (sys.readFaults p.job)).2.2 with
      | true => simp [Function.comp_def, PairedJob.direct, hended]
      | false => simp [Function.comp_def, PairedJob.direct, hended]
    · intro q hq
      rcases mem_append.mp hq with hq | hq
      · cases hended : (p.job.serve codec sys).2.2 with
        | true => simp [hended] at hq
        | false =>
          rw [hended, if_neg Bool.false_ne_true, mem_singleton] at hq
          exact hq ▸ hnext hended
      · obtain ⟨q', hq', rfl⟩ := mem_map.mp hq
        exact h.healthy q' (mem_cons_of_mem _ hq')
    · exact h.sent_tick codec hdirect

/-- The answer to a digest of the manager is the answer to the digest that the connection has sent. -/
theorem confirm (h : Lockstep sys s d marks) (codec : Codec) {r : SendConfirm} (hr : s.AnswersDigest (.confirm r)) :
    ∃ marks', Lockstep sys (s.step codec sys (.confirm r)) (d.step codec sys (.confirm r)) marks' := by
  cases hget : getJob r.id s.jobs with
  | none =>
    have hget' : getJob r.id d.jobs = none := by
      rw [getJob_eq_none_iff, h.map_id]
      exact getJob_eq_none_iff.mp hget
    have hsame : d.step codec sys (.confirm r) = d := by simp only [DirectReads.step, hget']
    rw [ManagedReads.step_confirm_of_none codec sys hget, hsame]
    exact ⟨marks, h⟩
  | some job =>
    obtain ⟨hwaiting, hnum, hunion⟩ := hr job hget
    obtain ⟨hmem, hid⟩ := getJob_id hget
    rw [h.managed] at hmem
    obtain ⟨p, hp, rfl⟩ := List.mem_map.mp hmem
    obtain ⟨before, after, rfl⟩ := List.append_of_mem hp
    have hhealthy : p.job.Healthy sys := h.healthy p hp
    obtain ⟨hdirect, hahead⟩ := PairedJob.of_waiting hhealthy hwaiting
    obtain ⟨hkept, -⟩ := ReadJobs.confirmed_cases (sys.seekFaults p.job) r p.job sys.disk
    have hnew : p.job.id ∉ before.map fun q => q.job.id := not_mem_before h.nodup
    have hnew' : r.id ∉ (before.map PairedJob.job).map TransferJob.id := by
      rw [List.map_map, ← hid]
      exact hnew
    have hnew'' : r.id ∉ (before.map (PairedJob.direct sys)).map TransferJob.id := by
      have hsame : (before.map (PairedJob.direct sys)).map TransferJob.id = (before.map PairedJob.job).map TransferJob.id := by
        rw [List.map_map, List.map_map]
        exact List.map_congr_left fun q hq => (PairedJob.direct_kept (h.healthy q (List.mem_append_left _ hq))).id
      rw [hsame]
      exact hnew'
    have hmanaged : s.jobs = before.map PairedJob.job ++ p.job :: after.map PairedJob.job := by
      rw [h.managed, List.map_append, List.map_cons]
    have hdirectJobs : d.jobs = before.map (PairedJob.direct sys) ++ p.job :: after.map (PairedJob.direct sys) := by
      rw [h.direct, List.map_append, List.map_cons, hdirect]
    have hget' : getJob r.id d.jobs = some p.job := by
      rw [hdirectJobs, ← hid]
      exact getJob_append_cons (hid ▸ hnew'')
    let answered : PairedJob := ⟨(JobState.confirmed (sys.seekFaults p.job) r ⟨p.job, sys.disk⟩).job, false⟩
    have hcarries : s.CarriesDecision (.confirm r) := fun job hjob => (hr job hjob).2
    refine ⟨before ++ answered :: after, h.steady.confirm codec sys hcarries, ?_, ?_, fun q hq => ?_, fun id => ?_⟩
    · rw [ManagedReads.step_confirm codec sys h.steady hget hnum hunion, List.map_append, List.map_cons]
      dsimp only
      rw [hmanaged, setJob_append_cons hnew' hid]
    · simp only [DirectReads.step, hget', List.map_append, List.map_cons]
      rw [hdirectJobs, setJob_append_cons hnew'' hid]
      rfl
    · rcases List.mem_append.mp hq with hq | hq
      · exact h.healthy q (List.mem_append_left _ hq)
      · rcases List.mem_cons.mp hq with rfl | hq
        · exact hhealthy.confirmed _ r sys.disk
        · exact h.healthy q (List.mem_append_right _ (List.mem_cons_of_mem _ hq))
    · have hsame : (d.step codec sys (.confirm r)).sent = d.sent := by simp only [DirectReads.step, hget']
      have hsame' : (s.step codec sys (.confirm r)).sent = s.sent := by
        rw [ManagedReads.step_confirm codec sys h.steady hget hnum hunion]
      have hnone : answered.sentAhead sys = [] := rfl
      have hid' : answered.job.id = p.job.id := hkept.id
      have hsent := h.sent id
      rw [DirectReads.sentFor, ManagedReads.sentFor] at hsent ⊢
      rw [hsame, hsame', hsent, List.filter_append, List.filter_append, List.filter_cons, List.filter_cons, hid']
      split
      · simp only [List.flatMap_append, List.flatMap_cons, hahead, hnone]
      · rfl

theorem step (h : ∃ marks, Lockstep sys s d marks) (codec : Codec) (he : s.AnswersDigest e) :
    ∃ marks, Lockstep sys (s.step codec sys e) (d.step codec sys e) marks := by
  obtain ⟨marks, h⟩ := h
  cases e with
  | tick => exact ⟨_, h.tick codec⟩
  | confirm r => exact h.confirm codec he

end Lockstep

section NewJobs

variable {codec : Codec} {sys : StaticSystem} {jobs : List TransferJob} {events : List RoundEvent} {job : TransferJob}
  {s : ManagedReads}

/-- A job as `start_read_job` makes it. -/
def TransferJob.IsNewRead (job : TransferJob) : Prop :=
  ∃ id path fileNum overwriteDetection files, newRead id .generic path fileNum overwriteDetection (.ok files) = .ok job

theorem TransferJob.IsNewRead.spec (h : job.IsNewRead) :
    job.isLastJob = false ∧ job.Shape ∧ job.fileIsWaiting = false ∧ ∃ base, job.dataSource = .filePath base := by
  obtain ⟨id, path, fileNum, overwriteDetection, files, hnew⟩ := h
  obtain rfl := Except.ok.inj hnew
  exact ⟨rfl, by simp [Shape], rfl, path, rfl⟩

theorem ManagedReads.steady_start (hnew : ∀ job ∈ jobs, job.IsNewRead) (hids : (jobs.map TransferJob.id).Nodup) :
    (ManagedReads.start jobs).Steady :=
  ⟨hids, fun _ hj => mem_toFinset.mpr (mem_map_of_mem hj), fun j hj =>
    ⟨(hnew j hj).spec.1, (hnew j hj).spec.2.1⟩⟩

theorem ManagedReads.AnswersDigest.carriesDecision (h : s.AnswersDigest e) : s.CarriesDecision e := by
  cases e with
  | tick => trivial
  | confirm r => exact fun job hjob => (h job hjob).2

/-- In every run the manager does for each job what the connection does for the job alone. -/
theorem ManagedReads.matches_run (codec : Codec) (sys : StaticSystem) (hnew : ∀ job ∈ jobs, job.IsNewRead)
    (hids : (jobs.map TransferJob.id).Nodup)
    (hrun : RunMeets (ManagedReads.step codec sys) ManagedReads.CarriesDecision (.start jobs) events)
    (hjob : job ∈ jobs) :
    ManagedReads.Matches job.id (runEvents (ManagedReads.step codec sys) (.start jobs) events)
      (runEvents (DirectReads.step codec sys) { jobs := [job] }
        (followed (ManagedReads.step codec sys) (ManagedReads.answer sys job.id) (.start jobs) events)) := by
  have hget : getJob job.id jobs = some job := by
    obtain ⟨before, after, rfl⟩ := append_of_mem hjob
    exact getJob_append_cons (not_mem_before hids)
  have hstart : (start jobs).Steady ∧ ManagedReads.Matches job.id (.start jobs) { jobs := [job] } :=
    ⟨steady_start hnew hids, .inl ⟨job, hget, rfl, rfl, rfl⟩⟩
  exact (runEvents_simulation (R := fun s d => s.Steady ∧ ManagedReads.Matches job.id s d)
    (fun s d e hs he => hs.2.step codec sys hs.1 he) hstart hrun).2

/-- In every run over files that can be read, the two sides go through the jobs round by round. -/
theorem Lockstep.run (codec : Codec) (hnew : ∀ job ∈ jobs, job.IsNewRead) (hids : (jobs.map TransferJob.id).Nodup)
    (hreadable : ∀ job ∈ jobs, job.AllReadable sys)
    (hrun : RunMeets (ManagedReads.step codec sys) ManagedReads.AnswersDigest (.start jobs) events) :
    ∃ marks, Lockstep sys (runEvents (ManagedReads.step codec sys) (.start jobs) events)
      (runEvents (DirectReads.step codec sys) { jobs } events) marks := by
  have hstart : Lockstep sys (.start jobs) { jobs } (jobs.map fun job => ⟨job, false⟩) := by
    refine ⟨steady_start hnew hids, ?_, ?_, fun p hp => ?_, fun id => ?_⟩
    · rw [List.map_map]
      exact (List.map_id jobs).symm
    · rw [List.map_map]
      exact (List.map_id jobs).symm
    · obtain ⟨job, hjob, rfl⟩ := List.mem_map.mp hp
      obtain ⟨hlast, hshape, hwaiting, hsource⟩ := (hnew job hjob).spec
      exact ⟨hlast, hsource, hshape, hreadable job hjob, fun hw => absurd hw (by simp [hwaiting])⟩
    · have hnone : ((jobs.map fun job => (⟨job, false⟩ : PairedJob)).filter fun p => p.job.id = id).flatMap
          (PairedJob.sentAhead sys) = [] := by
        rw [List.flatMap_eq_nil_iff]
        intro p hp
        obtain ⟨job, -, rfl⟩ := List.mem_map.mp (List.mem_filter.mp hp).1
        rfl
      rw [hnone]
      rfl
  have hstep : ∀ s d e, (∃ marks, Lockstep sys s d marks) → s.AnswersDigest e →
      ∃ marks, Lockstep sys (s.step codec sys e) (d.step codec sys e) marks :=
    fun _ _ _ hs he => Lockstep.step hs codec he
  exact runEvents_lockstep (R := fun s d => ∃ marks, Lockstep sys s d marks) hstep ⟨_, hstart⟩ hrun

/-- What the connection is ahead with is what the manager sends about the job when its turn comes. -/
theorem Lockstep.sent_ahead {d : DirectReads} (h : Lockstep sys s d marks) (id : Int) :
    ∃ sentAhead, d.sentFor id = s.sentFor id ++ sentAhead ∧
      (sentAhead = [] ∨ ∃ job, getJob id s.jobs = some job ∧ sentAhead = job.asks sys) := by
  refine ⟨_, h.sent id, ?_⟩
  rcases filter_marks h.nodup id with hnone | ⟨p, hone⟩
  · rw [hnone]
    exact .inl rfl
  · have hp : p ∈ marks ∧ p.job.id = id := by
      have hmem : p ∈ marks.filter fun p => p.job.id = id := by rw [hone]; exact List.mem_cons_self
      obtain ⟨hp, hid⟩ := List.mem_filter.mp hmem
      exact ⟨hp, of_decide_eq_true hid⟩
    have hmark : [p].flatMap (PairedJob.sentAhead sys) = p.sentAhead sys := by
      rw [List.flatMap_cons, List.flatMap_nil, List.append_nil]
    rw [hone, hmark]
    cases hahead : p.isAhead with
    | false => exact .inl (by rw [PairedJob.sentAhead, hahead, if_neg Bool.false_ne_true])
    | true =>
      refine .inr ⟨p.job, ?_, by rw [PairedJob.sentAhead, hahead, if_pos rfl]⟩
      obtain ⟨before, after, rfl⟩ := List.append_of_mem hp.1
      rw [h.managed, List.map_append, List.map_cons, ← hp.2]
      refine getJob_append_cons ?_
      rw [List.map_map]
      exact not_mem_before h.nodup

end NewJobs

/-- The two ways to serve read jobs agree. For each job the manager sends what the connection sends for the
job alone, given the same turns and decisions, up to the first error, which ends the job. Where all files
can be read, the manager follows the connection round by round, which is ahead with digests only. -/
theorem managedReads_refine_directReads (codec : Codec) (sys : StaticSystem) {jobs : List TransferJob}
    (hnew : ∀ job ∈ jobs, job.IsNewRead) (hids : (jobs.map TransferJob.id).Nodup) (events : List RoundEvent) :
    let run := runEvents (ManagedReads.step codec sys) (.start jobs) events
    (RunMeets (ManagedReads.step codec sys) ManagedReads.CarriesDecision (.start jobs) events → ∀ job ∈ jobs,
        let direct := runEvents (DirectReads.step codec sys) { jobs := [job] }
          (followed (ManagedReads.step codec sys) (ManagedReads.answer sys job.id) (.start jobs) events)
        run.sentFor job.id = upToError direct.sent ∧
          (job.id ∈ run.jobs.map TransferJob.id ↔ direct.jobs ≠ [] ∧ direct.sent.any FileResponse.isError = false)) ∧
      ((∀ job ∈ jobs, job.AllReadable sys) →
        RunMeets (ManagedReads.step codec sys) ManagedReads.AnswersDigest (.start jobs) events →
        let direct := runEvents (DirectReads.step codec sys) { jobs } events
        direct.jobs.map TransferJob.id = run.jobs.map TransferJob.id ∧
          ∀ id, ∃ sentAhead, direct.sentFor id = run.sentFor id ++ sentAhead ∧
            (sentAhead = [] ∨ ∃ job, getJob id run.jobs = some job ∧ sentAhead = job.asks sys)) := by
  intro run
  refine ⟨fun hrun job hjob => ?_, fun hreadable hrun => ?_⟩
  · intro direct
    have hmatches : ManagedReads.Matches job.id run direct := ManagedReads.matches_run codec sys hnew hids hrun hjob
    rcases hmatches with ⟨found, hfound, hjobs, hnoerror, hsent⟩ | ⟨hnone, hsent, hend⟩
    · obtain ⟨hmem, hid⟩ := getJob_id hfound
      refine ⟨hsent.trans (upToError_of_none hnoerror).symm, fun _ => ⟨by simp [hjobs], hnoerror⟩, fun _ => ?_⟩
      exact hid ▸ List.mem_map_of_mem hmem
    · refine ⟨hsent, fun hmem => absurd hmem (getJob_eq_none_iff.mp hnone), fun ⟨hleft, hnoerror⟩ => ?_⟩
      rcases hend with hnil | herror
      · exact absurd hnil hleft
      · simp [hnoerror] at herror
  · obtain ⟨marks, hlock⟩ := Lockstep.run codec hnew hids hreadable hrun
    exact ⟨hlock.map_id, hlock.sent_ahead⟩

/-- A directory with one file. -/
def oneFile : StaticSystem where
  disk := FileSystem.empty.put (locate "/src/kept") [1, 2, 3]
  reads := fun _ _ => {}
  seeks := fun _ => {}

/-- A job over that file, whose digest is to be confirmed. -/
def oneFileJob : TransferJob :=
  { id := 1, type := .generic, dataSource := .filePath "/src", enableOverwriteDetection := true
    files := [{ name := "kept" }] }

theorem oneFileJob_allReadable : oneFileJob.AllReadable oneFile := by
  intro base hbase f hf
  obtain rfl := DataSource.filePath.inj hbase
  obtain rfl := mem_singleton.mp hf
  exact ⟨by decide, fun _ => ⟨rfl, rfl, fun r hr => absurd hr not_mem_nil⟩⟩

/-- The digest of the file is sent, answered, and the file is sent to its end. -/
def oneFileRun : List RoundEvent := [.tick, .confirm ⟨1, 0, some (.offsetBlk 0)⟩, .tick, .tick, .tick]

theorem oneFileRun_answersDigest :
    RunMeets (step ⟨id, id⟩ oneFile) ManagedReads.AnswersDigest (.start [oneFileJob]) oneFileRun := by
  refine ⟨trivial, fun job hjob => ?_, trivial, trivial, trivial, trivial⟩
  obtain ⟨hmem, -⟩ := getJob_id hjob
  have hwaiting : ∀ job ∈ (step ⟨id, id⟩ oneFile (.start [oneFileJob]) .tick).jobs,
      job.fileIsWaiting = true ∧ job.fileNum = 0 := by decide
  exact ⟨(hwaiting job hmem).1, (hwaiting job hmem).2, rfl⟩

theorem managedReads_refine_directReads_oneFile :
    let run := runEvents (ManagedReads.step ⟨id, id⟩ oneFile) (.start [oneFileJob]) oneFileRun
    let direct := runEvents (DirectReads.step ⟨id, id⟩ oneFile) { jobs := [oneFileJob] }
      (followed (ManagedReads.step ⟨id, id⟩ oneFile) (ManagedReads.answer oneFile 1) (.start [oneFileJob]) oneFileRun)
    let direct' := runEvents (DirectReads.step ⟨id, id⟩ oneFile) { jobs := [oneFileJob] } oneFileRun
    run.sentFor 1 = upToError direct.sent ∧ direct'.jobs.map TransferJob.id = run.jobs.map TransferJob.id ∧
      run.sent.length = 4 := by
  intro run direct direct'
  have hnew : ∀ job ∈ [oneFileJob], job.IsNewRead := by
    intro job hjob
    obtain rfl := List.mem_singleton.mp hjob
    exact ⟨1, "/src", 0, true, [{ name := "kept" }], rfl⟩
  have hreadable : ∀ job ∈ [oneFileJob], job.AllReadable oneFile := by
    intro job hjob
    obtain rfl := List.mem_singleton.mp hjob
    exact oneFileJob_allReadable
  have hcarries : RunMeets (ManagedReads.step ⟨id, id⟩ oneFile) ManagedReads.CarriesDecision (.start [oneFileJob])
      oneFileRun :=
    runMeets_of_invariant (I := fun _ => True) (fun _ _ _ _ => trivial) (fun _ _ _ h => h.carriesDecision) trivial
      oneFileRun_answersDigest
  obtain ⟨heach, htogether⟩ := managedReads_refine_directReads ⟨id, id⟩ oneFile hnew (by decide) oneFileRun
  exact ⟨(heach hcarries oneFileJob List.mem_cons_self).1, (htogether hreadable oneFileRun_answersDigest).1, by decide⟩

/-- A job of two files, of which the first cannot be opened. -/
def missingFileJob : TransferJob :=
  { id := 1, type := .generic, dataSource := .filePath "/src", files := [{ name := "gone" }, { name := "kept" }] }

/-- The connection goes on with the second file, and the manager gives the job up. -/
theorem manager_stops_at_missing_file :
    let managed := runEvents (ManagedReads.step ⟨id, id⟩ oneFile) (.start [missingFileJob]) [.tick, .tick]
    let direct := runEvents (DirectReads.step ⟨id, id⟩ oneFile) { jobs := [missingFileJob] } [.tick, .tick]
    missingFileJob.IsNewRead ∧ managed.sent ≠ direct.sent ∧ managed.jobs = [] ∧ direct.jobs ≠ [] :=
  ⟨⟨1, "/src", 0, false, [{ name := "gone" }, { name := "kept" }], rfl⟩, by decide⟩

end UnyDesk
