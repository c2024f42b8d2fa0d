import Mathlib.Data.List.TakeWhile
import UnyDesk.Transfer.Sending

/-!
# A read job and the files that fail

A round of a read job can fail to open its file, to read the metadata or to read. A round in which
no such step fails is the same as one of a system without failures. Whatever fails, a job that was not
skipped announces its end as if nothing had happened.
-/

namespace UnyDesk

open Lib TransferJob List

variable {faults : ReadFaults}

namespace TransferJob

/-- The job has to open its file and cannot. -/
def openFails (disk : Disk) (faults : ReadFaults) (job : TransferJob) : Bool :=
  match job.dataSource, job.currentEntry, job.dataStream with
  | .filePath base, some entry, none => !(openFile disk (joinPath base entry.name) faults.opened).isOk
  | _, _, _ => false

/-- The job has to read the metadata of its open file and cannot. -/
def metadataFails (faults : ReadFaults) (job : TransferJob) : Bool :=
  job.currentEntry.isSome && job.needsDigest && faults.metadata.isSome

/-- The job has to read its open file and cannot. -/
def readFails (disk : Disk) (faults : ReadFaults) (job : TransferJob) : Bool :=
  match job.currentEntry, job.dataStream with
  | some _, some stream =>
    !(decide (job.type = .generic) && job.enableOverwriteDetection && !job.fileConfirmed) &&
      !(fillBuffer faults.reads (stream.rest disk) bufSize).isOk
  | _, _ => false

/-- The open, the metadata or a read of the current file fails in this round. -/
def fileFails (disk : Disk) (faults : ReadFaults) (job : TransferJob) : Bool :=
  let opened := (job.openDataStream disk faults).2
  job.openFails disk faults || opened.metadataFails faults || opened.readFails disk faults

end TransferJob

/-- The round without its failures. -/
def ReadFaults.cleaned (faults : ReadFaults) : ReadFaults :=
  { faults with
    opened := none
    metadata := none
    reads := faults.reads.takeWhile fun r => r matches .upTo _ }

theorem ReadFaults.cleaned_clean (faults : ReadFaults) : faults.cleaned.Clean := by
  refine ⟨rfl, rfl, fun r hr => ?_⟩
  have hup := mem_takeWhile_imp hr
  cases r with
  | upTo n => exact ⟨n, rfl⟩
  | fails e => simp at hup

/-- A buffer that was filled did not come to a failing read. -/
theorem fillBuffer_cleaned {rest buf : Bytes} {room : ℕ}
    (h : fillBuffer faults.reads rest room = .ok buf) : fillBuffer faults.cleaned.reads rest room = .ok buf := by
  unfold ReadFaults.cleaned
  generalize faults.reads = reads at h
  induction reads generalizing rest room buf with
  | nil => exact h
  | cons r reads ih =>
    cases r with
    | fails e => simp [fillBuffer] at h
    | upTo n =>
      simp only [takeWhile_cons, if_true, fillBuffer] at h ⊢
      split at h
      next hstop => rw [if_pos hstop, h]
      next hgo =>
        rw [if_neg hgo]
        cases hlater : fillBuffer reads (rest.drop (rest.take (min (n + 1) room)).length)
            (room - (rest.take (min (n + 1) room)).length) with
        | error e =>
          rw [hlater] at h
          simp [Except.map] at h
        | ok later =>
          rw [hlater] at h
          rw [ih hlater]
          exact h

section Round

variable {codec : Codec} {src : Source} {job : TransferJob} {faults : ReadFaults} {disk : Disk}

theorem openDataStream_cleaned (h : job.openFails disk faults = false) :
    job.openDataStream disk faults.cleaned = job.openDataStream disk faults := by
  unfold openDataStream
  split
  next base hsource =>
    split
    next => rfl
    next entry hentry =>
      split
      next => rfl
      next hstream =>
        have hopens : faults.opened = none := by
          cases hopened : faults.opened with
          | none => rfl
          | some e => simp [openFails, hsource, hentry, hstream, hopened, openFile, Except.isOk, Except.toBool] at h
        rw [hopens]
        rfl
  next => rfl

theorem initJob_cleaned (hsame : SameJob src job) (hopen : job.openFails disk faults = false)
    (hmeta : ((job.openDataStream disk faults).2).metadataFails faults = false) :
    job.initJob disk faults.cleaned = job.initJob disk faults := by
  have hdigest : ∀ opened, job.openDataStream disk faults = (.ok false, opened) → opened.needsDigest = true →
      opened.getCurrentDigest disk faults.cleaned = opened.getCurrentDigest disk faults := by
    intro opened hopened hneeds
    have hentry : opened.currentEntry.isSome = true := by
      simp only [openDataStream, hsame.source] at hopened
      split at hopened
      next => simp at hopened
      next entry hentry =>
        split at hopened
        next => simp_all
        next =>
          split at hopened
          next =>
            obtain ⟨-, rfl⟩ := Prod.mk.inj hopened
            simp only [currentEntry] at hentry ⊢
            simp [hentry]
          next => simp at hopened
    rw [hopened] at hmeta
    have hnone : faults.metadata = none := by
      simpa [metadataFails, hentry, hneeds] using hmeta
    simp only [getCurrentDigest, hnone]
    rfl
  simp only [initJob, initDataStream, openDataStream_cleaned hopen]
  cases hopened : job.openDataStream disk faults with
  | mk result opened =>
    cases result with
    | error e => rfl
    | ok done =>
      cases done with
      | true => rfl
      | false =>
        by_cases hneeds : opened.needsDigest = true
        · simp only [hneeds, if_true, hdigest opened hopened hneeds]
        · simp only [hneeds, if_false, Bool.false_eq_true]

theorem readTurn_cleaned (hsource : ∃ base, job.dataSource = .filePath base)
    (hread : job.readFails disk faults = false) :
    job.readTurn codec disk faults.cleaned = job.readTurn codec disk faults := by
  have heq : job.read codec disk faults.cleaned = job.read codec disk faults := by
    obtain ⟨base, hsource⟩ := hsource
    unfold TransferJob.read
    split
    next => rfl
    next hgate =>
      rw [hsource]
      cases hentry : job.currentEntry with
      | none => rfl
      | some entry =>
        cases hstream : job.dataStream with
        | none => rfl
        | some stream =>
          cases hfill : fillBuffer faults.reads (stream.rest disk) bufSize with
          | error e =>
            simp [TransferJob.readFails, hentry, hstream, hfill, Except.isOk, Except.toBool] at hread
            simp_all
          | ok buf => simp only [hfill, fillBuffer_cleaned hfill]
  unfold TransferJob.readTurn
  rw [heq]

section

variable (hsame : SameJob src job)
include hsame

/-- A change to the state of the current file leaves the job the same. -/
theorem SameJob.nextFile : SameJob src job.nextFile :=
  ⟨hsame.id, hsame.type, hsame.source, hsame.files, hsame.detection, hsame.isLastJob, hsame.fileSkipped, hsame.isResume⟩

theorem SameJob.stream (stream : Option DataStream) :
    SameJob src { job with dataStream := stream } :=
  ⟨hsame.id, hsame.type, hsame.source, hsame.files, hsame.detection, hsame.isLastJob, hsame.fileSkipped, hsame.isResume⟩

theorem SameJob.openDataStream : SameJob src (job.openDataStream disk faults).2 := by
  unfold TransferJob.openDataStream
  split
  next =>
    split
    next => exact hsame.stream none
    next =>
      split
      next => exact hsame
      next =>
        split
        next =>
          exact ⟨hsame.id, hsame.type, hsame.source, hsame.files, hsame.detection, hsame.isLastJob,
            hsame.fileSkipped, hsame.isResume⟩
        next => exact hsame.nextFile
  next hbytes => simp [hsame.source] at hbytes

end

/-- The first half of a round leaves the opened job, perhaps waiting for a confirmation. -/
theorem initJob_snd (hlast : job.isLastJob = false) : (job.initJob disk faults).2 = (job.openDataStream disk faults).2 ∨
      (job.initJob disk faults).2 = { (job.openDataStream disk faults).2 with fileIsWaiting := true } := by
  simp only [initJob, hlast, initDataStream]
  cases job.openDataStream disk faults with
  | mk result opened =>
    cases result with
    | error e => exact .inl rfl
    | ok done =>
      cases done with
      | true => exact .inl rfl
      | false =>
        by_cases hneeds : opened.needsDigest = true
        · simp only [hneeds, if_true]
          cases opened.getCurrentDigest disk faults with
          | error e => exact .inl rfl
          | ok digest => exact .inr rfl
        · simp only [hneeds]
          exact .inl rfl

section SameJob

variable (hsame : SameJob src job)
include hsame

theorem SameJob.initJob : SameJob src (job.initJob disk faults).2 := by
  have hopened : SameJob src (job.openDataStream disk faults).2 := hsame.openDataStream
  rcases initJob_snd hsame.isLastJob with heq | heq
  · rw [heq]
    exact hopened
  · rw [heq]
    exact ⟨hopened.id, hopened.type, hopened.source, hopened.files, hopened.detection, hopened.isLastJob,
      hopened.fileSkipped, hopened.isResume⟩

theorem SameJob.blockOf (compressible : Bool) (stream : DataStream) (buf : Bytes) :
    SameJob src (job.blockOf codec compressible stream buf).2 := by
  unfold TransferJob.blockOf
  split
  next => exact hsame.nextFile
  next => exact ⟨hsame.id, hsame.type, hsame.source, hsame.files, hsame.detection, hsame.isLastJob, hsame.fileSkipped,
    hsame.isResume⟩

theorem SameJob.read : SameJob src (job.read codec disk faults).2 := by
  unfold TransferJob.read
  split
  next => exact hsame
  next =>
    split
    next => exact hsame.stream none
    next =>
      split
      next => exact hsame
      next =>
        split
        next => exact hsame.nextFile
        next => exact hsame.blockOf _ _ _
    next hbytes => simp [hsame.source] at hbytes

/-- A turn ends the job with the announcement of its end only. -/
theorem SameJob.readTurn : SameJob src (job.readTurn codec disk faults).2.1 ∧
      ((job.readTurn codec disk faults).2.2 = true → ∃ n, (job.readTurn codec disk faults).1 = [.done src.id n]) := by
  have hread : SameJob src (job.read codec disk faults).2 := hsame.read
  unfold TransferJob.readTurn
  split
  next heq =>
    rw [heq] at hread
    exact ⟨hread, by simp⟩
  next heq =>
    rw [heq] at hread
    exact ⟨hread, by simp⟩
  next job' heq =>
    have hread' : SameJob src job' := by
      rw [heq] at hread
      exact hread
    have herror : job'.jobError = none := by
      simp [TransferJob.jobError, TransferJob.jobSkipped, hread'.fileSkipped]
    split
    next =>
      rw [herror]
      exact ⟨hread', fun _ => ⟨job'.fileNum, by rw [hread'.id]⟩⟩
    next => exact ⟨hread', by simp⟩

/-- A round of one job. -/
theorem handleReadJobs_eq : handleReadJobs codec disk (fun _ => faults) [job] = (let opened := job.initJob disk faults
      let turn := opened.2.readTurn codec disk faults
      (opened.1 ++ turn.1, if turn.2.2 then [] else [turn.2.1], if turn.2.2 then some turn.2.1 else none)) := by
  have hopened : SameJob src (job.initJob disk faults).2 := hsame.initJob
  exact handleReadJobs_single disk rfl hopened.isLastJob rfl

/-- A round in which nothing fails is one of a system without failures. -/
theorem handleReadJobs_cleaned (h : job.fileFails disk faults = false) :
    handleReadJobs codec disk (fun _ => faults) [job] = handleReadJobs codec disk (fun _ => faults.cleaned) [job] := by
  simp only [fileFails, Bool.or_eq_false_iff] at h
  obtain ⟨⟨hopen, hmeta⟩, hread⟩ := h
  have hopened : SameJob src (job.initJob disk faults).2 := hsame.initJob
  have hreads : (job.initJob disk faults).2.readFails disk faults = false := by
    rcases initJob_snd hsame.isLastJob with heq | heq
    · rw [heq]
      exact hread
    · rw [heq]
      exact hread
  rw [handleReadJobs_eq hsame, handleReadJobs_eq hsame, initJob_cleaned hsame hopen hmeta]
  simp only [readTurn_cleaned ⟨_, hopened.source⟩ hreads]

end SameJob

end Round

/-- The numbers of the files that fail in a round. -/
def Sender.failing (disk : Disk) (s : Sender) (faults : ReadFaults) : List Int :=
  s.jobs.filterMap fun job => if job.fileFails disk faults then some job.fileNum else none

/-- The job is under way, or its end was announced. -/
def Sender.Announces (src : Source) (s : Sender) : Prop :=
  (∃ job, s.jobs = [job] ∧ SameJob src job) ∨ s.jobs = [] ∧ ∃ earlier n, s.sent = earlier ++ [.done src.id n]

section Sender

variable {codec : Codec} {src : Source} {s : Sender}

theorem Sender.Tracks.announces (hs : s.Tracks codec src) : s.Announces src := by
  rcases hs with ⟨job, todo, hjobs, -, howes, -⟩ | ⟨job, earlier, hjobs, -, -, hsent, -⟩
  · exact .inl ⟨job, hjobs, howes.same⟩
  · exact .inr ⟨hjobs, earlier, _, hsent⟩

/-- Whatever fails in a round, the job goes on or announces its end. -/
theorem Sender.Announces.tick (hs : s.Announces src) (disk : Disk) (faults : ReadFaults) :
    (s.step codec disk (.tick faults)).Announces src := by
  rcases hs with ⟨job, hjobs, hsame⟩ | ⟨hjobs, hsent⟩
  · have hround : handleReadJobs codec disk (fun _ => faults) [job] = _ := handleReadJobs_eq hsame
    have hopened : SameJob src (job.initJob disk faults).2 := hsame.initJob
    obtain ⟨hturn, hdone⟩ : SameJob src ((job.initJob disk faults).2.readTurn codec disk faults).2.1 ∧ _ :=
      hopened.readTurn
    simp only [step, hjobs, hround]
    cases hended : ((job.initJob disk faults).2.readTurn codec disk faults).2.2 with
    | true =>
      obtain ⟨n, hn⟩ := hdone hended
      refine .inr ⟨by simp, s.sent ++ (job.initJob disk faults).1, n, ?_⟩
      rw [hn, append_assoc]
    | false => exact .inl ⟨_, by simp, hturn⟩
  · refine .inr ⟨?_, ?_⟩
    · simp [step, hjobs, handleReadJobs, firstTurn]
    · simpa [step, hjobs, handleReadJobs, firstTurn] using hsent

theorem SameJob.setFileConfirmed {job : TransferJob} (hsame : SameJob src job) :
    SameJob src (job.setFileConfirmed true) :=
  ⟨hsame.id, hsame.type, hsame.source, hsame.files, hsame.detection, hsame.isLastJob, rfl, hsame.isResume⟩

theorem Sender.Announces.confirm (hs : s.Announces src) (disk : Disk) {request : SendConfirm}
    (hunion : request.union = some (.skip false) ∨ request.union = some (.offsetBlk 0)) :
    (s.step codec disk (.confirm request)).Announces src := by
  rcases hs with ⟨job, hjobs, hsame⟩ | ⟨hjobs, hsent⟩
  · simp only [step, hjobs]
    rcases confirmJob_single job disk hunion with heq | ⟨-, heq⟩
    · exact .inl ⟨job, heq, hsame⟩
    · exact .inl ⟨_, heq, hsame.setFileConfirmed⟩
  · exact .inr ⟨by simp [step, hjobs, confirmJob], hsent⟩

/-- A round in which nothing fails keeps the account of what is sent. -/
theorem Sender.Tracks.tick_of_failing (hcodec : ∀ bytes, codec.decompress (codec.compress bytes) = bytes)
    (hreadable : src.Readable) (hfailing : s.failing src.disk faults = [])
    (hs : s.Tracks codec src) : (s.step codec src.disk (.tick faults)).Tracks codec src := by
  have hstep : s.step codec src.disk (.tick faults) = s.step codec src.disk (.tick faults.cleaned) := by
    rcases hs.announces with ⟨job, hjobs, hsame⟩ | ⟨hjobs, -⟩
    · have hfails : job.fileFails src.disk faults = false := by
        simpa [failing, hjobs] using hfailing
      have hround : handleReadJobs codec src.disk (fun _ => faults) [job] = _ :=
        handleReadJobs_cleaned hsame hfails
      simp only [Sender.step, hjobs, hround]
    · simp [Sender.step, hjobs, handleReadJobs, firstTurn]
  rw [hstep]
  exact hs.tick hcodec hreadable faults.cleaned_clean

theorem Sender.sent_step (s : Sender) (codec : Codec) (disk : Disk) (e : SendEvent) :
    ∃ more, (s.step codec disk e).sent = s.sent ++ more := by
  cases e with
  | tick faults => exact ⟨_, rfl⟩
  | confirm request => exact ⟨[], (append_nil _).symm⟩

/-- New messages do not change those that were taken. -/
theorem Sender.take_sent_step (s : Sender) (codec : Codec) {taken : ℕ} (htaken : taken ≤ s.sent.length) (disk : Disk)
    (e : SendEvent) :
    (s.step codec disk e).sent.take taken = s.sent.take taken ∧ taken ≤ (s.step codec disk e).sent.length := by
  obtain ⟨more, hmore⟩ := s.sent_step codec disk e
  rw [hmore]
  refine ⟨take_append_of_le_length htaken, ?_⟩
  rw [length_append]
  omega

/-- The next message is the next block, a digest, or the end after all blocks. -/
theorem Sender.Tracks.next_message (hs : s.Tracks codec src) {m : FileResponse} {taken : ℕ}
    (hm : s.sent[taken]? = some m) {todo : List FileTransferBlock}
    (htodo : sentBlocks (s.sent.take taken) ++ todo = src.blocks codec) :
    (∃ b later, m = .block b ∧ todo = b :: later) ∨ (∃ k t z r, m = .digest src.id k t z r) ∨
      (∃ n, m = .done src.id n) ∧ todo = [] ∧ s.jobs = [] ∧ taken + 1 = s.sent.length := by
  obtain ⟨hlt, hget⟩ := List.getElem?_eq_some_iff.mp hm
  have hsplit : s.sent = s.sent.take taken ++ m :: s.sent.drop (taken + 1) := by
    rw [← hget, ← List.drop_eq_getElem_cons, List.take_append_drop]
  have hblock : ∀ b rest, m = .block b → sentBlocks s.sent ++ rest = src.blocks codec → ∃ later, todo = b :: later := by
    rintro b rest rfl hall
    rw [hsplit, sentBlocks_append, ← htodo, List.append_assoc] at hall
    exact ⟨_, (List.append_cancel_left hall).symm⟩
  rcases hs with ⟨job, left, hjobs, -, -, hblocks, hkinds⟩ | ⟨job, earlier, hjobs, -, -, hsent, hblocks, hkinds⟩
  · rcases hkinds m (List.mem_of_getElem? hm) with ⟨b, rfl⟩ | hdigest
    · obtain ⟨later, hlater⟩ := hblock b left rfl hblocks
      exact .inl ⟨b, later, rfl, hlater⟩
    · exact .inr (.inl hdigest)
  · by_cases hlast : taken < earlier.length
    · have hmem : m ∈ earlier := by
        rw [hsent, List.getElem?_append_left hlast] at hm
        exact List.mem_of_getElem? hm
      rcases hkinds m hmem with ⟨b, rfl⟩ | hdigest
      · have hall : sentBlocks s.sent ++ [] = src.blocks codec := by
          rw [hsent, sentBlocks_append, hblocks, List.append_assoc]
          exact List.append_nil _
        obtain ⟨later, hlater⟩ := hblock b [] rfl hall
        exact .inl ⟨b, later, rfl, hlater⟩
      · exact .inr (.inl hdigest)
    · have heq : taken = earlier.length := by
        rw [hsent, List.length_append, List.length_singleton] at hlt
        omega
      refine .inr (.inr ⟨⟨src.files.length, ?_⟩, ?_, hjobs, ?_⟩)
      · rw [hsent, heq, List.getElem?_concat_length, Option.some.injEq] at hm
        exact hm.symm
      · rw [hsent, heq, List.take_left, hblocks] at htodo
        exact List.append_right_eq_self.mp htodo
      · rw [hsent, heq, List.length_append, List.length_singleton]

end Sender

end UnyDesk
