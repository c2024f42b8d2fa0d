import Mathlib.Data.Finset.Basic
import UnyDesk.Transfer.Completion

/-!
# The read jobs of the connection manager

Where files are read with other rights, the connection leaves read jobs to the connection manager. The
manager has a loop of its own over them and answers to the connection, which relays the answers about
jobs it still knows. Both send on ordered channels, so that the answers reach the client as they were
sent.
-/

namespace UnyDesk

open Lib

/-- `ipc::Data`, as far as the connection manager answers about read jobs. -/
inductive ReadData
  /-- The listing of a new job, of which only the failure is kept. -/
  | readJobInitResult (id : Int) (error : Option String)
  | fileBlockFromCm (block : FileTransferBlock)
  | fileReadDone (id fileNum : Int)
  | fileReadError (id fileNum : Int) (err : String)
  | fileDigestFromCm (id fileNum : Int) (lastModified fileSize : ℕ) (isResume : Bool)

namespace TransferJob

/-- `init_data_stream_for_cm`. -/
def initDataStreamForCm (disk : Disk) (faults : ReadFaults) (job : TransferJob) :
    Except String (Option (ℕ × ℕ)) × TransferJob :=
  match job.openDataStream disk faults with
  | (.error e, job) => (.error e, job)
  | (.ok true, job) => (.ok none, job)
  | (.ok false, job) =>
    if job.needsDigest then
      match job.getCurrentDigest disk faults with
      | .error e => (.error e, job)
      | .ok digest => (.ok (some digest), { job with fileIsWaiting := true })
    else (.ok none, job)

/-- `init_read_job_for_cm`: an error, what is sent and the job. -/
def initReadJobForCm (disk : Disk) (faults : ReadFaults) (job : TransferJob) :
    Option String × List ReadData × TransferJob :=
  match job.initDataStreamForCm disk faults with
  | (.error e, job) => (some e, [], job)
  | (.ok (some (lastModified, fileSize)), job) =>
    (none, [.fileDigestFromCm job.id job.fileNum lastModified fileSize job.isResume], job)
  | (.ok none, job) => (none, [], job)

/-- The read of one job in `handle_read_jobs_tick`: what is sent, the job, and whether it is finished. -/
def readTurnForCm (codec : Codec) (disk : Disk) (faults : ReadFaults) (job : TransferJob) :
    List ReadData × TransferJob × Bool :=
  match job.read codec disk faults with
  | (.error e, job) => ([.fileReadError job.id job.fileNum e], job, true)
  | (.ok (some block), job) => ([.fileBlockFromCm block], job, false)
  | (.ok none, job) =>
    if job.jobCompleted then
      match job.jobError with
      | some e => ([.fileReadError job.id job.fileNum e], job, true)
      | none => ([.fileReadDone job.id job.fileNum], job, true)
    else ([], job, false)

/-- The loop of `handle_read_jobs_tick`: what is sent, the jobs, and the numbers of the finished ones. A
job that cannot be opened does not use up the turn. -/
def tickJobs (codec : Codec) (disk : Disk) (faults : ℕ → ReadFaults) :
    ℕ → List TransferJob → List ReadData × List TransferJob × List Int
  | _, [] => ([], [], [])
  | i, job :: jobs =>
    if job.isLastJob then
      let (sent, jobs, finished) := tickJobs codec disk faults (i + 1) jobs
      (sent, job :: jobs, finished)
    else
      match job.initReadJobForCm disk (faults i) with
      | (some e, sent, job) =>
        let (sent', jobs, finished) := tickJobs codec disk faults (i + 1) jobs
        (sent ++ .fileReadError job.id job.fileNum e :: sent', job :: jobs, job.id :: finished)
      | (none, sent, job) =>
        let (sent', job, ended) := job.readTurnForCm codec disk (faults i)
        (sent ++ sent', job :: jobs, if ended then [job.id] else [])

/-- `handle_read_jobs_tick`: what is sent and the jobs that remain. -/
def handleReadJobsTick (codec : Codec) (disk : Disk) (faults : ℕ → ReadFaults) (jobs : List TransferJob) :
    List ReadData × List TransferJob :=
  let (sent, jobs, finished) := tickJobs codec disk faults 0 jobs
  (sent, finished.foldl (fun jobs id => removeJob id jobs) jobs)

end TransferJob

/-- The getter of `skip`. -/
def SendConfirm.skip (r : SendConfirm) : Bool :=
  match r.union with
  | some (.skip value) => value
  | _ => false

/-- The getter of `offset_blk`. -/
def SendConfirm.offsetBlk (r : SendConfirm) : ℕ :=
  match r.union with
  | some (.offsetBlk offset) => offset
  | _ => 0

/-- `FS::SendConfirmForRead`. -/
structure ConfirmForRead where
  id : Int
  fileNum : Int
  skip : Bool
  offsetBlk : ℕ
deriving DecidableEq

/-- The confirmation as the connection hands it on. -/
def SendConfirm.forRead (r : SendConfirm) : ConfirmForRead :=
  { id := r.id, fileNum := r.fileNum, skip := r.skip, offsetBlk := r.offsetBlk }

/-- The request that the manager makes of it for a job. The number of the file is not looked at. -/
def ConfirmForRead.request (c : ConfirmForRead) (job : TransferJob) : SendConfirm :=
  { id := c.id
    fileNum := job.fileNum
    union := if c.skip then some (.skip true) else some (.offsetBlk c.offsetBlk) }

theorem getJob_cons (id : Int) (job : TransferJob) (jobs : List TransferJob) :
    getJob id (job :: jobs) = if job.id = id then some job else getJob id jobs := by
  rw [getJob, List.find?_cons]
  by_cases h : job.id = id
  · simp [h]
  · simp [h, getJob]

/-- The branch of `SendConfirmForRead` in `handle_fs`. -/
def confirmForRead (disk : Disk) (faults : TransferJob → Faults) (c : ConfirmForRead) (jobs : List TransferJob) :
    List TransferJob :=
  match getJob c.id jobs with
  | none => jobs
  | some job => setJob c.id (JobState.confirmed (faults job) (c.request job) ⟨job, disk⟩).job jobs

/-- The handlers of the connection for one answer: the numbers of the jobs that it still knows, and what
is sent to the client. -/
def relay (ids : Finset Int) : ReadData → Finset Int × List FileResponse
  | .readJobInitResult _ none => (ids, [])
  | .readJobInitResult id (some err) => (ids.erase id, if id ∈ ids then [.error id err 0] else [])
  | .fileBlockFromCm block => (ids, if block.id ∈ ids then [.block block] else [])
  | .fileReadDone id fileNum => (ids.erase id, if id ∈ ids then [.done id fileNum] else [])
  | .fileReadError id fileNum err => (ids.erase id, if id ∈ ids then [.error id err fileNum] else [])
  | .fileDigestFromCm id fileNum lastModified fileSize isResume =>
    (ids, if id ∈ ids then [.digest id fileNum lastModified fileSize isResume] else [])

/-- The answers one after the other. -/
def relayAll (ids : Finset Int) : List ReadData → Finset Int × List FileResponse
  | [] => (ids, [])
  | data :: later =>
    let first := relay ids data
    let rest := relayAll first.1 later
    (rest.1, first.2 ++ rest.2)

end UnyDesk
