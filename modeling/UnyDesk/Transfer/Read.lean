import UnyDesk.Transfer.Job

/-!
# The sending side of a transfer

A read job opens its files one after the other, asks for a confirmation of each when overwrite
detection is on, and turns a file into blocks and a final empty block. Reads of the operating
system may return fewer bytes than asked for and may fail.
-/

namespace UnyDesk

open Lib

/-- `FileResponse.union`, as far as a read job sends it. -/
inductive FileResponse
  | block (block : FileTransferBlock)
  | done (id fileNum : Int)
  | error (id : Int) (error : String) (fileNum : Int)
  | digest (id fileNum : Int) (lastModified fileSize : ℕ) (isResume : Bool)
deriving DecidableEq

/-- One `read` of the operating system. -/
inductive ReadOutcome
  /-- At least one byte, if there is one, and at most one more than the number. -/
  | upTo (n : ℕ)
  | fails (error : String)

/-- What the operating system does with the steps of one round on a read job. -/
structure ReadFaults where
  opened : Option String := none
  metadata : Option String := none
  /-- The time of modification that the metadata give. -/
  modified : ℕ := 0
  /-- The first reads of the round; the others return as much as fits. -/
  reads : List ReadOutcome := []

/-- `BUF_SIZE` of `TransferJob::read`. -/
def bufSize : ℕ := 128 * 1024

/-- `get_ext`: what follows the last dot. -/
def getExt (name : String) : String :=
  if '.' ∈ name.toList then String.ofList (name.toList.reverse.takeWhile (· ≠ '.')).reverse else ""

/-- `is_compressed_file`. -/
def isCompressedFile (name : String) : Bool :=
  getExt name ∈ ["xz", "gz", "zip", "7z", "rar", "bz2", "tgz", "png", "jpg"]

/-- `Path::file_name`, with the empty text for a path without one. -/
def pathFileName (path : String) : String :=
  match ((segments path.toList).filter fun s => !skippedSegment s).getLast? with
  | some s => if s = ['.', '.'] then "" else String.ofList s
  | none => ""

/-- The loop that fills the buffer: `rest` is unread and `room` is free. -/
def fillBuffer : List ReadOutcome → Bytes → ℕ → Except String Bytes
  | [], rest, room => .ok (rest.take room)
  | .fails e :: _, _, _ => .error e
  | .upTo n :: reads, rest, room =>
    let got := rest.take (min (n + 1) room)
    if got = [] ∨ got.length = room then .ok got
    else (fillBuffer reads (rest.drop got.length) (room - got.length)).map (got ++ ·)

/-- What a stream still has to give. -/
def DataStream.rest (disk : Disk) : DataStream → Bytes
  | .fileStream file => (disk.data file.inode).drop file.pos
  | .bufStream bytes pos => bytes.drop pos

/-- The stream after so many bytes were read. -/
def DataStream.advance (n : ℕ) : DataStream → DataStream
  | .fileStream file => .fileStream { file with pos := file.pos + n }
  | .bufStream bytes pos => .bufStream bytes (pos + n)

namespace TransferJob

/-- The job after its file was given up or read to the end. -/
def nextFile (job : TransferJob) : TransferJob :=
  { job with
    fileNum := job.fileNum + 1
    dataStream := none
    fileConfirmed := false
    fileIsWaiting := false }

/-- `File::open`. -/
def openFile (disk : Disk) (path : String) (fault : Option String) : Except String OpenFile :=
  match fault, disk.names (locate path) with
  | some e, _ => .error e
  | none, none => .error "No such file or directory (os error 2)"
  | none, some inode => .ok { path, inode, writable := false }

/-- `open_data_stream`: whether the job is done. -/
def openDataStream (disk : Disk) (faults : ReadFaults) (job : TransferJob) : Except String Bool × TransferJob :=
  match job.dataSource with
  | .filePath base =>
    match job.currentEntry with
    | none => (.ok true, { job with dataStream := none })
    | some entry =>
      match job.dataStream with
      | some _ => (.ok false, job)
      | none =>
        match openFile disk (joinPath base entry.name) faults.opened with
        | .ok file =>
          (.ok false, { job with
              dataStream := some (.fileStream file)
              fileConfirmed := false
              fileIsWaiting := false })
        | .error e => (.error e, job.nextFile)
  | .memoryCursor bytes =>
    match job.dataStream with
    | some _ => (.ok false, job)
    | none =>
      (.ok false, { job with dataStream := some (.bufStream bytes 0), dataSource := .memoryCursor [] })

/-- `get_current_digest`: the time of modification and the size of the open file. -/
def getCurrentDigest (disk : Disk) (faults : ReadFaults) (job : TransferJob) : Except String (ℕ × ℕ) :=
  match job.dataStream with
  | none => .error "file is None"
  | some (.bufStream _ _) => .error "No digest for buf stream"
  | some (.fileStream file) =>
    match faults.metadata with
    | some e => .error e
    | none => .ok (faults.modified, (disk.data file.inode).length)

/-- The job waits for a confirmation that it has not asked for yet. -/
def needsDigest (job : TransferJob) : Bool :=
  decide (job.type = .generic) && job.enableOverwriteDetection && !job.fileConfirmed && !job.fileIsWaiting

/-- `init_data_stream`: an error, the messages that are sent and the job. -/
def initDataStream (disk : Disk) (faults : ReadFaults) (job : TransferJob) :
    Option String × List FileResponse × TransferJob :=
  match job.openDataStream disk faults with
  | (.error e, job) => (some e, [], job)
  | (.ok true, job) => (none, [], job)
  | (.ok false, job) =>
    if job.needsDigest then
      match job.getCurrentDigest disk faults with
      | .error e => (some e, [], job)
      | .ok (lastModified, fileSize) =>
        (none, [.digest job.id job.fileNum lastModified fileSize job.isResume], { job with fileIsWaiting := true })
    else (none, [], job)

/-- The name that decides whether a block is worth compressing. -/
def blockName (job : TransferJob) (base : String) (entry : FileEntry) : String :=
  if job.files.length = 1 ∧ entry.name = "" then pathFileName base else entry.name

/-- The data of a block and whether they are compressed. -/
def packed (codec : Codec) (compressible : Bool) (buf : Bytes) : Bytes × Bool :=
  if compressible ∧ (codec.compress buf).length < buf.length then (codec.compress buf, true)
  else (buf, false)

/-- The end of `read`, with a filled buffer. -/
def blockOf (codec : Codec) (job : TransferJob) (compressible : Bool) (stream : DataStream) (buf : Bytes) :
    FileTransferBlock × TransferJob :=
  let fileNum := job.fileNum
  if buf = [] then ({ id := job.id, fileNum, data := [] }, job.nextFile)
  else
    let (data, compressed) := packed codec compressible buf
    ({ id := job.id, fileNum, data, compressed }, { job with
        dataStream := some (stream.advance buf.length)
        finishedSize := job.finishedSize + buf.length
        transferred := job.transferred + data.length })

/-- `read`. -/
def read (codec : Codec) (disk : Disk) (faults : ReadFaults) (job : TransferJob) :
    Except String (Option FileTransferBlock) × TransferJob :=
  if job.type = .generic ∧ job.enableOverwriteDetection ∧ !job.fileConfirmed then (.ok none, job)
  else
    match job.dataSource, job.currentEntry with
    | .filePath _, none => (.ok none, { job with dataStream := none })
    | .filePath base, some entry =>
      match job.dataStream with
      | none => (.error "data stream is None", job)
      | some stream =>
        match fillBuffer faults.reads (stream.rest disk) bufSize with
        | .error e => (.error e, job.nextFile)
        | .ok buf =>
          let (block, job) := job.blockOf codec (!isCompressedFile (job.blockName base entry)) stream buf
          (.ok (some block), job)
    | .memoryCursor _, _ =>
      match job.dataStream with
      | none => (.error "data stream is None", job)
      | some stream =>
        match fillBuffer faults.reads (stream.rest disk) bufSize with
        | .error e => (.error e, job.nextFile)
        | .ok buf =>
          if buf = [] then (.ok none, { job with dataStream := none })
          else
            let (block, job) := job.blockOf codec false stream buf
            (.ok (some block), job)

section

variable (job : TransferJob)

/-- `job_completed`. -/
def jobCompleted : Bool :=
  !job.enableOverwriteDetection || (!job.fileConfirmed && !job.fileIsWaiting)

/-- `job_skipped`. -/
def jobSkipped : Bool := job.fileSkipped && decide (job.files.length = 1)

/-- `job_error`. -/
def jobError : Option String := if job.jobSkipped then some "skipped" else none

end

/-- `init_jobs` for one job. -/
def initJob (disk : Disk) (faults : ReadFaults) (job : TransferJob) : List FileResponse × TransferJob :=
  if job.isLastJob then ([], job)
  else
    match job.initDataStream disk faults with
    | (some e, sent, job) => (sent ++ [.error job.id e job.fileNum], job)
    | (none, sent, job) => (sent, job)

/-- The turn of one job in `handle_read_jobs`: what is sent, the job, and whether it has ended. -/
def readTurn (codec : Codec) (disk : Disk) (faults : ReadFaults) (job : TransferJob) :
    List FileResponse × TransferJob × Bool :=
  match job.read codec disk faults with
  | (.error e, job) => ([.error job.id e job.fileNum], job, false)
  | (.ok (some block), job) => ([.block block], job, false)
  | (.ok none, job) =>
    if job.jobCompleted then
      match job.jobError with
      | some e => ([.error job.id e job.fileNum], job, true)
      | none => ([.done job.id job.fileNum], job, true)
    else ([], job, false)

/-- The turn goes to the first job that is not a leftover of the last session. -/
def firstTurn (codec : Codec) (disk : Disk) (faults : ℕ → ReadFaults) :
    ℕ → List TransferJob → List FileResponse × List TransferJob × Option TransferJob
  | _, [] => ([], [], none)
  | i, job :: jobs =>
    if job.isLastJob then
      let (sent, jobs, ended) := firstTurn codec disk faults (i + 1) jobs
      (sent, job :: jobs, ended)
    else
      let (sent, job, ended) := job.readTurn codec disk (faults i)
      (sent, job :: jobs, if ended then some job else none)

/-- `remove_job`. -/
def removeJob (id : Int) : List TransferJob → List TransferJob
  | [] => []
  | job :: jobs => if job.id = id then jobs else job :: removeJob id jobs

/-- `handle_read_jobs`: the messages that are sent, the jobs that remain, and the job that has ended,
which the log reports. -/
def handleReadJobs (codec : Codec) (disk : Disk) (faults : ℕ → ReadFaults) (jobs : List TransferJob) :
    List FileResponse × List TransferJob × Option TransferJob :=
  let opened := jobs.mapIdx fun i job => job.initJob disk (faults i)
  let (sent, jobs, ended) := firstTurn codec disk faults 0 (opened.map Prod.snd)
  ((opened.map Prod.fst).flatten ++ sent, ended.elim jobs fun job => removeJob job.id jobs, ended)

end TransferJob

end UnyDesk
