import UnyDesk.Transfer.Read

/-!
# The client loop

The loop of a client handles messages of its own channel, which the user interface and the loop
itself write to, messages of the peer, and the ticks of its timer. The model keeps what has to do
with files: the jobs that read and write files, the removal jobs, and what is reported. The requests
that go to the peer are left out, except for the messages of read jobs.
-/

namespace UnyDesk

open Lib Function

/-- The value of an `i32` after an operation that wraps. -/
def wrapI32 (n : Int) : Int := n.bmod (2 ^ 32)

/-- `RemoveJob`; the time of its last report is left to the environment. -/
structure RemoveJob where
  files : List FileEntry
  path : String
  sep : String
  isRemote : Bool
  noConfirm : Bool := false
deriving DecidableEq

/-- `DigestCheckResult`. -/
inductive DigestCheck
  | isSame
  | needConfirm (lastModified fileSize transferredSize : ℕ) (isIdentical : Bool)
  | noSuchFile

/-- `Data`, as far as it concerns files. -/
inductive Data
  | sendFiles (id : Int) (type : JobType) (path target : String) (fileNum : Int) (isRemote : Bool)
  | addJob (id : Int) (type : JobType) (path target : String) (fileNum : Int) (isRemote : Bool)
  | resumeJob (id : Int) (isRemote : Bool)
  | setNoConfirm (id : Int)
  | confirmDeleteFiles (id fileNum : Int)
  | setConfirmOverrideFile (id fileNum : Int) (needOverride isUpload : Bool)
  | removeDirAll (id : Int) (path : String) (isRemote : Bool)
  | cancelJob (id : Int)
  | removeDir (id : Int) (path : String)
  | removeFile (id : Int) (path : String) (fileNum : Int) (isRemote : Bool)
  | createDir (id : Int) (path : String) (isRemote : Bool)
  | renameFile (id : Int) (path newName : String) (isRemote : Bool)
  | other

/-- A message of the peer, as far as it concerns files. -/
inductive PeerMessage
  | dir (id : Int) (entries : List FileEntry)
  | digest (id fileNum : Int) (lastModified fileSize transferredSize : ℕ) (isUpload isIdentical : Bool)
  | block (block : FileTransferBlock)
  | done (id fileNum : Int)
  | error (id : Int) (error : String) (fileNum : Int)
  | sendConfirm (request : SendConfirm)
  | other

/-- What the user is told or asked. -/
inductive Report
  | jobDone (id fileNum : Int)
  | jobError (id : Int) (error : String) (fileNum : Int)
  | confirmDeleteFiles (id fileNum : Int) (name : String)
  | overrideFileConfirm (id fileNum : Int) (path : String) (isUpload isIdentical : Bool)

/-- Who wrote a message of the channel. -/
inductive Origin
  | user
  /-- The loop itself, in `handle_job_status`. -/
  | chain
deriving DecidableEq

/-- A call of `fs::remove_file`. -/
structure Removal where
  origin : Origin
  id : Int
  path : String
deriving DecidableEq

/-- What the environment contributes to one event of the loop. -/
structure RemoteEnv where
  /-- The result of `get_recursive_files`. -/
  listing : Except String (List FileEntry) := .ok []
  /-- The failure of an operation on a local file or directory. -/
  operation : Option String := none
  /-- The separator of paths on either side, by the platform. -/
  pathSep : Bool → String := fun _ => "/"
  peerIsWindows : Bool := false
  /-- A second has passed since the last report on the removal job. -/
  reportDue : Bool := false
  canEnableOverwriteDetection : Bool := false
  symlinkChecks : Option String := none
  digestCheck : Except String DigestCheck := .ok .noSuchFile
  /-- The answer that an earlier choice of the user has set for all files of the job. -/
  overwriteStrategy : Option Bool := none
  faults : Faults := {}
  reads : ℕ → ReadFaults := fun _ => {}

/-- The loop. -/
structure Remote where
  disk : Disk
  readJobs : List TransferJob := []
  writeJobs : List TransferJob := []
  removeJobs : Int → Option RemoveJob := fun _ => none
  channel : List (Origin × Data) := []
  /-- The messages that read jobs have sent. -/
  toPeer : List FileResponse := []
  reports : List Report := []
  /-- The record of the local removal jobs, as they were created. -/
  created : List (Int × RemoveJob) := []
  /-- The record of removals. -/
  removed : List Removal := []

/-- `get_job`. -/
def getJob (id : Int) (jobs : List TransferJob) : Option TransferJob := jobs.find? fun job => job.id = id

/-- The jobs after a change to the job that `get_job` gives. -/
def setJob (id : Int) (job : TransferJob) : List TransferJob → List TransferJob
  | [] => []
  | old :: jobs => if old.id = id then job :: jobs else old :: setJob id job jobs

/-- `transform_windows_path`. -/
def transformWindowsPath (entries : List FileEntry) : List FileEntry :=
  entries.map fun e => { e with name := e.name.map fun c => if c = '\\' then '/' else c }

namespace TransferJob

/-- `new_read`, with the listing of its files. -/
def newRead (id : Int) (type : JobType) (path : String) (fileNum : Int) (enableOverwriteDetection : Bool)
    (listing : Except String (List FileEntry)) : Except String TransferJob :=
  listing.map fun files =>
    { id, type, dataSource := .filePath path, fileNum, enableOverwriteDetection, files
      totalSize := (files.map (·.size)).sum }

section

variable (job : TransferJob)

/-- `set_finished_size_on_resume`. -/
def setFinishedSizeOnResume : TransferJob :=
  if job.isResume ∧ 0 < job.fileNum then
    { job with finishedSize := ((job.files.take (asUsize job.fileNum)).map (·.size)).sum }
  else job

/-- `remove_download_file`. -/
def removeDownloadFile (disk : Disk) (faults : Faults) : Disk :=
  match job.type, job.dataSource, job.currentEntry with
  | .generic, .filePath base, some entry =>
    match job.resolveEntryPath base entry.name faults.resolve with
    | none => disk
    | some path => (disk.remove (locate (downloadPath path))).remove (locate (digestPath path))
  | _, _, _ => disk

/-- `set_digest`. -/
def setDigest (size modified : ℕ) : TransferJob := { job with digest := { size, modified } }

end

end TransferJob

/-- `confirm`, where a job is left as it was by a panic, which ends the loop. -/
def JobState.confirmed (faults : Faults) (request : SendConfirm) (s : JobState) : JobState :=
  (s.confirm faults request).getD s

open JobState

namespace Remote

/-- A change to the write job of a number and to the files. -/
def onWriteJob (s : Remote) (id : Int) (f : JobState → JobState) : Remote :=
  match getJob id s.writeJobs with
  | none => s
  | some job =>
    let after := f ⟨job, s.disk⟩
    { s with writeJobs := setJob id after.job s.writeJobs, disk := after.disk }

/-- A change to the read job of a number. -/
def onReadJob (s : Remote) (id : Int) (f : TransferJob → TransferJob) : Remote :=
  match getJob id s.readJobs with
  | none => s
  | some job => { s with readJobs := setJob id (f job) s.readJobs }

def report (s : Remote) (r : Report) : Remote := { s with reports := s.reports ++ [r] }

/-- The report at the end of `handle_job_status`. -/
def reportStatus (s : Remote) (id fileNum : Int) (err : Option String) : Remote :=
  match err with
  | some err => s.report (.jobError id err fileNum)
  | none => s.report (.jobDone id fileNum)

/-- The message of a removal job for one of its files. -/
def removalOf (id : Int) (job : RemoveJob) (n : ℕ) (entry : FileEntry) : Data :=
  .removeFile id (job.path ++ job.sep ++ entry.name) (wrapI32 n) job.isRemote

section

variable (env : RemoteEnv)

/-- `handle_job_status`. -/
def handleJobStatus (s : Remote) (id fileNum : Int) (err : Option String) : Remote :=
  match s.removeJobs id with
  | none => s.reportStatus id fileNum err
  | some job =>
    if job.noConfirm then
      let next := asUsize (wrapI32 (fileNum + 1))
      match job.files[next]? with
      | some entry =>
        let s := { s with channel := s.channel ++ [(.chain, removalOf id job next entry)] }
        if env.reportDue then s.reportStatus id fileNum err else s
      | none =>
        { s with removeJobs := update s.removeJobs id none }.reportStatus id fileNum err
    else s.reportStatus id fileNum err

/-- `cancel_transfer_job`. -/
def cancelTransferJob (s : Remote) (id : Int) : Remote :=
  { s with
    disk := (getJob id s.writeJobs).elim s.disk fun job => job.removeDownloadFile s.disk env.faults
    writeJobs := TransferJob.removeJob id s.writeJobs
    readJobs := TransferJob.removeJob id s.readJobs
    removeJobs := update s.removeJobs id none }

/-- The branches of `SendFiles` and `AddJob` for local files. -/
def startRead (s : Remote) (id : Int) (type : JobType) (path : String) (fileNum : Int)
    (isLastJob : Bool) : Remote :=
  match TransferJob.newRead id type path fileNum env.canEnableOverwriteDetection env.listing with
  | .error err => s.handleJobStatus env id (-1) (some err)
  | .ok job => { s with readJobs := s.readJobs ++ [{ job with isLastJob }] }

/-- The branches of `SendFiles` and `AddJob` for files of the peer. -/
def startWrite (s : Remote) (id : Int) (type : JobType) (target : DataSource) (fileNum : Int)
    (isLastJob : Bool) : Remote :=
  let job := TransferJob.newWrite id type target fileNum env.canEnableOverwriteDetection
  { s with writeJobs := s.writeJobs ++ [{ job with isLastJob }] }

end

/-- The answer to a question about an existing file. -/
def overrideAnswer (needOverride : Bool) (offset : ℕ) : ConfirmUnion :=
  if needOverride then .offsetBlk offset else .skip true

/-- The branch of `SetNoConfirm`. -/
def setNoConfirm (s : Remote) (id : Int) : Remote :=
  match s.removeJobs id with
  | none => s
  | some job => { s with removeJobs := update s.removeJobs id (some { job with noConfirm := true }) }

/-- The branch of `ConfirmDeleteFiles`. -/
def confirmDeleteFiles (s : Remote) (id fileNum : Int) : Remote :=
  match (s.removeJobs id).bind fun job => job.files[asUsize fileNum]? with
  | none => s
  | some entry => s.report (.confirmDeleteFiles id fileNum entry.name)

section

variable (env : RemoteEnv)

section

variable (s : Remote)

/-- The branch of `RemoveDirAll`. The files of the peer are listed by the peer. -/
def removeDirAll (id : Int) (path : String) (isRemote : Bool) : Remote :=
  let sep := env.pathSep isRemote
  if isRemote then
    { s with removeJobs := update s.removeJobs id (some { files := [], path, sep, isRemote }) }
  else
    match env.listing with
    | .error err => s.handleJobStatus env id (-1) (some err)
    | .ok files =>
      let job : RemoveJob := { files, path, sep, isRemote }
      { s with
        removeJobs := update s.removeJobs id (some job)
        created := s.created ++ [(id, job)] }

/-- A removal of a local file. -/
def removeLocalFile (origin : Origin) (id : Int) (path : String) (fileNum : Int) : Remote :=
  let disk := if env.operation.isSome then s.disk else s.disk.remove (locate path)
  let s : Remote := { s with disk, removed := s.removed ++ [⟨origin, id, path⟩] }
  s.handleJobStatus env id fileNum env.operation

/-- A change of the name of a local file. -/
def renameLocalFile (id : Int) (path newName : String) : Remote :=
  let disk :=
    if env.operation.isSome then s.disk
    else s.disk.rename (locate path) ((locate path).dropLast ++ locate newName)
  { s with disk }.handleJobStatus env id (-1) env.operation

/-- `handle_msg_from_ui`. -/
def handleMsgFromUi (origin : Origin) : Data → Remote
  | .sendFiles id type path target fileNum isRemote =>
    if isRemote then
      let source := match type with
        | .generic => .filePath target
        | .printer => .memoryCursor []
      s.startWrite env id type source fileNum false
    else s.startRead env id type path fileNum false
  | .addJob id type path target fileNum isRemote =>
    if isRemote then s.startWrite env id type (.filePath target) fileNum true
    else s.startRead env id type path fileNum true
  | .resumeJob id isRemote =>
    if isRemote then
      s.onWriteJob id fun js => { js with job := { js.job with isLastJob := false, isResume := true } }
    else
      s.onReadJob id fun job =>
        match job.dataSource with
        | .filePath _ => { job with isLastJob := false, isResume := true }.setFinishedSizeOnResume
        | .memoryCursor _ => job
  | .setNoConfirm id => s.setNoConfirm id
  | .confirmDeleteFiles id fileNum => s.confirmDeleteFiles id fileNum
  | .setConfirmOverrideFile id fileNum needOverride isUpload =>
    let request : SendConfirm := { id, fileNum, union := some (overrideAnswer needOverride 0) }
    if isUpload then s.onReadJob id fun job => (confirmed env.faults request ⟨job, s.disk⟩).job
    else s.onWriteJob id (confirmed env.faults request)
  | .removeDirAll id path isRemote => s.removeDirAll env id path isRemote
  | .cancelJob id => s.cancelTransferJob env id
  | .removeDir _ _ => s
  | .removeFile id path fileNum isRemote =>
    if isRemote then s else s.removeLocalFile env origin id path fileNum
  | .createDir id _ isRemote => if isRemote then s else s.handleJobStatus env id (-1) env.operation
  | .renameFile id path newName isRemote =>
    if isRemote then s else s.renameLocalFile env id path newName
  | .other => s

/-- The branch of a directory listing. -/
def handleDir (id : Int) (entries : List FileEntry) : Remote :=
  let entries := if env.peerIsWindows then transformWindowsPath entries else entries
  match getJob id s.writeJobs, s.removeJobs id with
  | some job, _ =>
    match job.setFiles entries env.symlinkChecks with
    | .error err => (s.cancelTransferJob env id).handleJobStatus env id (-1) (some err)
    | .ok job => { s with writeJobs := setJob id job.setFinishedSizeOnResume s.writeJobs }
  | none, some job =>
    { s with removeJobs := update s.removeJobs id (some { job with files := entries }) }
  | none, none => s

end

/-- The answer that the loop gives to the digest of a file without asking the user; the offset is cast to 32 bits. -/
def digestAnswer (isResume isIdentical : Bool) (transferredSize : ℕ) : Option ConfirmUnion :=
  if isIdentical ∧ isResume ∧ 0 < transferredSize then some (overrideAnswer true (transferredSize % 2 ^ 32))
  else env.overwriteStrategy.map fun overwrite => overrideAnswer overwrite 0

section

variable (s : Remote)

/-- The branch of a digest for a read job. -/
def handleUploadDigest (id fileNum : Int) (transferredSize : ℕ) (isIdentical : Bool) : Remote :=
  match getJob id s.readJobs with
  | none => s
  | some job =>
    match job.files[asUsize fileNum]?, job.dataSource with
    | some entry, .filePath base =>
      match digestAnswer env job.isResume isIdentical transferredSize with
      | some answer =>
        s.onReadJob id fun job => (confirmed env.faults ⟨id, fileNum, some answer⟩ ⟨job, s.disk⟩).job
      | none => s.report (.overrideFileConfirm id fileNum (joinPath base entry.name) true isIdentical)
    | _, _ => s

/-- The branch of a digest for a write job. -/
def handleDownloadDigest (id fileNum : Int) (lastModified fileSize : ℕ) : Remote :=
  match getJob id s.writeJobs with
  | none => s
  | some job =>
    match job.files[asUsize fileNum]?, job.dataSource with
    | some entry, .filePath base =>
      let s := s.onWriteJob id fun js => { js with job := js.job.setDigest fileSize lastModified }
      let confirm := fun answer =>
        s.onWriteJob id (confirmed env.faults ⟨id, fileNum, some answer⟩)
      match env.digestCheck with
      | .error _ => s
      | .ok .isSame => confirm (.skip true)
      | .ok .noSuchFile => confirm (.offsetBlk 0)
      | .ok (.needConfirm _ _ transferredSize isIdentical) =>
        match digestAnswer env job.isResume isIdentical transferredSize with
        | some answer => confirm answer
        | none => s.report (.overrideFileConfirm id fileNum (joinPath base entry.name) false isIdentical)
    | _, _ => s

/-- The end of a transfer job. The printing of what a job received is left out. -/
def endJob (type : JobType) (id fileNum : Int) (err : Option String) : Remote :=
  match type with
  | .generic => s.handleJobStatus env id fileNum err
  | .printer => s

/-- The branch of the end of a job. -/
def handleDone (id fileNum : Int) : Remote :=
  match getJob id s.writeJobs with
  | none => s.handleJobStatus env id fileNum none
  | some job =>
    { s with
      writeJobs := TransferJob.removeJob id s.writeJobs
      disk := job.modifyTime s.disk env.faults }.endJob env job.type id fileNum job.jobError

/-- The branch of an error: the job that it belongs to is dropped. -/
def handleError (id : Int) (error : String) (fileNum : Int) : Remote :=
  match getJob id s.writeJobs, getJob id s.readJobs with
  | some job, _ =>
    { s with writeJobs := TransferJob.removeJob id s.writeJobs }.endJob env job.type id fileNum (some error)
  | none, some job =>
    { s with readJobs := TransferJob.removeJob id s.readJobs }.endJob env job.type id fileNum (some error)
  | none, none => s.handleJobStatus env id fileNum (some error)

end

end

/-- `handle_msg_from_peer`. -/
def handleMsgFromPeer (codec : Codec) (env : RemoteEnv) (s : Remote) : PeerMessage → Remote
  | .dir id entries => s.handleDir env id entries
  | .digest id fileNum lastModified fileSize transferredSize isUpload isIdentical =>
    if isUpload then s.handleUploadDigest env id fileNum transferredSize isIdentical
    else s.handleDownloadDigest env id fileNum lastModified fileSize
  | .block block => s.onWriteJob block.id fun js => (js.write codec env.faults block).2
  | .done id fileNum => s.handleDone env id fileNum
  | .error id error fileNum => s.handleError env id error fileNum
  | .sendConfirm request =>
    s.onReadJob request.id fun job => (confirmed env.faults request ⟨job, s.disk⟩).job
  | .other => s

end Remote

/-- What can happen to the loop. -/
inductive RemoteEvent
  /-- The user interface writes to the channel. -/
  | ui (data : Data)
  /-- The loop takes the next message of the channel. -/
  | receive (env : RemoteEnv)
  | peer (env : RemoteEnv) (message : PeerMessage)
  | tick (env : RemoteEnv)

/-- One event of the loop. -/
def Remote.step (codec : Codec) (s : Remote) : RemoteEvent → Remote
  | .ui data => { s with channel := s.channel ++ [(.user, data)] }
  | .receive env =>
    match s.channel with
    | [] => s
    | (origin, data) :: channel => { s with channel }.handleMsgFromUi env origin data
  | .peer env message => s.handleMsgFromPeer codec env message
  | .tick env =>
    let round := TransferJob.handleReadJobs codec s.disk env.reads s.readJobs
    { s with readJobs := round.2.1, toPeer := s.toPeer ++ round.1 }

end UnyDesk
