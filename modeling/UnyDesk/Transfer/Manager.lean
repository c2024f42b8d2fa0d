import UnyDesk.Client.Remote

/-!
# The receiving side of an upload

The controlled side hands the messages of a file transfer to its connection manager, which keeps the
jobs that write. A failure on the side of the client ends the job here; the end of a job is answered
only while there is one.
-/

namespace UnyDesk

open Lib

/-- `ipc::FS`, as far as it concerns write jobs. -/
inductive FS
  | newWrite (id : Int) (path : String) (fileNum : Int) (files : List (String × ℕ)) (overwriteDetection : Bool)
      (totalSize : ℕ)
  | cancelWrite (id : Int)
  | writeBlock (block : FileTransferBlock)
  | writeDone (id fileNum : Int)
  | writeError (id fileNum : Int) (err : String)
  | checkDigest (id fileNum : Int) (fileSize lastModified : ℕ) (isUpload isResume : Bool)
  | sendConfirm (request : SendConfirm)

/-- The messages of a read job, as the controlled side hands them on. -/
def FileResponse.toFs : FileResponse → FS
  | .block b => .writeBlock b
  | .done id fileNum => .writeDone id fileNum
  | .digest id fileNum lastModified fileSize isResume => .checkDigest id fileNum fileSize lastModified true isResume
  | .error id e fileNum => .writeError id fileNum e

/-- The messages of a read job, as a client gets them. -/
def FileResponse.toMessage : FileResponse → PeerMessage
  | .block b => .block b
  | .done id fileNum => .done id fileNum
  | .digest id fileNum lastModified fileSize _ => .digest id fileNum lastModified fileSize 0 false false
  | .error id e fileNum => .error id e fileNum

/-- What the environment contributes to one message. -/
structure ManagerEnv where
  symlinkChecks : Option String := none
  digestCheck : Except String DigestCheck := .ok .noSuchFile
  faults : Faults := {}

/-- The write jobs of the connection manager, its files and what it has sent to the client. -/
structure Manager where
  disk : Disk
  writeJobs : List TransferJob := []
  toPeer : List PeerMessage := []

namespace Manager

def send (m : Manager) (message : PeerMessage) : Manager := { m with toPeer := m.toPeer ++ [message] }

/-- The branch of `NewWrite`. -/
def newWrite (env : ManagerEnv) (m : Manager) (id : Int) (path : String) (fileNum : Int)
    (files : List (String × ℕ)) (overwriteDetection : Bool) (totalSize : ℕ) : Manager :=
  let job := TransferJob.newWrite id .generic (.filePath path) fileNum overwriteDetection
  match job.setFiles (files.map fun f => { name := f.1, modifiedTime := f.2 }) env.symlinkChecks with
  | .error err => m.send (.error id err fileNum)
  | .ok job => { m with writeJobs := m.writeJobs ++ [{ job with totalSize }] }

/-- The branch of `CheckDigest`. -/
def checkDigest (env : ManagerEnv) (m : Manager) (id fileNum : Int) (fileSize lastModified : ℕ)
    (isUpload : Bool) : Manager :=
  match getJob id m.writeJobs with
  | none => m
  | some job =>
    match job.files[asUsize fileNum]?, job.dataSource with
    | some _, .filePath _ =>
      match env.digestCheck with
      | .error err => m.send (.error id err fileNum)
      | .ok result =>
        let m := { m with writeJobs := setJob id (job.setDigest fileSize lastModified) m.writeJobs }
        match result with
        | .isSame => m.send (.sendConfirm ⟨id, fileNum, some (.skip true)⟩)
        | .needConfirm lastModified fileSize transferredSize isIdentical =>
          m.send (.digest id fileNum lastModified fileSize transferredSize isUpload isIdentical)
        | .noSuchFile => m.send (.sendConfirm ⟨id, fileNum, some (.offsetBlk 0)⟩)
    | _, _ => m

/-- The branch of `WriteBlock`. -/
def writeBlock (codec : Codec) (env : ManagerEnv) (m : Manager) (block : FileTransferBlock) : Manager :=
  match getJob block.id m.writeJobs with
  | none => m
  | some job =>
    let written := JobState.write codec ⟨job, m.disk⟩ env.faults block
    let m := { m with writeJobs := setJob block.id written.2.job m.writeJobs, disk := written.2.disk }
    match written.1 with
    | none => m
    | some err => m.send (.error block.id err block.fileNum)

/-- `handle_fs`. -/
def handleFs (codec : Codec) (env : ManagerEnv) (m : Manager) : FS → Manager
  | .newWrite id path fileNum files overwriteDetection totalSize =>
    m.newWrite env id path fileNum files overwriteDetection totalSize
  | .cancelWrite id =>
    { m with
      disk := (getJob id m.writeJobs).elim m.disk fun job => job.removeDownloadFile m.disk env.faults
      writeJobs := TransferJob.removeJob id m.writeJobs }
  | .writeDone id fileNum =>
    match getJob id m.writeJobs with
    | none => m
    | some job =>
      { m with
        writeJobs := TransferJob.removeJob id m.writeJobs
        disk := job.modifyTime m.disk env.faults }.send (.done id fileNum)
  | .writeError id fileNum err =>
    match getJob id m.writeJobs with
    | none => m
    | some job => { m with writeJobs := TransferJob.removeJob id m.writeJobs }.send (.error job.id err fileNum)
  | .writeBlock block => m.writeBlock codec env block
  | .checkDigest id fileNum fileSize lastModified isUpload _ =>
    m.checkDigest env id fileNum fileSize lastModified isUpload
  | .sendConfirm request =>
    match getJob request.id m.writeJobs with
    | none => m
    | some job =>
      let after := JobState.confirmed env.faults request ⟨job, m.disk⟩
      { m with writeJobs := setJob request.id after.job m.writeJobs, disk := after.disk }

end Manager

end UnyDesk
