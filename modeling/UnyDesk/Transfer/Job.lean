import Mathlib.Algebra.Group.Int.Defs
import Mathlib.Algebra.GroupWithZero.Nat
import UnyDesk.Lib.Utf8
import UnyDesk.Transfer.Path

/-!
# Transfer jobs

The state of one transfer and the calls on its receiving side. A call works on a file system; the
steps of the operating system inside a call can fail, and the state that an early return leaves
behind is part of the model. Writes take effect at once, and directories and times of
modification are left out.
-/

namespace UnyDesk

open Lib

/-- `JobType`. -/
inductive JobType
  | generic
  | printer
deriving DecidableEq

/-- `FileEntry`; the kind of an entry is not read by a job. -/
structure FileEntry where
  name : String
  size : ℕ := 0
  modifiedTime : ℕ := 0
deriving DecidableEq

/-- `DataSource`. -/
inductive DataSource
  | filePath (path : String)
  | memoryCursor (bytes : Bytes)
deriving DecidableEq

/-- An open file: the path it was opened at, the file behind it and the position in it. -/
structure OpenFile where
  path : String
  inode : ℕ
  pos : ℕ := 0
  writable : Bool := true
deriving DecidableEq

/-- `DataStream`. -/
inductive DataStream
  | fileStream (file : OpenFile)
  | bufStream (bytes : Bytes) (pos : ℕ)
deriving DecidableEq

/-- `FileDigest`. -/
structure FileDigest where
  size : ℕ := 0
  modified : ℕ := 0
deriving DecidableEq

/-- `TransferJob`. -/
structure TransferJob where
  id : Int
  type : JobType := .generic
  dataSource : DataSource
  isLastJob : Bool := false
  isResume : Bool := false
  fileNum : Int := 0
  files : List FileEntry := []
  dataStream : Option DataStream := none
  totalSize : ℕ := 0
  finishedSize : ℕ := 0
  transferred : ℕ := 0
  enableOverwriteDetection : Bool := false
  fileConfirmed : Bool := false
  fileSkipped : Bool := false
  fileIsWaiting : Bool := false
  digest : FileDigest := {}
deriving DecidableEq

/-- `FileTransferBlock`. -/
structure FileTransferBlock where
  id : Int
  fileNum : Int
  data : Bytes
  compressed : Bool := false
deriving DecidableEq

/-- `file_transfer_send_confirm_request::Union`. -/
inductive ConfirmUnion
  | skip (value : Bool)
  | offsetBlk (offset : ℕ)
deriving DecidableEq

/-- `FileTransferSendConfirmRequest`. -/
structure SendConfirm where
  id : Int
  fileNum : Int
  union : Option ConfirmUnion

/-- The compression of the blocks. -/
structure Codec where
  compress : Bytes → Bytes
  decompress : Bytes → Bytes

/-- The conversion of an `i32` to a `usize`. -/
def asUsize (n : Int) : ℕ := if 0 ≤ n then n.toNat else (n + 2 ^ 64).toNat

@[simp] theorem asUsize_natCast (n : ℕ) : asUsize n = n := by
  simp [asUsize]

/-- The files of one side of a transfer. -/
abbrev Disk := FileSystem Location UInt8

/-- What the operating system does with the steps of one call. Every step succeeds by default;
an error is the text that the step fails with. -/
structure Faults where
  -- Inside `modify_time`, where failures are passed over.
  resolve : Option String := none
  unlinked : Bool := true
  renamed : Bool := true
  -- Inside `write`.
  sync : Option String := none
  symlinkCheck : Option String := none
  digestRemoval : Option String := none
  create : Option String := none
  digestWritten : Bool := true
  /-- The bytes that are written before `write_all` fails. -/
  writeAll : Option (ℕ × String) := none
  -- Inside `set_stream_offset`.
  reopened : Bool := true
  sought : Bool := true
deriving DecidableEq

/-- The result of a step that ends with the given error. -/
def failWith : Option String → Except String Unit
  | none => .ok ()
  | some e => .error e

namespace TransferJob

/-- `new_write`. -/
def newWrite (id : Int) (type : JobType) (dataSource : DataSource) (fileNum : Int)
    (enableOverwriteDetection : Bool) : TransferJob :=
  { id, type, dataSource, fileNum, enableOverwriteDetection }

/-- `validate_transfer_file_names`. -/
def validateTransferFileNames (files : List FileEntry) : Except String Unit :=
  match files with
  | [⟨"", _, _⟩] => .ok ()
  | _ =>
    files.forM fun file =>
      if file.name = "" then .error "empty file name in multi-file transfer"
      else validateFileNameNoTraversal file.name

section

variable (job : TransferJob)

/-- `set_files`; `symlinkChecks` are the results of the checks on the base path. -/
def setFiles (files : List FileEntry) (symlinkChecks : Option String) : Except String TransferJob := do
  validateTransferFileNames files
  if let .filePath _ := job.dataSource then failWith symlinkChecks
  return { job with totalSize := (files.map (·.size)).sum, files }

/-- `resolve_entry_path`. -/
def resolveEntryPath (base name : String) (symlinkCheck : Option String) : Option String :=
  match job.type with
  | .generic => (joinValidatedPath base name (failWith symlinkCheck)).toOption
  | .printer => some (joinPath base name)

/-- The entry that the job is at. -/
def currentEntry : Option FileEntry := job.files[asUsize job.fileNum]?

/-- `modify_time`: the received file takes the place of the destination. -/
def modifyTime (disk : Disk) (faults : Faults) : Disk :=
  match job.type, job.dataSource, job.currentEntry with
  | .generic, .filePath base, some entry =>
    match job.resolveEntryPath base entry.name faults.resolve with
    | none => disk
    | some path =>
      let disk := if faults.unlinked then disk.remove (locate (digestPath path)) else disk
      if faults.renamed then disk.rename (locate (downloadPath path)) (locate path) else disk
  | _, _, _ => disk

/-- `set_file_confirmed`. -/
def setFileConfirmed (confirmed : Bool) : TransferJob :=
  { job with fileConfirmed := confirmed, fileSkipped := false }

/-- `set_file_skipped`. -/
def setFileSkipped : TransferJob :=
  { (job.setFileConfirmed false) with
    dataStream := none
    fileIsWaiting := false
    fileNum := job.fileNum + 1
    fileSkipped := true }

/-- The paths that `write` opens for an entry: where its blocks go and where its digest is kept. -/
def writePaths (base : String) (entry : FileEntry) (symlinkCheck : Option String) :
    Except String (String × Option String) :=
  match job.type with
  | .printer => .ok (base, none)
  | .generic => do
    let path ← joinValidatedPath base entry.name (failWith symlinkCheck)
    return (downloadPath path, some (digestPath path))

end

end TransferJob

/-- The text that `write` keeps beside an unfinished file. -/
def FileDigest.text (digest : FileDigest) : Bytes :=
  Utf8.encode ("\x7b\"modified\":" ++ toString digest.modified ++ ",\"size\":" ++ toString digest.size ++ "\x7d")

/-- A job together with the files it works on. -/
structure JobState where
  job : TransferJob
  disk : Disk

/-- `write_all` on a stream. A file that was opened for reading refuses. -/
def DataStream.writeAll (disk : Disk) (bytes : Bytes) : DataStream → Option String × DataStream × Disk
  | .fileStream file =>
    if file.writable then
      (none, .fileStream { file with pos := file.pos + bytes.length }, disk.write file.inode file.pos bytes)
    else (some "Bad file descriptor", .fileStream file, disk)
  | .bufStream old pos => (none, .bufStream (overwrite old pos bytes) (pos + bytes.length), disk)

namespace JobState

/-- `modify_time`, on the files of the job. -/
def modifyTime (s : JobState) (faults : Faults) : JobState :=
  { s with disk := s.job.modifyTime s.disk faults }

/-- The job with another number of the current entry. -/
def atFile (s : JobState) (fileNum : Int) : JobState := { s with job := { s.job with fileNum } }

/-- Opens the blocks' file of an entry, after the stale digest is gone. -/
def createStream (s : JobState) (faults : Faults) (path : String) (digest : Option String) : Option String × JobState :=
  let stale := digest.any fun d => s.disk.existsAt (locate d)
  match if stale then faults.digestRemoval else none with
  | some e => (some e, s)
  | none =>
    let disk := if stale then digest.elim s.disk fun d => s.disk.remove (locate d) else s.disk
    match faults.create with
    | some e => (some e, { s with disk })
    | none =>
      let opened := disk.create (locate path)
      let disk :=
        if faults.digestWritten then
          digest.elim opened.1 fun d => opened.1.put (locate d) s.job.digest.text
        else opened.1
      let stream := DataStream.fileStream { path, inode := opened.2 }
      (none, { job := { s.job with dataStream := some stream }, disk })

/-- The change to the entry of a block. The number of the entry changes before the steps that open
its file. -/
def switchFile (s : JobState) (faults : Faults) (base : String) (fileNum : Int) (entry : FileEntry) :
    Option String × JobState :=
  let s := s.modifyTime faults
  match s.job.dataStream, faults.sync with
  | some (.fileStream _), some e => (some e, s)
  | _, _ =>
    match s.job.writePaths base entry faults.symlinkCheck with
    | .error e => (some e, s.atFile fileNum)
    | .ok (path, digest) => (s.atFile fileNum).createStream faults path digest

/-- The bytes that a block stands for. -/
def blockBytes (codec : Codec) (block : FileTransferBlock) : Bytes :=
  if block.compressed then codec.decompress block.data else block.data

/-- The end of `write`: the bytes of the block go to the stream. -/
def writeData (codec : Codec) (s : JobState) (faults : Faults) (block : FileTransferBlock) :
    Option String × JobState :=
  let bytes := blockBytes codec block
  match s.job.dataStream with
  | none => (some (if block.compressed then "data stream is None" else "file is None"), s)
  | some stream =>
    match faults.writeAll with
    | some (written, e) =>
      let (_, stream, disk) := stream.writeAll s.disk (bytes.take written)
      (some e, { job := { s.job with dataStream := some stream }, disk })
    | none =>
      match stream.writeAll s.disk bytes with
      | (some e, stream, disk) =>
        (some e, { job := { s.job with dataStream := some stream }, disk })
      | (none, stream, disk) =>
        (none,
          { job :=
              { s.job with
                dataStream := some stream
                finishedSize := s.job.finishedSize + bytes.length
                transferred := s.job.transferred + block.data.length }
            disk })

/-- The part of `write` that chooses the stream. -/
def chooseStream (s : JobState) (faults : Faults) (block : FileTransferBlock) : Option String × JobState :=
  match s.job.dataSource with
  | .filePath base =>
    match s.job.files[asUsize block.fileNum]? with
    | none => (some "Wrong file number", s)
    | some entry =>
      if asUsize block.fileNum ≠ asUsize s.job.fileNum ∨ s.job.dataStream = none then
        s.switchFile faults base block.fileNum entry
      else (none, s)
  | .memoryCursor bytes =>
    match s.job.dataStream with
    | none => (none, { s with job := { s.job with dataStream := some (.bufStream bytes 0) } })
    | some _ => (none, s)

/-- `write`. -/
def write (codec : Codec) (s : JobState) (faults : Faults) (block : FileTransferBlock) : Option String × JobState :=
  if block.id ≠ s.job.id then (some "Wrong id", s)
  else
    match s.chooseStream faults block with
    | (some e, s) => (some e, s)
    | (none, s) => s.writeData codec faults block

/-- `set_stream_offset`; `none` is the panic on an entry that does not exist. -/
def setStreamOffset (s : JobState) (faults : Faults) (fileNum : Int) (offset : ℕ) : Option JobState :=
  match s.job.dataSource with
  | .memoryCursor _ => some s
  | .filePath base =>
    match s.job.files[asUsize fileNum]? with
    | none => none
    | some entry =>
      match s.job.resolveEntryPath base entry.name faults.resolve with
      | none => some s
      | some path =>
        let download := locate (downloadPath path)
        let opened : Option OpenFile :=
          if s.disk.existsAt download ∧ s.disk.existsAt (locate (digestPath path)) then
            (s.disk.names download).map fun inode => { path := downloadPath path, inode }
          else (s.disk.names (locate path)).map fun inode => { path, inode, writable := false }
        match opened, faults.reopened, faults.sought with
        | some file, true, true =>
          some { s with
              job :=
                { s.job with
                  dataStream := some (.fileStream { file with pos := offset })
                  transferred := s.job.transferred + offset
                  finishedSize := s.job.finishedSize + offset } }
        | _, _, _ => some s

/-- `confirm`; `none` is a panic. -/
def confirm (s : JobState) (faults : Faults) (r : SendConfirm) : Option JobState :=
  if s.job.fileNum ≠ r.fileNum then some s
  else
    match r.union with
    | some (.skip true) => some { s with job := s.job.setFileSkipped }
    | some (.skip false) => some { s with job := s.job.setFileConfirmed true }
    | some (.offsetBlk offset) =>
      let s := { s with job := s.job.setFileConfirmed true }
      if 0 < offset then s.setStreamOffset faults r.fileNum offset else some s
    | none => some s

end JobState

end UnyDesk
