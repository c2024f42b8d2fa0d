import UnyDesk.Lib.LittleEndian
import UnyDesk.Proto.Message

/-!
# Files on the clipboard

A side that has files on its clipboard lists them once and then serves requests for their sizes and for
ranges of their bytes. A file is opened when it is asked for and read through one handle, whose position
is kept so that a reader that goes on does not seek. A word of 32 bits stands for an `i32` of a message.
-/

namespace UnyDesk

open Lib

/-- `ClipboardFile`, as far as it is about the contents of files. -/
inductive ClipboardFile
  | fileContentsRequest (streamId listIndex dwFlags nPositionLow nPositionHigh cbRequested : BitVec 32)
      (haveClipDataId : Bool) (clipDataId : BitVec 32)
  | fileContentsResponse (msgFlags streamId : BitVec 32) (requestedData : Bytes)
  | files (files : List (String × ℕ))
deriving DecidableEq

inductive CliprdrError
  | conversionFailure
  | fileError (path err : String)
  | invalidRequest (description : String)
  | commonError (description : String)
deriving DecidableEq

/-- The conversion of an `i32` to a `u64` or a `usize`. -/
def i32ToU64 (n : BitVec 32) : ℕ := (n.signExtend 64).toNat

/-- The block size of requests. -/
def blockSize : ℕ := 4 * 1024 * 1024

/-- What the system tells about a file. Times are nanoseconds after 1970. -/
structure FileMetadata where
  len : ℕ
  isDir : Bool
  readonly : Bool
  modified : Option Int
  mode : ℕ

structure LocalFile where
  relativeRoot : String
  path : String
  /-- The position of the reader, while the file is open. -/
  handle : Option ℕ
  offset : ℕ
  size : ℕ
  lastWriteTime : Int
  isDir : Bool
  perm : ℕ
  readOnly : Bool
  hidden : Bool
  system : Bool
  archive : Bool
  normal : Bool
deriving DecidableEq

/-- The file system while a request is served; the errors are the texts that the steps end with. -/
structure ClipEnv where
  content : String → Bytes
  isFile : String → Bool
  isDir : String → Bool
  opened : String → Option String
  read : String → Option String

/-- `read_exact` from a position; an empty buffer is full at once. -/
def ClipEnv.readExact (env : ClipEnv) (path : String) (pos length : ℕ) : Except String Bytes :=
  match env.read path with
  | some e => .error e
  | none =>
    if length = 0 ∨ pos + length ≤ (env.content path).length then .ok (((env.content path).drop pos).take length)
    else .error "failed to fill whole buffer"

namespace LocalFile

def tryOpen (relativeRoot path : String) (metadata : Except String FileMetadata) : Except CliprdrError LocalFile :=
  match metadata with
  | .error e => .error (.fileError path e)
  | .ok mt =>
    let hidden := path.toList.head? = some '.'
    .ok
      { relativeRoot, path, handle := none, offset := 0, size := mt.len, lastWriteTime := mt.modified.getD 0
        isDir := mt.isDir, perm := mt.mode, readOnly := mt.readonly, hidden, system := false, archive := false
        normal := !(mt.isDir || mt.readonly || hidden) }

def loadHandle (env : ClipEnv) (file : LocalFile) : Except CliprdrError LocalFile :=
  if file.isDir = false ∧ file.handle = none then
    match env.opened file.path with
    | some e => .error (.fileError file.path e)
    | none => .ok { file with handle := some 0 }
  else .ok file

/-- `invalidate_handle`. -/
def closed (file : LocalFile) : LocalFile := { file with offset := 0, handle := none }

/-- `read_exact_at`, for a buffer of the given length. -/
def readExactAt (env : ClipEnv) (file : LocalFile) (length offset : ℕ) : Except CliprdrError Bytes × LocalFile :=
  match file.loadHandle env with
  | .error e => (.error e, file)
  | .ok file =>
    match file.handle with
    | none => (.error (.fileError file.path "file handle not found"), file)
    | some pos =>
      let start := if offset ≠ file.offset then offset else pos
      match env.readExact file.path start length with
      | .error e => (.error (.fileError file.path e), file.closed)
      | .ok buf =>
        let newOffset := offset + length
        (.ok buf, if file.size ≤ newOffset then file.closed
          else { file with offset := newOffset, handle := some (start + length) })

end LocalFile

/-- `FileContentsRequest`. -/
inductive FileContentsRequest
  | size (streamId : BitVec 32) (fileIdx : ℕ)
  | range (streamId : BitVec 32) (fileIdx offset length : ℕ)
deriving DecidableEq

/-- What becomes of a request: an answer, or a panic for want of memory. -/
inductive Served
  | answered (results : List (Except CliprdrError ClipboardFile))
  | panicked

/-- `ClipFiles`, less the names that only decide whether the list is built again. -/
structure ClipFiles where
  fileList : List LocalFile
  firstFileIndex : ℕ

/-- The longest buffer that can be asked for. -/
def isizeMax : ℕ := 2 ^ 63 - 1

namespace ClipFiles

/-- The list of the files of a copy. -/
def syncFiles (env : ClipEnv) (fileList : List LocalFile) : ClipFiles :=
  { fileList
    firstFileIndex := (fileList.findIdx? fun file => !env.isDir file.path).getD (2 ^ 64 - 1) }

def getFilesForAudit (env : ClipEnv) (s : ClipFiles) : FileContentsRequest → Option ClipboardFile
  | .size _ _ => none
  | .range _ fileIdx offset _ =>
    if fileIdx = s.firstFileIndex ∧ offset = 0 then
      let files := (s.fileList.filter fun file => env.isFile file.path).map fun file => (file.path, file.size)
      if files = [] then none else some (.files files)
    else none

def invalidIndex (fileIdx : ℕ) (connId : Int) : CliprdrError :=
  .invalidRequest s!"invalid file index {fileIdx} requested from conn: {connId}"

/-- The next file of the rest of a list is opened. -/
def loadNext (env : ClipEnv) : List LocalFile → Except CliprdrError (List LocalFile)
  | [] => .ok []
  | file :: rest =>
    if file.isDir then (loadNext env rest).map (file :: ·) else (file.loadHandle env).map (· :: rest)

/-- The end of `serve_file_contents`: the file that follows is opened, and the answer is given. -/
def reply (env : ClipEnv) (s : ClipFiles) (fileIdx : ℕ) (response : ClipboardFile) :
    Except CliprdrError ClipboardFile × ClipFiles :=
  match loadNext env (s.fileList.drop (fileIdx + 1)) with
  | .error e => (.error e, s)
  | .ok later => (.ok response, { s with fileList := s.fileList.take (fileIdx + 1) ++ later })

/-- `serve_file_contents`; `none` for a panic. The sum of the offset and the length wraps at 64 bits. -/
def serveFileContents (env : ClipEnv) (s : ClipFiles) (connId : Int) :
    FileContentsRequest → Option (Except CliprdrError ClipboardFile) × ClipFiles
  | .size streamId fileIdx =>
    match s.fileList[fileIdx]? with
    | none => (some (.error (invalidIndex fileIdx connId)), s)
    | some file =>
      let result := s.reply env fileIdx (.fileContentsResponse 1 streamId (LittleEndian.put 8 file.size))
      (some result.1, result.2)
  | .range streamId fileIdx offset length =>
    match s.fileList[fileIdx]? with
    | none => (some (.error (invalidIndex fileIdx connId)), s)
    | some file =>
      if file.size < offset then
        (some (.error (.invalidRequest s!"invalid reading offset requested from conn: {connId}")), s)
      else
        let readSize := if file.size < (offset + length) % 2 ^ 64 then file.size - offset else length
        if isizeMax < readSize then (none, s)
        else
          match file.readExactAt env readSize offset with
          | (.error e, file) => (some (.error e), { s with fileList := s.fileList.set fileIdx file })
          | (.ok buf, file) =>
            let result := { s with fileList := s.fileList.set fileIdx file }.reply env fileIdx
              (.fileContentsResponse 1 streamId buf)
            (some result.1, result.2)

/-- The request that the fields of a message stand for. -/
def fileContentsRequest (streamId listIndex dwFlags nPositionLow nPositionHigh cbRequested : BitVec 32) :
    Option FileContentsRequest :=
  if dwFlags = 1 then some (.size streamId (i32ToU64 listIndex))
  else if dwFlags = 2 then
    let offset := (nPositionHigh.signExtend 64 <<< 32) ||| nPositionLow.signExtend 64
    some (.range streamId (i32ToU64 listIndex) offset.toNat (i32ToU64 cbRequested))
  else none

/-- `read_file_contents`. -/
def readFileContents (env : ClipEnv) (s : ClipFiles) (connId : Int)
    (streamId listIndex dwFlags nPositionLow nPositionHigh cbRequested : BitVec 32) : Served × ClipFiles :=
  match fileContentsRequest streamId listIndex dwFlags nPositionLow nPositionHigh cbRequested with
  | none =>
    (.answered [.error (.invalidRequest s!"got invalid FileContentsRequest, dw_flats: {dwFlags.toInt}")], s)
  | some fcr =>
    let audit := ((s.getFilesForAudit env fcr).map Except.ok).toList
    match s.serveFileContents env connId fcr with
    | (none, s) => (.panicked, s)
    | (some result, s) => (.answered (audit ++ [result]), s)

end ClipFiles

end UnyDesk
