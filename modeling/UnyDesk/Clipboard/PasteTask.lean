import UnyDesk.Clipboard.FileDescription
import UnyDesk.Lib.Words
import UnyDesk.Transfer.Job

/-!
# Pasting the files of the peer

A paste task goes through the list of the peer's files. A directory is made, an empty file is created, and a
file with contents is asked for block by block. It is received under a name of its own and gets a free name
at its destination when it is complete. A worker takes the answers of the peer and sends the next request.

A path text leads to an entry of the file system in a way that is left open. The bytes that are written
are in the file at once, and the file system remembers whether an operation on it has failed.
-/

namespace UnyDesk

open Lib

/-- The conversion of a `usize` to an `i32`. -/
def usizeToI32 (n : ℕ) : Int := if n % 2 ^ 32 < 2 ^ 31 then (n % 2 ^ 32 : ℕ) else (n % 2 ^ 32 : ℕ) - 2 ^ 32

section PathText

/-- `Path::file_name`. -/
def pathLastName (path : String) : Option (List Char) :=
  match ((segments path.toList).filter fun s => !skippedSegment s).getLast? with
  | none => none
  | some s => if s = ['.', '.'] then none else some s

/-- `Path::parent`. -/
def pathParent (path : String) : Option String :=
  match trimSegments (segments path.toList) with
  | [] => if path.toList.head? = some '.' then some "" else none
  | parts =>
    match trimSegments parts.dropLast with
    | [] =>
      if path.toList.head? = some '/' then some "/"
      else if parts.dropLast.head? = some ['.'] then some "."
      else some ""
    | parts => some (String.ofList (joinSegments parts))

/-- A file name, cut at its last dot. -/
def splitFileName (name : List Char) : List Char × Option (List Char) :=
  let extension := (name.reverse.takeWhile (· ≠ '.')).reverse
  let stem := name.take (name.length - extension.length - 1)
  if '.' ∉ name ∨ stem = [] then (name, none) else (stem, some extension)

/-- `Path::extension`. -/
def pathExtension (path : String) : Option String :=
  (pathLastName path).bind fun name => (splitFileName name).2.map String.ofList

/-- `Path::file_stem`. -/
def pathFileStem (path : String) : Option String := (pathLastName path).map fun name => String.ofList (splitFileName name).1

/-- `Path::with_file_name`. -/
def pathWithFileName (path name : String) : String :=
  match pathLastName path with
  | none => pathJoin path name
  | some _ => pathJoin ((pathParent path).getD path) name

end PathText

/-- The file system while a task is pasting. -/
structure PasteDisk (K : Type*) where
  files : FileSystem K UInt8
  dirs : K → Bool
  /-- A local operation has failed. -/
  failed : Bool := false

/-- What the system does with the operations of one call. Every operation succeeds by default; an error is
the text that it fails with. -/
structure PasteEnv where
  createDirAll : Option String := none
  create : Option String := none
  createEmpty : ℕ → Bool := fun _ => true
  createDirectory : ℕ → Bool := fun _ => true
  /-- The bytes that are written before `write` fails. -/
  write : Option (ℕ × String) := none
  flushed : Bool := true
  renamed : Bool := true

namespace PasteDisk

variable {K : Type*} [DecidableEq K] (key : String → K)

/-- `Path::exists`. -/
def pathExists (disk : PasteDisk K) (path : String) : Bool := disk.files.existsAt (key path) || disk.dirs (key path)

/-- The directories that lead to a path; the fuel bounds how many there are. -/
def ancestors : ℕ → String → List String
  | 0, _ => []
  | fuel + 1, path =>
    match pathParent path with
    | none => []
    | some parent => parent :: ancestors fuel parent

/-- `create_dir_all`. -/
def createDirAll (disk : PasteDisk K) (path : String) : PasteDisk K :=
  { disk with
    dirs := fun k => disk.dirs k || (path :: ancestors path.toList.length path).any fun parent => key parent = k }

def fail (disk : PasteDisk K) : PasteDisk K := { disk with failed := true }

/-- The names that `get_first_filename` tries after the path itself. -/
def numberedName (path : String) (type : FileType) (i : ℕ) : Option String :=
  match type with
  | .file =>
    match pathExtension path with
    | some ext =>
      let stem := (pathFileStem path).getD ""
      some (pathWithFileName path s!"{stem}-{i}.{ext}")
    | none => some s!"{path} ({i})"
  | .directory => some s!"{path} ({i})"
  | .symlink => none

/-- The first numbered name from `i` on that is free. -/
def firstFree (disk : PasteDisk K) (path : String) (type : FileType) : ℕ → ℕ → Option String
  | 0, _ => none
  | fuel + 1, i =>
    match numberedName path type i with
    | none => none
    | some newPath => if disk.pathExists key newPath then firstFree disk path type fuel (i + 1) else some newPath

/-- `get_first_filename`. -/
def getFirstFilename (disk : PasteDisk K) (path : String) (type : FileType) : Option String :=
  if disk.pathExists key path then disk.firstFree key path type 9999998 1 else some path

/-- `get_new_filename`. -/
def getNewFilename (disk : PasteDisk K) (targetDir : String) (desc : FileDescription) : Option String :=
  let renameToPath := pathJoin targetDir desc.name
  if disk.pathExists key renameToPath then disk.getFirstFilename key renameToPath desc.kind else some renameToPath

end PasteDisk

structure PasteTaskProgress where
  /-- The file that is received; it is the stream id of its requests. -/
  listIndex : Int
  offset : ℕ
  totalSize : ℕ
  currentSize : ℕ
  downloadFileIndex : Int
  downloadFileSize : ℕ
  downloadFilePath : String
  downloadFileCurrentSize : ℕ
  fileHandle : Option ℕ
  error : Option CliprdrError
  isCanceled : Bool

structure PasteTaskHandle where
  progress : PasteTaskProgress
  targetDir : String
  files : List FileDescription

/-- `FileContentsResponse`. -/
structure FileContentsResponse where
  connId : Int
  msgFlags : Int
  streamId : Int
  requestedData : Bytes

def downloadExtension : String := "rddownload"
def invalidFileIndex : Int := -1
def recvRetryTimes : ℕ := 3

namespace PasteTaskHandle

variable {K : Type*} [DecidableEq K] (key : String → K)

def isFinished (h : PasteTaskHandle) : Bool :=
  h.progress.isCanceled || h.progress.error.isSome || decide (usizeToI32 h.files.length ≤ h.progress.listIndex)

/-- The file that the list index points at. -/
def currentFile (h : PasteTaskHandle) : Option FileDescription := h.files[asUsize h.progress.listIndex]?

def onCancelled (disk : PasteDisk K) (h : PasteTaskHandle) : PasteDisk K × PasteTaskHandle :=
  (if h.progress.downloadFilePath = "" then disk
    else { disk with files := disk.files.remove (key h.progress.downloadFilePath) },
    { h with progress := { h.progress with fileHandle := none } })

def onError (disk : PasteDisk K) (h : PasteTaskHandle) (error : CliprdrError) : PasteDisk K × PasteTaskHandle :=
  onCancelled key disk { h with progress := { h.progress with error := some error } }

def onDone (env : PasteEnv) (disk : PasteDisk K) (h : PasteTaskHandle) : PasteDisk K × PasteTaskHandle :=
  match h.progress.fileHandle with
  | none => (disk, h)
  | some _ =>
    if h.progress.downloadFileIndex = invalidFileIndex then (disk, h)
    else
      let disk := if env.flushed then disk else disk.fail
      let h := { h with progress := { h.progress with fileHandle := none } }
      match h.files[asUsize h.progress.downloadFileIndex]? with
      | none => (disk, h)
      | some desc =>
        match disk.getNewFilename key h.targetDir desc with
        | none => (disk.fail, h)
        | some renameToPath =>
          (if env.renamed then
              { disk with files := disk.files.rename (key h.progress.downloadFilePath) (key renameToPath) }
            else disk.fail,
            { h with progress := { h.progress with downloadFilePath := "", downloadFileIndex := invalidFileIndex } })

/-- `open_new_writer`. -/
def openNewWriter (env : PasteEnv) (disk : PasteDisk K) (h : PasteTaskHandle) :
    Except CliprdrError Unit × PasteDisk K × PasteTaskHandle :=
  match h.currentFile with
  | none =>
    (.error (.invalidRequest s!"Invalid file index: {h.progress.listIndex}, file count: {h.files.length}"), disk, h)
  | some file =>
    let originalFilePath := pathJoin h.targetDir file.name
    match disk.getFirstFilename key s!"{originalFilePath}.{downloadExtension}" file.kind with
    | none => (.error (.commonError s!"Failed to get download file path: {originalFilePath}"), disk.fail, h)
    | some downloadFilePath =>
      match pathParent downloadFilePath with
      | none =>
        (.error (.commonError s!"Failed to get parent of the download file path: {originalFilePath}"), disk.fail, h)
      | some parent =>
        match (if disk.pathExists key parent then none else env.createDirAll) with
        | some err => (.error (.fileError parent err), disk.fail, h)
        | none =>
          let disk := if disk.pathExists key parent then disk else disk.createDirAll key parent
          match env.create with
          | some err =>
            (.ok (), disk.fail, { h with progress := { h.progress with error := some (.fileError downloadFilePath err) } })
          | none =>
            let created := disk.files.create (key downloadFilePath)
            (.ok (), { disk with files := created.1 }, { h with
                progress := { h.progress with
                  downloadFileIndex := h.progress.listIndex
                  downloadFileSize := file.size
                  downloadFilePath
                  downloadFileCurrentSize := 0
                  fileHandle := some created.2 } })

/-- An empty file, which is complete at once. -/
def createEmptyFile (env : PasteEnv) (disk : PasteDisk K) (h : PasteTaskHandle) (i : ℕ) (desc : FileDescription) :
    PasteDisk K :=
  match disk.getNewFilename key h.targetDir desc with
  | none => disk.fail
  | some newFilePath =>
    if env.createEmpty i then { disk with files := (disk.files.create (key newFilePath)).1 } else disk.fail

/-- A directory of the list. -/
def createDirectory (env : PasteEnv) (disk : PasteDisk K) (h : PasteTaskHandle) (i : ℕ) (desc : FileDescription) :
    PasteDisk K :=
  let path := pathJoin h.targetDir desc.name
  if disk.pathExists key path then disk
  else if env.createDirectory i then disk.createDirAll key path
  else disk.fail

/-- The loop of `update_next` to the next file with contents. -/
def advance (env : PasteEnv) : List ℕ → PasteDisk K → PasteTaskHandle →
    Except CliprdrError Unit × PasteDisk K × PasteTaskHandle
  | [], disk, h => (.ok (), disk, h)
  | i :: rest, disk, h =>
    match h.files[i]? with
    | none => (.error (.invalidRequest s!"Invalid file index: {i}"), disk, h)
    | some desc =>
      match desc.kind with
      | .file =>
        if desc.size = 0 then advance env rest (createEmptyFile key env disk h i desc) h
        else openNewWriter key env disk { h with progress := { h.progress with listIndex := i, offset := 0 } }
      | .directory => advance env rest (createDirectory key env disk h i desc) h
      | .symlink => advance env rest disk h

/-- The indices behind the current one. -/
def laterIndices (h : PasteTaskHandle) : List ℕ :=
  let start := h.progress.listIndex + 1
  List.range' start.toNat (usizeToI32 h.files.length - start).toNat

/-- The end of `update_next`: without an open file the list is done. -/
def closeList (h : PasteTaskHandle) : PasteTaskHandle :=
  if h.progress.fileHandle = none then
    { h with
      progress := { h.progress with
        listIndex := usizeToI32 h.files.length
        offset := 0
        downloadFileSize := 0
        downloadFileCurrentSize := 0 } }
  else h

/-- The branch of `update_next` at the start and behind the last byte of a file. -/
def nextFile (env : PasteEnv) (disk : PasteDisk K) (h : PasteTaskHandle) :
    Except CliprdrError Unit × PasteDisk K × PasteTaskHandle :=
  let opened := if h.progress.listIndex = -1 then (disk, h) else onDone key env disk h
  match advance key env opened.2.laterIndices opened.1 opened.2 with
  | (.error e, disk, h) => (.error e, disk, h)
  | (.ok (), disk, h) => (.ok (), disk, h.closeList)

/-- The branch of `update_next` inside a file. -/
def moveOn (h : PasteTaskHandle) (size : ℕ) : PasteTaskHandle :=
  { h with
    progress := { h.progress with
      offset := (h.progress.offset + size) % 2 ^ 64
      downloadFileCurrentSize := (h.progress.downloadFileCurrentSize + size) % 2 ^ 64 } }

def count (h : PasteTaskHandle) (size : ℕ) : PasteTaskHandle :=
  { h with progress := { h.progress with currentSize := (h.progress.currentSize + size) % 2 ^ 64 } }

def updateNext (env : PasteEnv) (disk : PasteDisk K) (h : PasteTaskHandle) (size : ℕ) :
    Except CliprdrError Unit × PasteDisk K × PasteTaskHandle :=
  if h.isFinished then (.ok (), disk, h)
  else if h.progress.listIndex = -1 ∨ h.progress.downloadFileSize ≤ (h.progress.offset + size) % 2 ^ 64 then
    (h.count size).nextFile key env disk
  else (.ok (), disk, ((h.count size).moveOn size).closeList)

def onFinished (env : PasteEnv) (disk : PasteDisk K) (h : PasteTaskHandle) : PasteDisk K × PasteTaskHandle :=
  let ended := if h.progress.error.isSome then onCancelled key disk h else onDone key env disk h
  if ended.2.progress.currentSize ≠ ended.2.progress.totalSize then
    (ended.1, { ended.2 with
        progress := { ended.2.progress with error := some (.invalidRequest "Failed to download all files") } })
  else ended

/-- The two fields for an offset. -/
def positions (offset : BitVec 64) : BitVec 32 × BitVec 32 :=
  ((offset >>> 32).setWidth 32, (offset &&& (BitVec.allOnes 32).setWidth 64).setWidth 32)

/-- `send_file_contents_request`: the request, and the connection that it is sent to. -/
def sendFileContentsRequest (h : PasteTaskHandle) : Except CliprdrError (Option (Int × ClipboardFile)) :=
  if h.isFinished then .ok none
  else
    match h.currentFile with
    | none => .error (.invalidRequest s!"Invalid file index: {h.progress.listIndex}")
    | some file =>
      -- The difference is one of unsigned numbers.
      let cbRequested := min blockSize ((2 ^ 64 + file.size - h.progress.offset) % 2 ^ 64)
      let (nPositionHigh, nPositionLow) := positions (BitVec.ofNat 64 h.progress.offset)
      let index := BitVec.ofInt 32 h.progress.listIndex
      .ok (some (file.connId,
        .fileContentsRequest index index 2 nPositionLow nPositionHigh (BitVec.ofNat 32 cbRequested) false 0))

/-- `handle_file_contents_response`. -/
def handleFileContentsResponse (env : PasteEnv) (disk : PasteDisk K) (h : PasteTaskHandle) (r : FileContentsResponse) :
    Except CliprdrError Unit × PasteDisk K × PasteTaskHandle :=
  match h.progress.fileHandle with
  | none => (.error (.fileError h.progress.downloadFilePath "file handle is not opened"), disk, h)
  | some inode =>
    let append := fun data =>
      { disk with files := disk.files.write inode (disk.files.data inode).length data }
    match env.write with
    | some (n, err) =>
      (.error (.fileError h.progress.downloadFilePath err), (append (r.requestedData.take n)).fail, h)
    | none => updateNext key env (append r.requestedData) h r.requestedData.length

end PasteTaskHandle

/-- A paste task, its worker and the file system. -/
structure PasteTask (K : Type*) where
  disk : PasteDisk K
  handle : Option PasteTaskHandle := none
  retryCount : ℕ := 0
  sent : List (Int × ClipboardFile) := []

/-- What happens to a paste task. -/
inductive PasteEvent
  | start (targetDir : String) (files : List FileDescription)
  | response (r : FileContentsResponse)
  /-- No answer has come for a while, too long a while if `expired`. -/
  | timeout (expired : Bool)
  | cancel

namespace PasteTask

variable {K : Type*} [DecidableEq K] (key : String → K)

/-- Sends the next request, or gives the task up when there is none to send. -/
def request (s : PasteTask K) (h : PasteTaskHandle) : PasteTask K :=
  match h.sendFileContentsRequest with
  | .ok none => { s with handle := some h }
  | .ok (some message) => { s with handle := some h, sent := s.sent ++ [message] }
  | .error e =>
    let ended := h.onError key s.disk e
    { s with disk := ended.1, handle := some ended.2 }

section

variable (env : PasteEnv)

section

variable (s : PasteTask K)

def start (targetDir : String) (files : List FileDescription) : PasteTask K :=
  if s.handle.any fun h => !h.isFinished then s
  else
    let totalSize := (files.map (·.size)).sum % 2 ^ 64
    let h : PasteTaskHandle :=
      { progress :=
          { listIndex := -1, offset := 0, totalSize, currentSize := 0, downloadFileIndex := invalidFileIndex
            downloadFileSize := 0, downloadFilePath := "", downloadFileCurrentSize := 0, fileHandle := none, error := none
            isCanceled := false }
        targetDir
        files }
    let updated := (h.updateNext key env s.disk 0).2
    if updated.2.isFinished then
      let ended := updated.2.onFinished key env updated.1
      { s with disk := ended.1, handle := some ended.2 }
    else { s with disk := updated.1 }.request key updated.2

/-- The end of the worker's branch for an answer: the next request is sent, or the task is over. -/
def goOn (disk : PasteDisk K) (h : PasteTaskHandle) : PasteTask K :=
  if h.isFinished then
    let ended := h.onFinished key env disk
    { s with disk := ended.1, handle := some ended.2, retryCount := 0 }
  else { s with disk }.request key h

/-- A block of the file is written; an error ends the task. -/
def takeBlock (h : PasteTaskHandle) (r : FileContentsResponse) : PasteTask K :=
  match h.handleFileContentsResponse key env s.disk r with
  | (.ok (), disk, h) => s.goOn key env disk h
  | (.error e, disk, h) =>
    let stopped := h.onError key disk e
    s.goOn key env stopped.1 stopped.2

/-- The branch of the worker for an answer. -/
def takeResponse (r : FileContentsResponse) : PasteTask K :=
  match s.handle with
  | none => s
  | some h =>
    if h.isFinished then s
    else if r.streamId ≠ h.progress.listIndex then s
    else if r.msgFlags ≠ 1 then
      let s := { s with retryCount := s.retryCount + 1 }
      if recvRetryTimes < s.retryCount then
        let error := CliprdrError.invalidRequest
          s!"Failed to read file contents, stream id: {r.streamId}, msg_flags: {r.msgFlags}"
        s.goOn key env s.disk { h with progress := { h.progress with error := some error } }
      else s.goOn key env s.disk h
    else
      match h.files[asUsize r.streamId]? with
      | none => s
      | some file =>
        if file.connId ≠ r.connId then s
        else s.takeBlock key env h r

def step : PasteEvent → PasteTask K
  | .start targetDir files => s.start key env targetDir files
  | .response r => s.takeResponse key env r
  | .timeout expired =>
    match s.handle with
    | none => s
    | some h =>
      if !h.isFinished && expired then
        let error := CliprdrError.invalidRequest "Failed to read file contents"
        let ended := { h with progress := { h.progress with error := some error } }.onFinished key env s.disk
        { s with disk := ended.1, handle := some ended.2, retryCount := 0 }
      else s
  | .cancel =>
    match s.handle with
    | none => s
    | some h =>
      let cancelled := { h with progress := { h.progress with isCanceled := true } }.onCancelled key s.disk
      { s with disk := cancelled.1, handle := some cancelled.2 }

end

end

end PasteTask

end UnyDesk
