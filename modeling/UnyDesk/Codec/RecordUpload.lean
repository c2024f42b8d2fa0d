import UnyDesk.Codec.Recorder
import UnyDesk.Lib.GrowingCopy

/-!
# The upload of recordings

The thread of a recorder writes its files and sends their states over a channel. The thread of the uploader takes the states
from the channel and copies the files to a server, with the paths that the states name: it opens a file anew for each state,
while the recorder may be writing it or may have removed it. The server makes a file on `new`, writes the body at the offset
on `part` and `tail`, and deletes the file on `remove`.

Each call of the uploader that reaches the file system or the server is a step of its own.
-/

namespace UnyDesk

open Lib

/-- `PathBuf::file_name` -/
def fileName (path : String) : Option String :=
  match (locate path).getLast? with
  | none => none
  | some part => if part = ['.', '.'] ∨ part = ['/'] then none else some (String.ofList part)

/-- The files of a recorder in the order in which they are made: the path of each, and its name on the server. They are in
one directory, so that files of one name are at one path. -/
structure Naming where
  path : ℕ → String
  name : ℕ → String
  fileName_path : ∀ k, fileName (path k) = some (name k)
  path_of_name : ∀ j k, name j = name k → path j = path k

namespace Naming

/-- The file that a path leads to. -/
def place (naming : Naming) (k : ℕ) : Location := locate (naming.path k)

theorem name_of_place (naming : Naming) {j k : ℕ} (h : naming.place j = naming.place k) : naming.name j = naming.name k := by
  have hfileName : fileName (naming.path j) = fileName (naming.path k) := by
    unfold fileName
    rw [show locate (naming.path j) = locate (naming.path k) from h]
  rw [naming.fileName_path, naming.fileName_path] at hfileName
  exact Option.some.inj hfileName

/-- A name of one component. -/
def Plain (name : String) : Prop := '/' ∉ name.toList ∧ name ≠ "" ∧ name ≠ "." ∧ name ≠ ".."

theorem segments_of_not_mem {name : List Char} (h : '/' ∉ name) : segments name = [name] :=
  segments_append h []

theorem fileName_pathJoin (dir : String) {name : String} (h : Plain name) : fileName (pathJoin dir name) = some name := by
  obtain ⟨hslash, hempty, hdot, hdots⟩ := h
  have hhead : name.toList.head? ≠ some '/' := fun heq => hslash (List.mem_of_mem_head? heq)
  have hkept : skippedSegment name.toList = false := by
    unfold skippedSegment
    rw [decide_eq_false_iff_not]
    rintro (hnil | hone)
    · exact hempty (String.toList_inj.mp hnil)
    · exact hdot (String.toList_inj.mp hone)
  have hcomponents : components name = [name.toList] := by
    unfold components
    rw [segments_of_not_mem hslash, List.filter_singleton, hkept]
    rfl
  have hlast : (locate (pathJoin dir name)).getLast? = some name.toList := by
    rw [locate_pathJoin hhead, hcomponents, List.getLast?_append]
    rfl
  unfold fileName
  rw [hlast]
  change (if name.toList = ['.', '.'] ∨ name.toList = ['/'] then none else some (String.ofList name.toList)) = some name
  rw [if_neg, String.ofList_toList]
  rintro (htwo | hone)
  · exact hdots (String.toList_inj.mp htwo)
  · exact hslash (by rw [hone]; exact List.mem_cons_self)

/-- The files of a directory. -/
def ofDir (dir : String) (name : ℕ → String) (h : ∀ k, Plain (name k)) : Naming where
  path k := pathJoin dir (name k)
  name := name
  fileName_path k := fileName_pathJoin dir (h k)
  path_of_name j k heq := by rw [heq]

end Naming

/-- What the destructor did with a file. -/
inductive Ending
  | kept
  | removed
deriving DecidableEq

/-- The state that the destructor sends. -/
def Ending.state : Ending → RecordState
  | .kept => .writeTail
  | .removed => .removeFile

/-- Where the thread of the recorder is. -/
inductive RecorderPlace
  /-- There is no muxer. -/
  | idle
  /-- The muxer is made, and `NewFile` is not sent. -/
  | created
  /-- The muxer takes frames. -/
  | recording
  /-- The destructor has removed the file, and `RemoveFile` is not sent. -/
  | removed
deriving DecidableEq

/-- What the uploader opens a file for. -/
inductive Purpose
  /-- `handle_frame` -/
  | frame (flush : Bool)
  /-- `handle_tail` behind `handle_frame(true)`. -/
  | tail
deriving DecidableEq

/-- Where the thread of the uploader is. -/
inductive UploaderPlace
  /-- In `recv`. -/
  | idle
  /-- Before `File::open`. -/
  | opening (purpose : Purpose)
  /-- With an open file. -/
  | opened (file : ℕ) (purpose : Purpose)
  /-- In `read_to_end`. -/
  | reading (file len : ℕ) (flush : Bool) (buf : List UInt8)
deriving DecidableEq

structure RecordUploader where
  filepath : String := ""
  filename : String := ""
  uploadSize : ℕ := 0
  running : Bool := false

def maxHeaderLen : ℕ := 1024

def shouldSendSize : ℕ := 1024 * 1024

/-- The two threads, the disk between them, the channel and the server. -/
structure RecordUpload where
  disk : FileSystem Location UInt8 := .empty
  recorder : RecorderPlace := .idle
  /-- What was sent about the files that are closed, oldest first; the recorder is at the file behind them. -/
  endings : List Ending := []
  channel : List RecordState := []
  server : String → Option (List UInt8)
  uploader : RecordUploader := {}
  place : UploaderPlace := .idle
  /-- How many `NewFile` the uploader has taken from the channel. -/
  received : ℕ := 0
  /-- The end of the last one is not taken yet. -/
  uploading : Bool := false
  /-- The files whose upload stopped because they could not be opened. -/
  stranded : List ℕ := []

inductive RecordUploadEvent
  /-- `WebmRecorder::new` -/
  | create
  /-- `NewFile` is sent. -/
  | announce
  /-- The muxer writes to its file. -/
  | write (pos : ℕ) (bytes : List UInt8)
  /-- `NewFrame` is sent. -/
  | newFrame
  /-- The destructor leaves the file and sends `WriteTail`. -/
  | keep
  /-- The destructor removes the file. -/
  | remove
  /-- The destructor sends `RemoveFile`. -/
  | announceRemoval
  /-- `rx.recv()`, with `last_send.elapsed() >= SHOULD_SEND_TIME`. -/
  | recv (due : Bool)
  | openFile
  /-- `file.metadata()`, and the decision to read. -/
  | metadata
  /-- A read of `read_to_end` that asks for `n + 1` bytes; the one that gives none ends it. -/
  | read (n : ℕ)
  | readTail
deriving DecidableEq

namespace RecordUpload

variable (naming : Naming) (s : RecordUpload)

/-- The recorder has an open file. -/
def Writing : Prop := s.recorder = .created ∨ s.recorder = .recording

instance : Decidable s.Writing := by unfold Writing; infer_instance

/-- The size of the file that the recorder is at. -/
def size : ℕ := (s.disk.data s.endings.length).length

/-- The recorder makes a file. One that took a name in use would empty the file of that name. -/
def create : RecordUpload :=
  if s.recorder = .idle ∧ s.disk.names (naming.place s.endings.length) = none then
    { s with disk := (s.disk.create (naming.place s.endings.length)).1, recorder := .created }
  else s

def announce : RecordUpload :=
  if s.recorder = .created then
    { s with recorder := .recording, channel := s.channel ++ [.newFile (naming.path s.endings.length)] }
  else s

/-- The recorder appends to the file or writes within the header again. -/
def write (pos : ℕ) (bytes : List UInt8) : RecordUpload :=
  if s.Writing ∧ (pos = s.size ∨ (pos ≤ s.size ∧ pos + bytes.length ≤ maxHeaderLen)) then
    { s with disk := s.disk.write s.endings.length pos bytes }
  else s

def newFrame : RecordUpload := if s.recorder = .recording then { s with channel := s.channel ++ [.newFrame] } else s

/-- The destructor sends what became of the file. -/
def close (ending : Ending) : RecordUpload :=
  { s with recorder := .idle, endings := s.endings ++ [ending], channel := s.channel ++ [ending.state] }

def keep : RecordUpload := if s.recorder = .recording then s.close .kept else s

def remove : RecordUpload :=
  if s.recorder = .recording then
    { s with disk := s.disk.remove (naming.place s.endings.length), recorder := .removed }
  else s

def announceRemoval : RecordUpload := if s.recorder = .removed then s.close .removed else s

/-- An error behind which the uploader waits for the next file. -/
def stop : RecordUpload := { s with uploader := { s.uploader with running := false } }

def handleNewFile (filepath : String) : RecordUpload :=
  match fileName filepath with
  | some filename =>
    { s with
      uploader := { filepath, filename, uploadSize := 0, running := true }
      server := Function.update s.server filename (some []) }
  | none => s.stop

/-- `part` and `tail`, with the body at the offset. -/
def send (offset : ℕ) (body : List UInt8) : RecordUpload :=
  { s with
    server := Function.update s.server s.uploader.filename
      (some (overwrite ((s.server s.uploader.filename).getD []) offset body)) }

def handleRemove : RecordUpload := { s with server := Function.update s.server s.uploader.filename none }

def onNewFile (filepath : String) : RecordUpload :=
  { s.handleNewFile filepath with received := s.received + 1, uploading := true }

def onNewFrame (due : Bool) : RecordUpload :=
  if s.uploader.running && due then { s with place := .opening (.frame false) } else s

def onWriteTail : RecordUpload :=
  { s with
    place := if s.uploader.running then .opening (.frame true) else .idle
    uploading := false }

def onRemoveFile : RecordUpload := { (if s.uploader.running then s.handleRemove else s) with uploading := false }

/-- What the uploader does with a state. -/
def handle (due : Bool) : RecordState → RecordUpload
  | .newFile filepath => s.onNewFile filepath
  | .newFrame => s.onNewFrame due
  | .writeTail => s.onWriteTail
  | .removeFile => s.onRemoveFile

def recv (due : Bool) : RecordUpload :=
  match s.place, s.channel with
  | .idle, state :: rest => { s with channel := rest }.handle due state
  | _, _ => s

/-- `File::open(&self.filepath)` -/
def openFile : RecordUpload :=
  match s.place with
  | .opening purpose =>
    match s.disk.names (locate s.uploader.filepath) with
    | some file => { s with place := .opened file purpose }
    | none => { s.stop with place := .idle, stranded := s.stranded ++ [s.received - 1] }
  | _ => s

/-- Where `handle_frame` returns to. -/
def afterFrame (flush : Bool) : UploaderPlace := if flush then .opening .tail else .idle

def metadata : RecordUpload :=
  match s.place with
  | .opened file (.frame flush) =>
    let len := (s.disk.data file).length
    if len ≤ s.uploader.uploadSize ∨ (flush = false ∧ len - s.uploader.uploadSize < shouldSendSize) then
      { s with place := afterFrame flush }
    else { s with place := .reading file len flush [] }
  | _ => s

def read (n : ℕ) : RecordUpload :=
  match s.place with
  | .reading file len flush buf =>
    let chunk := ((s.disk.data file).drop (s.uploader.uploadSize + buf.length)).take (n + 1)
    if chunk = [] then
      { s.send s.uploader.uploadSize buf with
        uploader := { s.uploader with uploadSize := len }
        place := afterFrame flush }
    else { s with place := .reading file len flush (buf ++ chunk) }
  | _ => s

/-- The read of the header; a read of a file gives all that is there, up to the length of the buffer. -/
def readTail : RecordUpload :=
  match s.place with
  | .opened file .tail => { s.send 0 ((s.disk.data file).take maxHeaderLen) with place := .idle }
  | _ => s

def step : RecordUploadEvent → RecordUpload
  | .create => s.create naming
  | .announce => s.announce naming
  | .write pos bytes => s.write pos bytes
  | .newFrame => s.newFrame
  | .keep => s.keep
  | .remove => s.remove naming
  | .announceRemoval => s.announceRemoval
  | .recv due => s.recv due
  | .openFile => s.openFile
  | .metadata => s.metadata
  | .read n => s.read n
  | .readTail => s.readTail

/-- Nothing is recorded yet; the server may have files of other recorders. -/
def start (server : String → Option (List UInt8)) : RecordUpload := { server }

/-- The channel is drained, and the uploader is done with what it took. -/
def Drained : Prop := s.channel = [] ∧ s.place = .idle

instance : Decidable s.Drained := by unfold Drained; infer_instance

/-- No later file has the name of the file. -/
def Newest (k : ℕ) : Prop := ∀ j, k < j → j < s.disk.next → naming.name j ≠ naming.name k

/-- The server has the files that were kept, and does not have those that were removed. -/
def Mirrored : Prop :=
  ∀ k, s.Newest naming k →
    (s.endings[k]? = some .kept →
      ∃ bytes, s.disk.contents (naming.place k) = some bytes ∧ s.server (naming.name k) = some bytes) ∧
    (s.endings[k]? = some .removed → s.disk.contents (naming.place k) = none ∧ s.server (naming.name k) = none)

/-- The uploader is at a path that leads to no file. -/
def missing : Bool :=
  match s.place with
  | .opening _ => (s.disk.names (locate s.uploader.filepath)).isNone
  | _ => false

/-- A path that the uploader opens leads to a file. -/
def FindsFile (s : RecordUpload) (event : RecordUploadEvent) : Prop := event = .openFile → s.missing = false

instance (event : RecordUploadEvent) : Decidable (s.FindsFile event) := by unfold FindsFile; infer_instance

end RecordUpload

end UnyDesk
