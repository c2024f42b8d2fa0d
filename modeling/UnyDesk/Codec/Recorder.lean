import Mathlib.Algebra.Group.Int.Defs
import Mathlib.Algebra.Group.Nat.Defs
import UnyDesk.Codec.Format
import UnyDesk.Lib.Machine
import UnyDesk.Transfer.Path

/-!
# The recorder of a video session

A recorder writes the frames of video messages to files. It starts a new file when the size or the format of the messages
changes, and when a time stamp is smaller than the one before it. A file is closed by the destructor of its muxer, which
also tells the listener whether the file stays.
-/

namespace UnyDesk

open Lib List Option

inductive RecordState
  | newFile (filename : String)
  | newFrame
  | writeTail
  | removeFile
deriving DecidableEq

structure RecorderContext where
  server : Bool
  id : String
  dir : String
  displayIdx : ℕ
  camera : Bool

structure RecorderContext2 where
  filename : String
  width : ℕ
  height : ℕ
  format : CodecFormat

/-- A frame as the muxer took it, with the size and the format of its message. -/
structure WrittenFrame where
  frame : EncodedVideoFrame
  width : ℕ
  height : ℕ
  format : CodecFormat

/-- A file and its muxer: `WebmRecorder` or `HwRecorder`. -/
structure RecordFile where
  ctx2 : RecorderContext2
  key : Bool := false
  written : Bool := false
  /-- The frames that the muxer has taken. -/
  frames : List WrittenFrame := []
  /-- How many times `NewFrame` was sent for the file. -/
  newFrames : ℕ := 0
  /-- What the destructor has sent. -/
  ending : Option RecordState := none

/-- A frame is handed to the muxer, which takes it or not. -/
def RecordFile.offer (file : RecordFile) (ok : Bool) (written : WrittenFrame) : RecordFile :=
  { file with
    key := true
    written := file.written || ok
    frames := if ok then file.frames ++ [written] else file.frames }

structure Recorder where
  inner : Option RecordFile := none
  ctx2 : Option RecorderContext2 := none
  pts : Option Int := none
  checkFailed : Bool := false
  /-- The files whose muxers are dropped, oldest first. -/
  closed : List RecordFile := []
  /-- The states that were sent, oldest first. -/
  states : List RecordState := []
  /-- How often `set_filename` was called. -/
  named : ℕ := 0
  /-- How many frames were handed to a muxer. -/
  offered : ℕ := 0

/-- The recorder's context, its build, and what the clock, the file system and the muxers answer. -/
structure RecorderEnv where
  ctx : RecorderContext
  hwcodec : Bool
  /-- The local time, in the format of the file names. -/
  now : ℕ → String
  dirExists : ℕ → Bool
  /-- The file is opened and the muxer is made. -/
  created : ℕ → Bool
  /-- `VideoTrack::add_frame`, with its time stamp. -/
  addFrame : ℕ → List UInt8 → ℕ → Bool → Bool
  /-- `Muxer::write_video` -/
  writeVideo : ℕ → List UInt8 → Bool → Bool
  /-- The age of the file in seconds when its muxer is dropped. -/
  elapsed : ℕ → ℕ

def minSecs : ℕ := 1

namespace RecorderEnv

variable (env : RecorderEnv)

/-- The formats of a `WebmRecorder`. -/
def isWebm (format : CodecFormat) : Bool := format = .vp8 || format = .vp9 || format = .av1

/-- `RecorderContext2::set_filename` -/
def setFilename (n : ℕ) (format : CodecFormat) : Option String :=
  if env.dirExists n then
    some (pathJoin env.ctx.dir ((if env.ctx.server then "incoming" else "outgoing") ++ "_" ++ env.ctx.id ++ env.now n ++
        (if env.ctx.camera then "camera" else "display") ++ toString env.ctx.displayIdx ++ "_" ++
        format.toLowercase ++ (if isWebm format then ".webm" else ".mp4")))
  else none

/-- The muxers of the build know the format. -/
def supports (format : CodecFormat) : Bool := isWebm format || env.hwcodec

/-- `frame.pts as u64 * 1_000_000`, in 64 bits. -/
def timestamp (pts : Int) : ℕ := ((pts % 2 ^ 64).toNat * 1000000) % 2 ^ 64

/-- The muxer of the format takes the frame. -/
def accepts (n : ℕ) (format : CodecFormat) (f : EncodedVideoFrame) : Bool :=
  if isWebm format then env.addFrame n f.data (timestamp f.pts) f.key else env.writeVideo n f.data f.key

/-- What the destructor of the file sends, the `n`-th one. -/
def dropState (n : ℕ) (file : RecordFile) : RecordState :=
  if file.written = false ∨ env.elapsed n < minSecs then .removeFile else .writeTail

end RecorderEnv

namespace Recorder

variable (env : RecorderEnv) (r : Recorder)

/-- `self.inner = None`, with the destructor of the old value. -/
def dropInner : Recorder :=
  match r.inner with
  | none => r
  | some file =>
    let state := env.dropState r.closed.length file
    { r with
      inner := none
      closed := r.closed ++ [{ file with ending := some state }]
      states := r.states ++ [state] }

/-- The first half of `check` where the context changes. -/
def renew (w h : ℕ) (format : CodecFormat) : Recorder × Bool :=
  match env.setFilename r.named format with
  | none => ({ r with named := r.named + 1 }, false)
  | some filename =>
    (dropInner env { r with named := r.named + 1, ctx2 := some { filename, width := w, height := h, format } }, true)

/-- A new muxer, and the state that is sent for it. -/
def openFile (ctx2 : RecorderContext2) : Recorder :=
  { r with inner := some { ctx2 }, pts := none, states := r.states ++ [.newFile ctx2.filename] }

/-- The second half of `check`. -/
def create (format : CodecFormat) : Recorder × Bool :=
  match r.ctx2, r.inner with
  | none, _ => (r, false)
  | some _, some _ => (r, true)
  | some ctx2, none => if env.supports format && env.created r.named then (r.openFile ctx2, true) else (r, false)

/-- The context of the recorder is not the one of the message. -/
def differs (w h : ℕ) (format : CodecFormat) : Bool :=
  match r.ctx2 with
  | some ctx2 => ctx2.width != w || ctx2.height != h || ctx2.format != format
  | none => true

def check (w h : ℕ) (format : CodecFormat) : Recorder × Bool :=
  let renewed := if r.differs w h format then r.renew env w h format else (r, true)
  if renewed.2 then renewed.1.create env format else renewed

/-- The recorder behind a time stamp that ends its file. -/
def restarted (pts : Int) : Recorder := { dropInner env { r with pts := some pts } with ctx2 := none }

def checkPts (pts : Int) (key : Bool) (w h : ℕ) (format : CodecFormat) : Recorder × Bool :=
  if r.pts = none ∧ key = false then (r, false)
  else if pts < r.pts.getD 0 then
    let checked := (r.restarted env pts).check env w h format
    if checked.2 then ({ checked.1 with pts := some pts }, true) else ({ checked.1 with checkFailed := true }, false)
  else ({ r with pts := some pts }, true)

/-- `write_video` of the muxer, if there is one. -/
def writeVideo (w h : ℕ) (format : CodecFormat) (f : EncodedVideoFrame) : Recorder :=
  match r.inner with
  | none => r
  | some file =>
    if file.key || f.key then
      let ok := env.accepts r.offered file.ctx2.format f
      { r with
        offered := r.offered + 1
        inner := some (file.offer ok ⟨f, w, h, format⟩) }
    else r

/-- A round of the loop over the frames, which an error leaves. -/
def writeOne (w h : ℕ) (format : CodecFormat) (r : Recorder × Bool) (f : EncodedVideoFrame) : Recorder × Bool :=
  if r.2 then
    let checked := r.1.checkPts env f.pts f.key w h format
    if checked.2 then (checked.1.writeVideo env w h format f, true) else checked
  else r

/-- `send_state(RecordState::NewFrame)` -/
def sendNewFrame : Recorder :=
  { r with
    inner := r.inner.map fun file => { file with newFrames := file.newFrames + 1 }
    states := r.states ++ [.newFrame] }

def writeFrame (union : VideoFrameUnion) (w h : ℕ) : Recorder :=
  let format := union.format
  if r.checkFailed = true ∨ format = .unknown then r
  else
    let checked := r.check env w h format
    if checked.2 then
      let wrote := runEvents (writeOne env w h format) checked union.frames
      if wrote.2 then wrote.1.sendNewFrame else wrote.1
    else { checked.1 with checkFailed := true }

/-- All files that there ever were, oldest first. -/
def files : List RecordFile := r.closed ++ r.inner.toList

end Recorder

/-- A message with the size of its display; other messages than video frames have no union. -/
structure VideoMessage where
  union : Option VideoFrameUnion
  width : ℕ
  height : ℕ

def Recorder.writeMessage (env : RecorderEnv) (r : Recorder) (msg : VideoMessage) : Recorder :=
  match msg.union with
  | none => r
  | some union => r.writeFrame env union msg.width msg.height

/-- The files and the states after all messages and the drop of the recorder. -/
def recording (env : RecorderEnv) (messages : List VideoMessage) : Recorder :=
  (runEvents (Recorder.writeMessage env) ({} : Recorder) messages).dropInner env

namespace RecordFile

variable (file : RecordFile)

/-- The destructor has left the file. -/
def Kept : Prop := file.ending = some .writeTail

instance : Decidable file.Kept := by unfold Kept; infer_instance

def StartsWithKey : Prop := ∀ written ∈ file.frames.head?, written.frame.key = true

instance : Decidable file.StartsWithKey := by unfold StartsWithKey; infer_instance

/-- The states that were sent for the file. -/
def group : List RecordState :=
  .newFile file.ctx2.filename :: (List.replicate file.newFrames .newFrame ++ file.ending.toList)

/-- The time stamps do not decrease, and all frames have the size and the format of the file. -/
structure Uniform : Prop where
  sorted : file.frames.Pairwise fun earlier later => earlier.frame.pts ≤ later.frame.pts
  context : ∀ written ∈ file.frames,
    written.width = file.ctx2.width ∧ written.height = file.ctx2.height ∧ written.format = file.ctx2.format

end RecordFile

namespace Recorder

/-- A later file does not have the name of one that was kept. -/
def FreshNames (files : List RecordFile) : Prop :=
  files.Pairwise fun earlier later => earlier.Kept → later.ctx2.filename ≠ earlier.ctx2.filename

/-- What depends on the muxers and on the clock. -/
def Playable (files : List RecordFile) : Prop := (∀ file ∈ files, file.StartsWithKey) ∧ FreshNames files

/-- The file is there when the open one is closed. -/
def Keeps (env : RecorderEnv) (r : Recorder) (file : RecordFile) : Prop :=
  file.Kept ∨ (file.ending = none ∧ env.dropState r.closed.length file = .writeTail)

end Recorder

/-- The name of the file that is created next, if that succeeds. -/
def RecorderEnv.nextFile (env : RecorderEnv) (n : ℕ) (format : CodecFormat) : Option String :=
  if env.supports format && env.created (n + 1) then env.setFilename n format else none

namespace Recorder

section

variable (env : RecorderEnv)

/-- The next file does not take the name of one that is kept. -/
def NewName (r : Recorder) (format : CodecFormat) : Prop :=
  ∀ filename ∈ env.nextFile r.named format, ∀ file ∈ r.files, r.Keeps env file → filename ≠ file.ctx2.filename

/-- The muxer does not take a delta frame when it has refused the key frame that opens the file. -/
def KeyFirst (r : Recorder) (f : EncodedVideoFrame) : Prop :=
  ∀ file ∈ r.inner, file.key = true → file.frames = [] → f.key = false →
    env.accepts r.offered file.ctx2.format f = false

/-- The condition on a frame: one that opens a file finds a new name, and another one finds the file opened by a key frame. -/
def FrameMeets (format : CodecFormat) (r : Recorder) (f : EncodedVideoFrame) : Prop :=
  if r.pts = none ∧ f.key = false then True
  else if f.pts < r.pts.getD 0 then r.NewName env format
  else r.KeyFirst env f

/-- The condition on a message, in the state that receives it. -/
def MessageMeets (r : Recorder) (msg : VideoMessage) : Prop :=
  ∀ union ∈ msg.union, r.checkFailed = false → union.format ≠ .unknown →
    (r.differs msg.width msg.height union.format = true → r.NewName env union.format) ∧
      let checked := r.check env msg.width msg.height union.format
      (checked.2 = true → RunMeets (writeOne env msg.width msg.height union.format)
        (fun s f => s.2 = true → s.1.FrameMeets env union.format f) checked union.frames)

end

/-- The files and the states of the recorder agree. -/
structure Logged (r : Recorder) : Prop where
  uniform : ∀ file ∈ r.files, file.Uniform
  opened : ∀ file ∈ r.inner, file.ending = none
  ended : ∀ file ∈ r.closed, file.ending = some .writeTail ∨ file.ending = some .removeFile
  bracketed : r.states = r.files.flatMap RecordFile.group

/-- What the recorder remembers fits the open file. -/
structure Linked (r : Recorder) : Prop where
  ctx2 : ∀ file ∈ r.inner, r.ctx2 = some file.ctx2
  pts : ∀ file ∈ r.inner, ∀ written ∈ file.frames, ∃ pts ∈ r.pts, written.frame.pts ≤ pts
  key : ∀ file ∈ r.inner, r.pts = none → file.key = false

/-- The open file has the size and the format. -/
def Opened (r : Recorder) (w h : ℕ) (format : CodecFormat) : Prop :=
  ∃ file, r.inner = some file ∧ file.ctx2.width = w ∧ file.ctx2.height = h ∧ file.ctx2.format = format

section Steps

variable {env : RecorderEnv} {r : Recorder} {width height : ℕ} {format : CodecFormat} {file : RecordFile}

theorem playable_append_singleton {files : List RecordFile} :
    Playable (files ++ [file]) ↔ Playable files ∧ file.StartsWithKey ∧
      ∀ earlier ∈ files, earlier.Kept → file.ctx2.filename ≠ earlier.ctx2.filename := by
  unfold Playable FreshNames
  rw [pairwise_append]
  simp only [mem_append, mem_singleton, pairwise_singleton, forall_eq, true_and]
  constructor
  · rintro ⟨hkey, hnames, hlast⟩
    exact ⟨⟨fun f hf => hkey f (.inl hf), hnames⟩, hkey file (.inr rfl), hlast⟩
  · rintro ⟨⟨hkey, hnames⟩, hstarts, hlast⟩
    refine ⟨fun f hf => ?_, hnames, hlast⟩
    rcases hf with hold | rfl
    · exact hkey f hold
    · exact hstarts

theorem files_of_inner_none (hinner : r.inner = none) : r.files = r.closed := by
  rw [files, hinner, toList_none, append_nil]

theorem files_of_inner_some (hinner : r.inner = some file) : r.files = r.closed ++ [file] := by
  rw [files, hinner, toList_some]

/-- The rule for a change that touches neither the files nor the states. -/
theorem Logged.congr {r' : Recorder} (h : Logged r) (hinner : r'.inner = r.inner) (hclosed : r'.closed = r.closed)
    (hstates : r'.states = r.states) : Logged r' := by
  have hfiles : r'.files = r.files := by rw [files, files, hinner, hclosed]
  refine ⟨?_, ?_, ?_, ?_⟩
  · rw [hfiles]
    exact h.uniform
  · rw [hinner]
    exact h.opened
  · rw [hclosed]
    exact h.ended
  · rw [hstates, hfiles]
    exact h.bracketed

section Dropped

variable (env : RecorderEnv)

theorem inner_dropInner (r : Recorder) : (r.dropInner env).inner = none := by
  unfold dropInner
  split
  · assumption
  · rfl

theorem closed_dropInner (r : Recorder) : r.closed <+: (r.dropInner env).closed := by
  unfold dropInner
  split
  · exact prefix_refl _
  · exact prefix_append _ _

theorem playable_dropInner (r : Recorder) : Playable (r.dropInner env).files ↔ Playable r.files := by
  cases hinner : r.inner with
  | none =>
    have hsame : r.dropInner env = r := by rw [dropInner, hinner]
    rw [hsame]
  | some file =>
    have hdropped : (r.dropInner env).files =
        r.closed ++ [{ file with ending := some (env.dropState r.closed.length file) }] := by
      rw [files_of_inner_none (inner_dropInner env r), dropInner, hinner]
    rw [hdropped, files_of_inner_some hinner, playable_append_singleton, playable_append_singleton]
    exact Iff.rfl

theorem dropState_cases (n : ℕ) (file : RecordFile) :
    env.dropState n file = .writeTail ∨ env.dropState n file = .removeFile := by
  unfold RecorderEnv.dropState
  split
  · exact .inr rfl
  · exact .inl rfl

theorem Logged.dropInner (h : Logged r) : Logged (r.dropInner env) := by
  cases hinner : r.inner with
  | none =>
    have hsame : r.dropInner env = r := by rw [Recorder.dropInner, hinner]
    rwa [hsame]
  | some file =>
    have hfiles := files_of_inner_some hinner
    have hdropped := files_of_inner_none (inner_dropInner env r)
    have hmem : file ∈ r.files := by simp [hfiles]
    have hbracketed := h.bracketed
    rw [hfiles, flatMap_append] at hbracketed
    have hclosed : (r.dropInner env).closed =
        r.closed ++ [{ file with ending := some (env.dropState r.closed.length file) }] := by
      rw [Recorder.dropInner, hinner]
    refine ⟨?_, ?_, ?_, ?_⟩
    · intro other hother
      rw [hdropped, hclosed] at hother
      rcases mem_append.mp hother with hold | hnew
      · exact h.uniform other (hfiles ▸ mem_append_left _ hold)
      · obtain rfl := mem_singleton.mp hnew
        obtain ⟨hsorted, hcontext⟩ := h.uniform file hmem
        exact ⟨hsorted, hcontext⟩
    · intro other hother
      rw [inner_dropInner] at hother
      exact nomatch hother
    · intro other hother
      rw [hclosed] at hother
      rcases mem_append.mp hother with hold | hnew
      · exact h.ended other hold
      · obtain rfl := mem_singleton.mp hnew
        rcases dropState_cases env r.closed.length file with htail | hremove
        · exact .inl (congrArg some htail)
        · exact .inr (congrArg some hremove)
    · have hstates : (r.dropInner env).states = r.states ++ [env.dropState r.closed.length file] := by
        rw [Recorder.dropInner, hinner]
      have hopened : file.ending = none := h.opened file hinner
      rw [hdropped, hclosed, hstates, hbracketed, flatMap_append]
      simp [RecordFile.group, hopened]

theorem named_dropInner (r : Recorder) : (r.dropInner env).named = r.named := by
  unfold dropInner
  split <;> rfl

theorem ctx2_dropInner (r : Recorder) : (r.dropInner env).ctx2 = r.ctx2 := by
  unfold dropInner
  split <;> rfl

end Dropped

/-- The recorder with the context of the next file. -/
def renamed (r : Recorder) (ctx2 : RecorderContext2) : Recorder := { r with named := r.named + 1, ctx2 := some ctx2 }

/-- What `check` does: nothing, or a new context that does or does not lead to a new file. -/
theorem check_cases (env : RecorderEnv) (hinner : r.inner = none → r.differs width height format = true) :
    (r.differs width height format = false ∧ r.check env width height format = (r, true)) ∨
    (r.differs width height format = true ∧ env.nextFile r.named format = none ∧
      (r.check env width height format = ({ r with named := r.named + 1 }, false) ∨
        ∃ filename, r.check env width height format = (dropInner env (r.renamed ⟨filename, width, height, format⟩), false))) ∨
    (r.differs width height format = true ∧ ∃ filename, env.nextFile r.named format = some filename ∧
      r.check env width height format =
        ((dropInner env (r.renamed ⟨filename, width, height, format⟩)).openFile ⟨filename, width, height, format⟩, true)) := by
  unfold check
  cases hdiffers : r.differs width height format with
  | false =>
    refine .inl ⟨rfl, ?_⟩
    cases hopen : r.inner with
    | none => exact nomatch hdiffers.symm.trans (hinner hopen)
    | some file =>
      cases hctx2 : r.ctx2 with
      | none => simp [differs, hctx2] at hdiffers
      | some ctx2 => simp [create, hctx2, hopen]
  | true =>
    refine .inr ?_
    simp only [if_true]
    unfold renew
    cases hname : env.setFilename r.named format with
    | none =>
      refine .inl ⟨trivial, ?_, .inl rfl⟩
      rw [RecorderEnv.nextFile, hname, ite_self]
    | some filename =>
      simp only [if_true]
      have hdropped : ∀ ctx2, create env (dropInner env (r.renamed ctx2)) format =
          if env.supports format && env.created (r.named + 1) then
            ((dropInner env (r.renamed ctx2)).openFile ctx2, true)
          else (dropInner env (r.renamed ctx2), false) := by
        intro ctx2
        have hctx2 : (dropInner env (r.renamed ctx2)).ctx2 = some ctx2 := ctx2_dropInner env _
        have hnamed : (dropInner env (r.renamed ctx2)).named = r.named + 1 := named_dropInner env _
        rw [create, hctx2, inner_dropInner, hnamed]
      have hcreate := hdropped ⟨filename, width, height, format⟩
      unfold renamed at hcreate ⊢
      rw [hcreate, RecorderEnv.nextFile, hname]
      split
      · exact .inr ⟨trivial, filename, rfl, rfl⟩
      · exact .inl ⟨trivial, rfl, .inr ⟨filename, rfl⟩⟩

/-- The files that are kept behind the drop are those that are kept or will be. -/
theorem kept_dropInner (env : RecorderEnv) (h : Logged r) (filename : String) :
    (∀ file ∈ (r.dropInner env).closed, file.Kept → filename ≠ file.ctx2.filename) ↔
      ∀ file ∈ r.files, r.Keeps env file → filename ≠ file.ctx2.filename := by
  have hclosed : ∀ file ∈ r.closed, r.Keeps env file ↔ file.Kept := by
    intro file hfile
    refine ⟨fun hkeeps => ?_, Or.inl⟩
    rcases hkeeps with hkept | ⟨hopen, -⟩
    · exact hkept
    · rcases h.ended file hfile with hended | hended <;> exact nomatch hopen.symm.trans hended
  cases hinner : r.inner with
  | none =>
    rw [files_of_inner_none hinner, dropInner, hinner]
    exact forall₂_congr fun file hfile => by rw [hclosed file hfile]
  | some file =>
    have hopened : file.ending = none := h.opened file hinner
    rw [files_of_inner_some hinner, dropInner, hinner]
    simp only [forall_mem_append, forall_mem_singleton]
    refine and_congr (forall₂_congr fun other hother => by rw [hclosed other hother]) ?_
    simp [RecordFile.Kept, Keeps, hopened]

theorem files_openFile (hinner : r.inner = none) (ctx2 : RecorderContext2) :
    (r.openFile ctx2).files = r.files ++ [{ ctx2 := ctx2 }] := by
  rw [files_of_inner_none hinner]
  exact files_of_inner_some rfl

theorem Logged.openFile (h : Logged r) (hinner : r.inner = none) (ctx2 : RecorderContext2) : Logged (r.openFile ctx2) := by
  have hfiles := files_openFile hinner ctx2
  refine ⟨?_, ?_, h.ended, ?_⟩
  · intro file hfile
    rw [hfiles] at hfile
    rcases mem_append.mp hfile with hold | hnew
    · exact h.uniform file hold
    · obtain rfl := mem_singleton.mp hnew
      exact ⟨.nil, fun _ hwritten => nomatch hwritten⟩
  · rintro _ ⟨⟩
    rfl
  · rw [hfiles, flatMap_append, ← h.bracketed]
    rfl

theorem Logged.check (env : RecorderEnv) (h : Logged r) (hinner : r.inner = none → r.differs width height format = true) :
    Logged (r.check env width height format).1 := by
  have hrenamed (ctx2 : RecorderContext2) : Logged (r.renamed ctx2) := h.congr rfl rfl rfl
  obtain ⟨-, hcheck⟩ | ⟨-, -, hcheck | ⟨filename, hcheck⟩⟩ | ⟨-, filename, -, hcheck⟩ := check_cases env hinner
  · rwa [hcheck]
  · rw [hcheck]
    exact h.congr rfl rfl rfl
  · rw [hcheck]
    exact (hrenamed _).dropInner env
  · rw [hcheck]
    exact ((hrenamed _).dropInner env).openFile (inner_dropInner env _) _

theorem linked_of_inner_none (hinner : r.inner = none) : Linked r := by
  refine ⟨?_, ?_, ?_⟩ <;> intro file hfile <;> rw [hinner] at hfile <;> exact nomatch hfile

theorem linked_openFile {ctx2 : RecorderContext2} (hctx2 : r.ctx2 = some ctx2) : Linked (r.openFile ctx2) := by
  refine ⟨?_, ?_, ?_⟩
  · rintro _ ⟨⟩
    exact hctx2
  · rintro _ ⟨⟩ written hwritten
    exact nomatch hwritten
  · rintro _ ⟨⟩ -
    rfl

section

variable (env : RecorderEnv)

theorem Linked.check (h : Linked r) (hinner : r.inner = none → r.differs width height format = true) :
    Linked (r.check env width height format).1 := by
  obtain ⟨-, hcheck⟩ | ⟨-, -, hcheck | ⟨filename, hcheck⟩⟩ | ⟨-, filename, -, hcheck⟩ := check_cases env hinner
  · rwa [hcheck]
  · rw [hcheck]
    exact ⟨h.ctx2, h.pts, h.key⟩
  · rw [hcheck]
    exact linked_of_inner_none (inner_dropInner env _)
  · rw [hcheck]
    exact linked_openFile (ctx2_dropInner env _)

theorem closed_check (hinner : r.inner = none → r.differs width height format = true) :
    r.closed <+: (r.check env width height format).1.closed := by
  obtain ⟨-, hcheck⟩ | ⟨-, -, hcheck | ⟨filename, hcheck⟩⟩ | ⟨-, filename, -, hcheck⟩ := check_cases env hinner
  · rewrite [hcheck]
    exact prefix_refl _
  · rewrite [hcheck]
    exact prefix_refl _
  · rw [hcheck]
    exact closed_dropInner env (r.renamed _)
  · rw [hcheck]
    exact closed_dropInner env (r.renamed _)

theorem opened_check (h : Linked r) (hinner : r.inner = none → r.differs width height format = true)
    (hchecked : (r.check env width height format).2 = true) : Opened (r.check env width height format).1 width height format := by
  obtain ⟨hsame, hcheck⟩ | ⟨-, -, hcheck | ⟨filename, hcheck⟩⟩ | ⟨-, filename, -, hcheck⟩ :=
    check_cases env hinner
  · rw [hcheck]
    cases hopen : r.inner with
    | none => exact nomatch hsame.symm.trans (hinner hopen)
    | some file =>
      have hctx2 : r.ctx2 = some file.ctx2 := h.ctx2 file hopen
      simp only [differs, hctx2, Bool.or_eq_false_iff, bne_eq_false_iff_eq] at hsame
      exact ⟨file, hopen, hsame.1.1, hsame.1.2, hsame.2⟩
  · rw [hcheck] at hchecked
    exact nomatch hchecked
  · rw [hcheck] at hchecked
    exact nomatch hchecked
  · rw [hcheck]
    exact ⟨_, rfl, rfl, rfl, rfl⟩

/-- A new context comes with a new file. -/
theorem inner_check_of_differs (hdiffers : r.differs width height format = true)
    (hchecked : (r.check env width height format).2 = true) :
    ∃ ctx2, (r.check env width height format).1.inner = some { ctx2 := ctx2 } := by
  obtain ⟨hsame, -⟩ | ⟨-, -, hcheck | ⟨filename, hcheck⟩⟩ | ⟨-, filename, -, hcheck⟩ :=
    check_cases env fun _ => hdiffers
  · exact nomatch hsame.symm.trans hdiffers
  · rw [hcheck] at hchecked
    exact nomatch hchecked
  · rw [hcheck] at hchecked
    exact nomatch hchecked
  · rw [hcheck]
    exact ⟨_, rfl⟩

theorem playable_check (h : Logged r) (hinner : r.inner = none → r.differs width height format = true) :
    Playable (r.check env width height format).1.files ↔
      Playable r.files ∧ (r.differs width height format = true → r.NewName env format) := by
  obtain ⟨hsame, hcheck⟩ | ⟨-, hnone, hcheck⟩ | ⟨hdiffers, filename, hsome, hcheck⟩ := check_cases env hinner
  · rw [hcheck, hsame]
    simp
  · have hnew : r.NewName env format := by
      intro filename hfilename
      rw [hnone] at hfilename
      exact nomatch hfilename
    rw [and_iff_left fun _ => hnew]
    obtain hcheck | ⟨filename, hcheck⟩ := hcheck
    · rw [hcheck]
      exact Iff.rfl
    · rw [hcheck]
      exact playable_dropInner env (r.renamed _)
  · set ctx2 : RecorderContext2 := ⟨filename, width, height, format⟩ with hctx2
    have hfiles := files_openFile (inner_dropInner env (r.renamed ctx2)) ctx2
    have hstarts : RecordFile.StartsWithKey { ctx2 := ctx2 } := fun _ hwritten => nomatch hwritten
    have hkept := kept_dropInner env (r := r.renamed ctx2) (h.congr rfl rfl rfl) filename
    rw [hcheck, hfiles, playable_append_singleton, playable_dropInner, and_iff_right hstarts,
      files_of_inner_none (inner_dropInner env _)]
    refine and_congr Iff.rfl (hkept.trans ?_)
    simp only [NewName, hdiffers, forall_const, hsome, mem_def, some.injEq, forall_eq']
    exact Iff.rfl

end

/-- The rule for a change of the open file that sends what it adds to its group. -/
theorem Logged.change {r' : Recorder} {file file' : RecordFile} (h : Logged r) (sent : List RecordState)
    (hinner : r.inner = some file) (hinner' : r'.inner = some file') (hclosed : r'.closed = r.closed)
    (hstates : r'.states = r.states ++ sent) (huniform : file'.Uniform) (hending : file'.ending = none)
    (hgroup : file'.group = file.group ++ sent) : Logged r' := by
  have hfiles' := files_of_inner_some hinner'
  refine ⟨?_, ?_, ?_, ?_⟩
  · intro other hother
    rw [hfiles', hclosed] at hother
    rcases mem_append.mp hother with hold | hnew
    · exact h.uniform other (mem_append_left _ hold)
    · rwa [mem_singleton.mp hnew]
  · intro other hother
    rw [hinner'] at hother
    rwa [← some.inj hother]
  · rw [hclosed]
    exact h.ended
  · rw [hstates, h.bracketed, hfiles', files_of_inner_some hinner, hclosed]
    simp [hgroup]

variable {f : EncodedVideoFrame}

theorem Logged.writeVideo (h : Logged r) (hlinked : Linked r) (hopened : Opened r width height format)
    (hpts : r.pts = some f.pts) : Logged (r.writeVideo env width height format f) := by
  obtain ⟨file, hinner, hwidth, hheight, hformat⟩ := hopened
  rw [Recorder.writeVideo, hinner]
  dsimp only
  split_ifs with hkey
  · obtain ⟨hsorted, hcontext⟩ := h.uniform file (by rw [files_of_inner_some hinner]; simp)
    refine h.change [] hinner rfl rfl (append_nil _).symm ?_ (h.opened file hinner) (append_nil _).symm
    cases env.accepts r.offered file.ctx2.format f with
    | false => exact ⟨hsorted, hcontext⟩
    | true =>
      refine ⟨pairwise_append.mpr ⟨hsorted, pairwise_singleton _ _, fun written hwritten => ?_⟩, ?_⟩
      · obtain ⟨pts, hlast, hle⟩ := hlinked.pts file hinner written hwritten
        obtain rfl : f.pts = pts := some.inj (hpts.symm.trans hlast)
        exact fun new hnew => by rwa [mem_singleton.mp hnew]
      · intro written hwritten
        rcases mem_append.mp hwritten with hold | hnew
        · exact hcontext written hold
        · obtain rfl := mem_singleton.mp hnew
          exact ⟨hwidth.symm, hheight.symm, hformat.symm⟩
  · exact h

theorem Linked.writeVideo (h : Linked r) (hpts : r.pts = some f.pts) :
    Linked (r.writeVideo env width height format f) := by
  unfold Recorder.writeVideo
  split
  · exact h
  · rename_i file hinner
    dsimp only
    split_ifs with hkey
    · refine ⟨?_, ?_, ?_⟩
      · rintro _ ⟨⟩
        exact h.ctx2 file hinner
      · rintro _ ⟨⟩ written hwritten
        have hold : written ∈ file.frames ∨ written = ⟨f, width, height, format⟩ := by
          unfold RecordFile.offer at hwritten
          split_ifs at hwritten with hok
          · simpa using hwritten
          · exact .inl hwritten
        rcases hold with hold | rfl
        · exact h.pts file hinner written hold
        · exact ⟨f.pts, hpts, Int.le_refl _⟩
      · rintro _ ⟨⟩ hnone
        exact nomatch hpts.symm.trans hnone
    · exact h

theorem opened_writeVideo (h : Opened r width height format) :
    Opened (r.writeVideo env width height format f) width height format := by
  obtain ⟨file, hinner, hcontext⟩ := h
  rw [writeVideo, hinner]
  dsimp only
  split_ifs
  · exact ⟨_, rfl, hcontext⟩
  · exact ⟨file, hinner, hcontext⟩

theorem closed_writeVideo (env : RecorderEnv) (r : Recorder) :
    (r.writeVideo env width height format f).closed = r.closed := by
  unfold writeVideo
  split
  · rfl
  · dsimp only
    split_ifs <;> rfl

/-- A frame that is handed to the muxer leaves a file that starts with a key frame, if it does not come behind a key frame
that was refused. -/
theorem startsWithKey_offer (hkey : (file.key || f.key) = true) {ok : Bool} :
    (file.offer ok ⟨f, width, height, format⟩).StartsWithKey ↔
      file.StartsWithKey ∧ (file.key = true → file.frames = [] → f.key = false → ok = false) := by
  obtain ⟨ctx2, key, written, frames, newFrames, ending⟩ := file
  unfold RecordFile.StartsWithKey RecordFile.offer
  cases frames with
  | nil =>
    cases ok with
    | false => simp
    | true =>
      cases hf : f.key with
      | false => simpa [hf] using hkey
      | true => simp [hf]
  | cons first rest => cases ok <;> simp

section PlayableVideo

variable (env : RecorderEnv)

/-- The muxer of a file that starts with a key frame, or has none, is handed the next frame. -/
theorem playable_writeVideo (r : Recorder) :
    Playable (r.writeVideo env width height format f).files ↔ Playable r.files ∧ r.KeyFirst env f := by
  unfold writeVideo
  split
  · rename_i hinner
    have hkeyFirst : r.KeyFirst env f := fun file hfile => nomatch hinner.symm.trans hfile
    exact (and_iff_left hkeyFirst).symm
  · rename_i file hinner
    have hkeyFirst : r.KeyFirst env f ↔ (file.key = true → file.frames = [] → f.key = false →
        env.accepts r.offered file.ctx2.format f = false) := by
      simp [KeyFirst, hinner]
    rw [hkeyFirst]
    dsimp only
    split_ifs with hkey
    · rw [files_of_inner_some rfl, files_of_inner_some hinner, playable_append_singleton, playable_append_singleton]
      rw [startsWithKey_offer hkey]
      constructor
      · rintro ⟨hold, ⟨hstarts, hfirst⟩, hnames⟩
        exact ⟨⟨hold, hstarts, hnames⟩, hfirst⟩
      · rintro ⟨⟨hold, hstarts, hnames⟩, hfirst⟩
        exact ⟨hold, ⟨hstarts, hfirst⟩, hnames⟩
    · have hclosed : file.key = false := by
        cases hfile : file.key
        · rfl
        · exact absurd (by rw [hfile]; rfl) hkey
      simp [hclosed]

theorem inner_restarted (r : Recorder) (pts : Int) : (r.restarted env pts).inner = none :=
  inner_dropInner env _

theorem differs_restarted (r : Recorder) (pts : Int) (width height : ℕ) (format : CodecFormat) :
    (r.restarted env pts).differs width height format = true := rfl

theorem Logged.restarted (h : Logged r) (pts : Int) : Logged (r.restarted env pts) := by
  have hpts : Logged { r with pts := some pts } := h.congr rfl rfl rfl
  exact (hpts.dropInner env).congr rfl rfl rfl

theorem playable_restarted (r : Recorder) (pts : Int) :
    Playable (r.restarted env pts).files ↔ Playable r.files := playable_dropInner env { r with pts := some pts }

theorem newName_restarted (h : Logged r) (pts : Int) :
    (r.restarted env pts).NewName env format ↔ r.NewName env format := by
  have hnamed : (r.restarted env pts).named = r.named := named_dropInner env { r with pts := some pts }
  have hrestarted := h.restarted env pts
  unfold NewName
  rw [hnamed]
  refine forall₂_congr fun filename _ => ?_
  have hbefore := kept_dropInner env (r := { r with pts := some pts }) (h.congr rfl rfl rfl) filename
  have hafter := kept_dropInner env hrestarted filename
  rw [dropInner, inner_restarted] at hafter
  exact hafter.symm.trans hbefore

end PlayableVideo

/-- What the loop over the frames keeps. -/
structure Writing (width height : ℕ) (format : CodecFormat) (s : Recorder × Bool) : Prop where
  logged : Logged s.1
  linked : Linked s.1
  opened : s.2 = true → Opened s.1 width height format
  failed : s.1.inner = none → s.1.checkFailed = true

theorem Opened.inner_ne_none (h : Opened r width height format) : r.inner ≠ none := by
  obtain ⟨file, hinner, -⟩ := h
  rw [hinner]
  exact some_ne_none file

/-- A frame in a file that goes on. -/
theorem writing_writeVideo (hlogged : Logged r) (hlinked : Linked r) (hopened : Opened r width height format)
    (hpts : r.pts = some f.pts) : Writing width height format (r.writeVideo env width height format f, true) :=
  ⟨hlogged.writeVideo hlinked hopened hpts, hlinked.writeVideo hpts, fun _ => opened_writeVideo hopened,
    fun hnone => absurd hnone (opened_writeVideo hopened).inner_ne_none⟩

/-- What a round of the loop does: it leaves the loop, writes to the open file, or closes that file and finds a new one or
none. -/
theorem writeOne_cases (env : RecorderEnv) (r : Recorder) (width height : ℕ) (format : CodecFormat)
    (f : EncodedVideoFrame) :
    ((r.pts = none ∧ f.key = false) ∧ writeOne env width height format (r, true) f = (r, false)) ∨
    (¬(r.pts = none ∧ f.key = false) ∧ ¬f.pts < r.pts.getD 0 ∧ writeOne env width height format (r, true) f =
        (({ r with pts := some f.pts } : Recorder).writeVideo env width height format f, true)) ∨
    (¬(r.pts = none ∧ f.key = false) ∧ f.pts < r.pts.getD 0 ∧ ∃ checked ok,
      (r.restarted env f.pts).check env width height format = (checked, ok) ∧
      writeOne env width height format (r, true) f =
        if ok then (({ checked with pts := some f.pts } : Recorder).writeVideo env width height format f, true)
        else ({ checked with checkFailed := true }, false)) := by
  rw [writeOne, if_pos rfl, checkPts]
  split_ifs with hkey hlt
  · exact .inl ⟨hkey, rfl⟩
  · cases hcheck : (r.restarted env f.pts).check env width height format with
    | mk checked ok =>
      refine .inr (.inr ⟨hkey, hlt, checked, ok, rfl, ?_⟩)
      cases ok <;> rfl
  · exact .inr (.inl ⟨hkey, hlt, rfl⟩)

theorem writeOne_of_left (env : RecorderEnv) {s : Recorder × Bool} (hleft : s.2 = false) :
    writeOne env width height format s f = s := by
  rw [writeOne, hleft]
  rfl

variable {s : Recorder × Bool}

section

variable (env : RecorderEnv)

theorem writing_writeOne (h : Writing width height format s) (f : EncodedVideoFrame) :
    Writing width height format (writeOne env width height format s f) := by
  obtain ⟨r, ok⟩ := s
  cases ok with
  | false => rwa [writeOne_of_left env rfl]
  | true =>
    obtain ⟨hlogged, hlinked, hopened, hfailed⟩ := h
    obtain ⟨-, hwrite⟩ | ⟨-, hle, hwrite⟩ | ⟨-, -, checked, ok, hcheck, hwrite⟩ :=
      writeOne_cases env r width height format f
    · rw [hwrite]
      exact ⟨hlogged, hlinked, (fun hleft => nomatch hleft), hfailed⟩
    · rw [hwrite]
      refine writing_writeVideo (hlogged.congr rfl rfl rfl) ?_ (hopened rfl) rfl
      refine ⟨hlinked.ctx2, fun file hfile written hwritten => ⟨f.pts, rfl, ?_⟩, fun _ _ hnone => nomatch hnone⟩
      obtain ⟨pts, hpts, hwritten⟩ := hlinked.pts file hfile written hwritten
      have hlast : r.pts.getD 0 = pts := by rw [hpts]; rfl
      omega
    · have hinner : (r.restarted env f.pts).inner = none → (r.restarted env f.pts).differs width height format = true :=
        fun _ => differs_restarted env r f.pts width height format
      have hlogged' := (hlogged.restarted env f.pts).check env hinner
      have hlinked' := (linked_of_inner_none (inner_restarted env r f.pts)).check env hinner
      have hopened' := opened_check env (linked_of_inner_none (inner_restarted env r f.pts)) hinner
      have hfresh := inner_check_of_differs env (differs_restarted env r f.pts width height format)
      rw [hcheck] at hlogged' hlinked' hopened' hfresh
      rw [hwrite]
      cases ok with
      | false =>
        exact ⟨hlogged'.congr rfl rfl rfl, ⟨hlinked'.ctx2, hlinked'.pts, hlinked'.key⟩, (fun hleft => nomatch hleft), fun _ => rfl⟩
      | true =>
        refine writing_writeVideo (hlogged'.congr rfl rfl rfl) ?_ (hopened' rfl) rfl
        obtain ⟨ctx2, hinner'⟩ := hfresh rfl
        refine ⟨hlinked'.ctx2, fun file hfile written hwritten => ?_, fun _ _ hnone => nomatch hnone⟩
        obtain rfl := some.inj (hinner'.symm.trans hfile)
        exact nomatch hwritten

theorem closed_writeOne (width height : ℕ) (format : CodecFormat) (s : Recorder × Bool)
    (f : EncodedVideoFrame) :
    s.1.closed <+: (writeOne env width height format s f).1.closed := by
  obtain ⟨r, ok⟩ := s
  cases ok with
  | false =>
    rewrite [writeOne_of_left env rfl]
    exact prefix_refl _
  | true =>
    obtain ⟨-, hwrite⟩ | ⟨-, -, hwrite⟩ | ⟨-, -, checked, ok, hcheck, hwrite⟩ :=
      writeOne_cases env r width height format f
    · rewrite [hwrite]
      exact prefix_refl _
    · rewrite [hwrite, closed_writeVideo]
      exact prefix_refl _
    · have hrestarted : r.closed <+: (r.restarted env f.pts).closed := closed_dropInner env { r with pts := some f.pts }
      have hchecked := closed_check env fun _ => differs_restarted env r f.pts width height format
      rw [hcheck] at hchecked
      rw [hwrite]
      cases ok with
      | false => exact hrestarted.trans hchecked
      | true =>
        rw [if_pos rfl, closed_writeVideo]
        exact hrestarted.trans hchecked

theorem playable_writeOne (h : Writing width height format s) (f : EncodedVideoFrame) :
    Playable (writeOne env width height format s f).1.files ↔
      Playable s.1.files ∧ (s.2 = true → s.1.FrameMeets env format f) := by
  obtain ⟨r, ok⟩ := s
  cases ok with
  | false => simp [writeOne_of_left env (s := (r, false)) rfl]
  | true =>
    simp only [forall_const]
    obtain ⟨hkey, hwrite⟩ | ⟨hkey, hle, hwrite⟩ | ⟨hkey, hlt, checked, ok, hcheck, hwrite⟩ :=
      writeOne_cases env r width height format f
    · rw [hwrite, FrameMeets, if_pos hkey, and_true]
    · rw [hwrite, FrameMeets, if_neg hkey, if_neg hle]
      exact playable_writeVideo env { r with pts := some f.pts }
    · have hchecked := playable_check env (h.logged.restarted env f.pts) fun _ =>
        differs_restarted env r f.pts width height format
      rw [hcheck, playable_restarted, differs_restarted, newName_restarted env h.logged] at hchecked
      have hfresh := inner_check_of_differs env (differs_restarted env r f.pts width height format)
      rw [hcheck] at hfresh
      rw [hwrite, FrameMeets, if_neg hkey, if_pos hlt]
      cases ok with
      | false => exact hchecked.trans (and_congr_right fun _ => forall_prop_of_true rfl)
      | true =>
        obtain ⟨ctx2, hinner⟩ := hfresh rfl
        have hkeyFirst : ({ checked with pts := some f.pts } : Recorder).KeyFirst env f := by
          intro file hfile hclosed
          obtain rfl := some.inj (hinner.symm.trans hfile)
          exact nomatch hclosed
        rw [if_pos rfl, playable_writeVideo, and_iff_left hkeyFirst]
        exact hchecked.trans (and_congr_right fun _ => forall_prop_of_true rfl)

end

/-- What a recorder keeps between the messages. -/
structure Ready (r : Recorder) : Prop where
  logged : Logged r
  linked : Linked r
  ctx2 : r.inner = none → r.checkFailed = true ∨ r.ctx2 = none

theorem Ready.differs (h : Ready r) (hchecked : r.checkFailed = false) (width height : ℕ) (format : CodecFormat)
    (hinner : r.inner = none) : r.differs width height format = true := by
  rcases h.ctx2 hinner with hfailed | hnone
  · exact nomatch hchecked.symm.trans hfailed
  · rw [Recorder.differs, hnone]

theorem Writing.ready (h : Writing width height format s) : Ready s.1 :=
  ⟨h.logged, h.linked, fun hinner => .inl (h.failed hinner)⟩

theorem Ready.sendNewFrame (h : Ready r) (hopened : Opened r width height format) : Ready r.sendNewFrame := by
  obtain ⟨file, hinner, -⟩ := hopened
  have hinner' : r.sendNewFrame.inner = some { file with newFrames := file.newFrames + 1 } := by
    rw [Recorder.sendNewFrame, hinner, map_some]
  have hending : file.ending = none := h.logged.opened file hinner
  have huniform := h.logged.uniform file (by rw [files_of_inner_some hinner]; simp)
  refine ⟨?_, ?_, ?_⟩
  · refine h.logged.change [.newFrame] hinner hinner' rfl rfl ⟨huniform.sorted, huniform.context⟩ hending ?_
    simp [RecordFile.group, hending, replicate_succ']
  · refine ⟨?_, ?_, ?_⟩ <;> rw [hinner'] <;> rintro _ ⟨⟩
    · exact h.linked.ctx2 file hinner
    · exact h.linked.pts file hinner
    · exact h.linked.key file hinner
  · intro hnone
    exact nomatch hinner'.symm.trans hnone

theorem playable_sendNewFrame (hopened : Opened r width height format) :
    Playable r.sendNewFrame.files ↔ Playable r.files := by
  obtain ⟨file, hinner, -⟩ := hopened
  have hinner' : r.sendNewFrame.inner = some { file with newFrames := file.newFrames + 1 } := by
    rw [sendNewFrame, hinner, map_some]
  rw [files_of_inner_some hinner, files_of_inner_some hinner', playable_append_singleton, playable_append_singleton]
  exact Iff.rfl

section

variable (env : RecorderEnv)

/-- What a video frame does: it is passed over, its check fails, or its frames are written. -/
theorem writeFrame_cases (r : Recorder) (union : VideoFrameUnion) (width height : ℕ) :
    ((r.checkFailed = true ∨ union.format = .unknown) ∧ r.writeFrame env union width height = r) ∨
    (r.checkFailed = false ∧ union.format ≠ .unknown ∧ ∃ checked,
      r.check env width height union.format = (checked, false) ∧
      r.writeFrame env union width height = { checked with checkFailed := true }) ∨
    (r.checkFailed = false ∧ union.format ≠ .unknown ∧ ∃ checked wrote, ∃ ok,
      r.check env width height union.format = (checked, true) ∧
      runEvents (writeOne env width height union.format) (checked, true) union.frames = (wrote, ok) ∧
      r.writeFrame env union width height = if ok then wrote.sendNewFrame else wrote) := by
  rw [writeFrame]
  split_ifs with hskip
  · exact .inl ⟨hskip, rfl⟩
  · obtain ⟨hchecked, hformat⟩ := not_or.mp hskip
    rw [Bool.not_eq_true] at hchecked
    cases hcheck : r.check env width height union.format with
    | mk checked ok =>
      cases ok with
      | false => exact .inr (.inl ⟨hchecked, hformat, checked, rfl, rfl⟩)
      | true =>
        cases hrun : runEvents (writeOne env width height union.format) (checked, true) union.frames with
        | mk wrote ok =>
          refine .inr (.inr ⟨hchecked, hformat, checked, wrote, ok, rfl, hrun, ?_⟩)
          simp [hrun]

theorem writing_check (h : Ready r) (hfailed : r.checkFailed = false) {checked : Recorder}
    (hcheck : r.check env width height format = (checked, true)) : Writing width height format (checked, true) := by
  have hlogged := h.logged.check env (h.differs hfailed width height format)
  have hlinked := h.linked.check env (h.differs hfailed width height format)
  have hopened := opened_check env h.linked (h.differs hfailed width height format)
  rw [hcheck] at hlogged hlinked hopened
  exact ⟨hlogged, hlinked, hopened, fun hnone => absurd hnone (hopened rfl).inner_ne_none⟩

theorem writing_run (h : Writing width height format s) (frames : List EncodedVideoFrame) :
    Writing width height format (runEvents (writeOne env width height format) s frames) :=
  runEvents_invariant_of_step (I := Writing width height format) (fun _ f h => writing_writeOne env h f) h frames

end

section Ready

variable (env : RecorderEnv) (h : Ready r) (msg : VideoMessage)
include h

theorem ready_writeMessage : Ready (r.writeMessage env msg) := by
  unfold writeMessage
  split
  · exact h
  · rename_i union _
    obtain ⟨-, hwrite⟩ | ⟨hfailed, -, checked, hcheck, hwrite⟩ | ⟨hfailed, -, checked, wrote, ok, hcheck, hrun, hwrite⟩ :=
      writeFrame_cases env r union msg.width msg.height
    · rwa [hwrite]
    · have hinner := h.differs hfailed msg.width msg.height union.format
      have hlogged := h.logged.check env hinner
      have hlinked := h.linked.check env hinner
      rw [hcheck] at hlogged hlinked
      rw [hwrite]
      exact ⟨hlogged.congr rfl rfl rfl, ⟨hlinked.ctx2, hlinked.pts, hlinked.key⟩, fun _ => .inl rfl⟩
    · have hwriting := writing_run env (writing_check env h hfailed hcheck) union.frames
      rw [hrun] at hwriting
      rw [hwrite]
      cases ok with
      | false => exact hwriting.ready
      | true => exact hwriting.ready.sendNewFrame (hwriting.opened rfl)

theorem closed_writeMessage : r.closed <+: (r.writeMessage env msg).closed := by
  unfold writeMessage
  split
  · exact prefix_refl _
  · rename_i union _
    obtain ⟨-, hwrite⟩ | ⟨hfailed, -, checked, hcheck, hwrite⟩ | ⟨hfailed, -, checked, wrote, ok, hcheck, hrun, hwrite⟩ :=
      writeFrame_cases env r union msg.width msg.height
    · rewrite [hwrite]
      exact prefix_refl _
    · have hchecked := closed_check env (h.differs hfailed msg.width msg.height union.format)
      rw [hcheck] at hchecked
      rwa [hwrite]
    · have hchecked := closed_check env (h.differs hfailed msg.width msg.height union.format)
      rw [hcheck] at hchecked
      have hwrote := runEvents_invariant_of_step (I := fun s : Recorder × Bool => r.closed <+: s.1.closed)
        (fun s f hclosed => hclosed.trans (closed_writeOne env msg.width msg.height union.format s f))
        (s := (checked, true)) hchecked union.frames
      rw [hrun] at hwrote
      rw [hwrite]
      cases ok <;> exact hwrote

theorem playable_writeMessage :
    Playable (r.writeMessage env msg).files ↔ Playable r.files ∧ r.MessageMeets env msg := by
  obtain ⟨union, width, height⟩ := msg
  cases union with
  | none =>
    have hmeets : r.MessageMeets env ⟨none, width, height⟩ := fun _ hunion => nomatch hunion
    exact (and_iff_left hmeets).symm
  | some union =>
    change Playable (r.writeFrame env union width height).files ↔ _
    simp only [MessageMeets, mem_def, some.injEq, forall_eq']
    obtain ⟨hskip, hwrite⟩ | ⟨hfailed, hformat, checked, hcheck, hwrite⟩ |
      ⟨hfailed, hformat, checked, wrote, ok, hcheck, hrun, hwrite⟩ := writeFrame_cases env r union width height
    · rw [hwrite]
      refine (and_iff_left fun hfailed hformat => ?_).symm
      rcases hskip with hskip | hskip
      · exact nomatch hfailed.symm.trans hskip
      · exact absurd hskip hformat
    · have hchecked := playable_check env h.logged (h.differs hfailed width height union.format)
      rw [hcheck] at hchecked
      rw [hwrite, hcheck]
      simp only [hfailed, forall_const, hformat, ne_eq, not_false_eq_true, Bool.false_eq_true, false_implies, and_true]
      exact hchecked
    · have hwriting := writing_check env h hfailed hcheck
      have hchecked := playable_check env h.logged (h.differs hfailed width height union.format)
      have hframes := runEvents_iff (P := fun s : Recorder × Bool => Playable s.1.files)
        (I := Writing width height union.format)
        (fun _ f hs => writing_writeOne env hs f) (fun _ f hs => playable_writeOne env hs f) hwriting union.frames
      have hwrote := writing_run env hwriting union.frames
      rw [hcheck] at hchecked
      rw [hrun] at hframes hwrote
      have hsent : Playable (r.writeFrame env union width height).files ↔ Playable wrote.files := by
        rw [hwrite]
        cases ok with
        | false => exact Iff.rfl
        | true => exact playable_sendNewFrame (hwrote.opened rfl)
      rw [hsent, hcheck]
      simp only [hfailed, forall_const, hformat, ne_eq, not_false_eq_true]
      rw [hframes, hchecked, and_assoc]

end Ready

end Steps

end Recorder

/-- Every file starts with a key frame, has nondecreasing time stamps and one size and format, and does not take the name of
a file that was kept; closed files stay as they are; and the states are groups, one for each file. -/
structure WellRecorded (env : RecorderEnv) (messages : List VideoMessage) : Prop where
  playable : Recorder.Playable (recording env messages).files
  uniform : ∀ file ∈ (recording env messages).files, file.Uniform
  frozen : ∀ earlier later, messages = earlier ++ later →
    (runEvents (Recorder.writeMessage env) ({} : Recorder) earlier).closed <+: (recording env messages).closed
  bracketed : (recording env messages).states = (recording env messages).files.flatMap RecordFile.group
  ended : ∀ file ∈ (recording env messages).files, file.ending = some .writeTail ∨ file.ending = some .removeFile

theorem ready_new : ({} : Recorder).Ready := by
  refine ⟨⟨?_, ?_, ?_, rfl⟩, Recorder.linked_of_inner_none rfl, fun _ => .inr rfl⟩
  · exact fun _ hfile => nomatch hfile
  · exact fun _ hfile => nomatch hfile
  · exact fun _ hfile => nomatch hfile

theorem ready_run (env : RecorderEnv) (messages : List VideoMessage) :
    (runEvents (Recorder.writeMessage env) ({} : Recorder) messages).Ready :=
  runEvents_invariant_of_step (I := Recorder.Ready) (fun _ msg h => Recorder.ready_writeMessage env h msg) ready_new
    messages

/-- A recording is well formed exactly when no new file takes the name of a kept one and no muxer takes a delta frame behind
the refused key frame of its file. -/
theorem wellRecorded_iff (env : RecorderEnv) (messages : List VideoMessage) : WellRecorded env messages ↔
      RunMeets (Recorder.writeMessage env) (Recorder.MessageMeets env) ({} : Recorder) messages := by
  have hready := ready_run env messages
  have hplayable : Recorder.Playable (recording env messages).files ↔
      RunMeets (Recorder.writeMessage env) (Recorder.MessageMeets env) ({} : Recorder) messages := by
    have hempty : Recorder.Playable ({} : Recorder).files := ⟨(fun _ hfile => nomatch hfile), .nil⟩
    rw [recording, Recorder.playable_dropInner,
      runEvents_iff (P := fun r : Recorder => Recorder.Playable r.files) (I := Recorder.Ready)
        (fun _ msg h => Recorder.ready_writeMessage env h msg)
        (fun _ msg h => Recorder.playable_writeMessage env h msg) ready_new messages, and_iff_right hempty]
  refine ⟨fun h => hplayable.mp h.playable, fun h => ?_⟩
  have hlogged := hready.logged.dropInner env
  have hfiles : (recording env messages).files = (recording env messages).closed :=
    Recorder.files_of_inner_none (Recorder.inner_dropInner env _)
  refine ⟨hplayable.mpr h, hlogged.uniform, ?_, hlogged.bracketed, ?_⟩
  · rintro earlier later rfl
    have hlater := runEvents_invariant_of_step (I := fun r : Recorder => r.Ready ∧
        (runEvents (Recorder.writeMessage env) ({} : Recorder) earlier).closed <+: r.closed)
      (fun _ msg h => ⟨Recorder.ready_writeMessage env h.1 msg, h.2.trans (Recorder.closed_writeMessage env h.1 msg)⟩)
      ⟨ready_run env earlier, List.prefix_refl _⟩ later
    rw [recording, runEvents_append]
    exact hlater.2.trans (Recorder.closed_dropInner env _)
  · rw [hfiles]
    exact hlogged.ended

/-- A muxer that takes no empty frame, and a clock that stands still. -/
def sampleRecorder : RecorderEnv where
  ctx := { server := false, id := "peer", dir := "records", displayIdx := 0, camera := false }
  hwcodec := false
  now := fun _ => "_20260101000000000_"
  dirExists := fun _ => true
  created := fun _ => true
  addFrame := fun _ data _ _ => !data.isEmpty
  writeVideo := fun _ _ _ => true
  elapsed := fun _ => 2

/-- The key frame is empty, and a delta frame follows it. -/
def refusedKeyFrame : List VideoMessage :=
  [{ union := some (.vp9s [{ key := true }, { data := [1], pts := 1 }]), width := 640, height := 480 }]

/-- The size changes behind a file that is kept. -/
def resizedDisplay : List VideoMessage :=
  [{ union := some (.vp9s [{ data := [1], key := true }]), width := 640, height := 480 },
    { union := some (.vp9s [{ data := [1], key := true }]), width := 800, height := 600 }]

/-- A file starts with a delta frame behind a refused key frame, and a kept file is written over when the clock does not
advance. -/
theorem not_wellRecorded :
    ¬ WellRecorded sampleRecorder refusedKeyFrame ∧ ¬ WellRecorded sampleRecorder resizedDisplay := by
  constructor
  · intro h
    exact absurd h.playable.1 (by decide)
  · intro h
    have hnames := h.playable.2
    unfold Recorder.FreshNames at hnames
    exact absurd hnames (by decide)

end UnyDesk
