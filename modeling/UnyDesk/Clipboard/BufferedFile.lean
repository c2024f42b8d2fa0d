import UnyDesk.Clipboard.Serving
import UnyDesk.Lib.BufferedReader

/-!
# Files that are read through a buffer

The reader of a shared file takes blocks of it ahead and is kept between requests. Here every call of the system
may fail on its own: the file does not open, its first block cannot be read, a seek is refused, or one of the reads
of a range breaks off. The reader of `LocalFile`, which has a position and nothing else, is what remains of this one
when its buffer is forgotten.
-/

namespace UnyDesk

open Lib BufReader Option

/-- How the system answers while one function runs. -/
structure FileIo where
  opened : Option String
  fill : SysAnswer
  seek : Option String
  reads : List SysAnswer

/-- `LocalFile`, as far as reads go, with its reader. -/
structure BufferedFile where
  path : String
  handle : Option BufReader
  offset : ℕ
  size : ℕ
  isDir : Bool

def readerCapacity : ℕ := blockSize * 2

def errorText : ReadError → String
  | .interrupted => "interrupted"
  | .other text => text

namespace BufferedFile

/-- A file as it is listed. -/
def listed (path : String) (size : ℕ) (isDir : Bool) : BufferedFile :=
  { path, handle := none, offset := 0, size, isDir }

def loadHandle (content : Bytes) (io : FileIo) (file : BufferedFile) : Except CliprdrError BufferedFile :=
  if file.isDir = false ∧ file.handle = none then
    match io.opened with
    | some e => .error (.fileError file.path e)
    | none =>
      match BufReader.start.fillBuf content readerCapacity io.fill with
      | .error e => .error (.fileError file.path (errorText e))
      | .ok reader => .ok { file with handle := some reader }
  else .ok file

/-- What is left by `invalidate_handle`, and by a read that reaches the end of the file. -/
def closed (file : BufferedFile) : BufferedFile := { file with offset := 0, handle := none }

/-- The seek and the read of `read_exact_at`. -/
def readFrom (content : Bytes) (io : FileIo) (file : BufferedFile) (reader : BufReader) (length offset : ℕ) :
    Except String (Bytes × BufReader) :=
  if offset ≠ file.offset then
    (BufReader.seekStart io.seek offset).bind fun reader => reader.readExact content readerCapacity io.reads length
  else reader.readExact content readerCapacity io.reads length

def readExactAt (content : Bytes) (io : FileIo) (file : BufferedFile) (length offset : ℕ) :
    Except CliprdrError Bytes × BufferedFile :=
  match file.loadHandle content io with
  | .error e => (.error e, file)
  | .ok file =>
    match file.handle with
    | none => (.error (.fileError file.path "file handle not found"), file)
    | some reader =>
      match file.readFrom content io reader length offset with
      | .error e => (.error (.fileError file.path e), file.closed)
      | .ok (buf, reader) =>
        let newOffset := offset + length
        (.ok buf, if file.size ≤ newOffset then file.closed
          else { file with offset := newOffset, handle := some reader })

end BufferedFile

/-- The calls that reach a shared file. -/
inductive FileCall
  | loadHandle (io : FileIo)
  | readExactAt (io : FileIo) (length offset : ℕ)

def BufferedFile.step (content : Bytes) (file : BufferedFile) : FileCall → BufferedFile
  | .loadHandle io =>
    match file.loadHandle content io with
    | .error _ => file
    | .ok file => file
  | .readExactAt io length offset => (file.readExactAt content io length offset).2

/-- The same file for a reader without a buffer. -/
def BufferedFile.asLocal (file : BufferedFile) (base : LocalFile) : LocalFile :=
  { base with
    path := file.path, handle := file.handle.map BufReader.pos, offset := file.offset, size := file.size
    isDir := file.isDir }

/-- A file system with one content, where an open fails with the first text and a read with the second. -/
def ClipEnv.ofContent (content : Bytes) (opened read : Option String) : ClipEnv where
  content := fun _ => content
  isFile := fun _ => true
  isDir := fun _ => false
  opened := fun _ => opened
  read := fun _ => read

namespace BufferedFile

/-- An open file is read from the offset that is kept; the offset of a closed one is zero. -/
def Aligned (file : BufferedFile) (content : Bytes) : Prop :=
  match file.handle with
  | none => file.offset = 0
  | some reader => reader.At content file.offset

variable {content : Bytes} {io : FileIo} {file file' : BufferedFile} {length offset : ℕ}

theorem aligned_listed (path : String) (size : ℕ) (isDir : Bool) : (listed path size isDir).Aligned content := rfl

theorem aligned_closed (file : BufferedFile) : file.closed.Aligned content := rfl

theorem aligned_of_handle {reader : BufReader} (hhandle : file.handle = some reader) (h : file.Aligned content) :
    reader.At content file.offset := by
  rw [Aligned, hhandle] at h
  exact h

theorem Aligned.loadHandle (h : file.Aligned content) (hload : file.loadHandle content io = .ok file') :
    file'.Aligned content := by
  unfold BufferedFile.loadHandle at hload
  split at hload
  next hclosed =>
    have hoffset : file.offset = 0 := by
      rw [Aligned, hclosed.2] at h
      exact h
    split at hload
    · cases hload
    · split at hload
      next => cases hload
      next reader hfill =>
        cases hload
        show reader.At content file.offset
        rw [hoffset]
        exact at_start.fillBuf hfill
  next =>
    cases hload
    exact h

/-- With a seek or without one, a read starts at its offset. -/
theorem readFrom_spec {reader reader' : BufReader} {buf : Bytes} (h : reader.At content file.offset)
    (hread : file.readFrom content io reader length offset = .ok (buf, reader')) :
    buf <+: content.drop offset ∧ buf.length = length ∧ reader'.At content (offset + length) := by
  unfold readFrom at hread
  split at hread
  next =>
    cases hseek : seekStart io.seek offset with
    | error e =>
      rw [hseek] at hread
      cases hread
    | ok moved =>
      rw [hseek] at hread
      exact (at_seekStart hseek).readExact hread
  next hsame =>
    rw [not_not.mp hsame]
    exact h.readExact hread

theorem Aligned.readExactAt (h : file.Aligned content) (io : FileIo) (length offset : ℕ) :
    (file.readExactAt content io length offset).2.Aligned content := by
  unfold BufferedFile.readExactAt
  cases hload : file.loadHandle content io with
  | error e => exact h
  | ok opened =>
    have hopened := h.loadHandle hload
    dsimp only
    cases hhandle : opened.handle with
    | none => exact hopened
    | some reader =>
      have hat := aligned_of_handle hhandle hopened
      dsimp only
      cases hread : opened.readFrom content io reader length offset with
      | error e => exact aligned_closed opened
      | ok read =>
        dsimp only
        split
        · exact aligned_closed opened
        · exact (readFrom_spec hat hread).2.2

/-- Whatever fails, the offset that is kept is the one of the reader. -/
theorem Aligned.step (h : file.Aligned content) (call : FileCall) : (file.step content call).Aligned content := by
  cases call with
  | loadHandle io =>
    simp only [BufferedFile.step]
    split
    next => exact h
    next hload => exact h.loadHandle hload
  | readExactAt io length offset => exact h.readExactAt io length offset

section Refinement

variable (base : LocalFile)

theorem asLocal_closed : file.closed.asLocal base = (file.asLocal base).closed := rfl

/-- A file that fails to open fails for the reader without a buffer, with the same text. -/
theorem asLocal_loadHandle_error {e : CliprdrError} (h : file.loadHandle content io = .error e) :
    ∃ text, ∀ read, (file.asLocal base).loadHandle (.ofContent content (some text) read) = .error e := by
  unfold BufferedFile.loadHandle at h
  split at h
  next hclosed =>
    have hlocal : (file.asLocal base).isDir = false ∧ (file.asLocal base).handle = none :=
      ⟨hclosed.1, map_eq_none_iff.mpr hclosed.2⟩
    split at h
    next text _ =>
      cases h
      exact ⟨text, fun read => if_pos hlocal⟩
    next =>
      split at h
      next cause _ =>
        cases h
        exact ⟨errorText cause, fun read => if_pos hlocal⟩
      next => cases h
  next => cases h

theorem asLocal_loadHandle (hload : file.loadHandle content io = .ok file') (read : Option String) :
    (file.asLocal base).loadHandle (.ofContent content none read) = .ok (file'.asLocal base) := by
  unfold BufferedFile.loadHandle at hload
  split at hload
  next hclosed =>
    have hlocal : (file.asLocal base).isDir = false ∧ (file.asLocal base).handle = none :=
      ⟨hclosed.1, map_eq_none_iff.mpr hclosed.2⟩
    split at hload
    next => cases hload
    next =>
      split at hload
      next => cases hload
      next reader hfill =>
        cases hload
        have hpos : reader.pos = 0 := (at_start.fillBuf hfill).pos_eq
        rw [LocalFile.loadHandle, if_pos hlocal]
        simp only [asLocal, map_some, hpos]
        rfl
  next hopen =>
    cases hload
    have hlocal : ¬ ((file.asLocal base).isDir = false ∧ (file.asLocal base).handle = none) :=
      fun hclosed => hopen ⟨hclosed.1, map_eq_none_iff.mp hclosed.2⟩
    exact if_neg hlocal

/-- Every read through the buffer is a read of the file without one: it fails with the same error or gives the same
bytes, and leaves the same position. -/
theorem asLocal_readExactAt (h : file.Aligned content) (io : FileIo) (length offset : ℕ) :
    ∃ opened read, (file.asLocal base).readExactAt (.ofContent content opened read) length offset =
      ((file.readExactAt content io length offset).1, (file.readExactAt content io length offset).2.asLocal base) := by
  unfold BufferedFile.readExactAt LocalFile.readExactAt
  cases hload : file.loadHandle content io with
  | error e =>
    obtain ⟨text, hlocal⟩ := asLocal_loadHandle_error base hload
    exact ⟨some text, none, by rw [hlocal]⟩
  | ok opened =>
    have hopened := h.loadHandle hload
    have hlocal := asLocal_loadHandle base hload
    cases hhandle : opened.handle with
    | none =>
      have hnone : (opened.asLocal base).handle = none := map_eq_none_iff.mpr hhandle
      refine ⟨none, none, ?_⟩
      rw [hlocal]
      simp only [hnone, hhandle]
      rfl
    | some reader =>
      have hat := aligned_of_handle hhandle hopened
      have hsome : (opened.asLocal base).handle = some opened.offset := by
        show opened.handle.map pos = _
        rw [hhandle, map_some, hat.pos_eq]
      have hstart : (if offset ≠ (opened.asLocal base).offset then offset else opened.offset) = offset := by
        split
        next => rfl
        next hsame => exact (not_not.mp hsame).symm
      cases hread : opened.readFrom content io reader length offset with
      | error e =>
        refine ⟨none, some e, ?_⟩
        rw [hlocal]
        simp only [hsome, hhandle, hread]
        rfl
      | ok result =>
        obtain ⟨buf, reader'⟩ := result
        obtain ⟨hbytes, hlength, hend⟩ := readFrom_spec hat hread
        have hbuf : buf = (content.drop offset).take length := hlength ▸ List.prefix_iff_eq_take.mp hbytes
        have hfits : length = 0 ∨ offset + length ≤ content.length := by
          have hle := hbytes.length_le
          rw [List.length_drop] at hle
          omega
        have hexact :
            (ClipEnv.ofContent content none none).readExact (opened.asLocal base).path offset length = .ok buf := by
          rw [hbuf]
          exact if_pos hfits
        refine ⟨none, none, ?_⟩
        rw [hlocal]
        simp only [hsome, hhandle, hread, hstart, hexact]
        split
        next hsize => rw [if_pos (show opened.size ≤ offset + length from hsize), asLocal_closed]
        next hsize =>
          rw [if_neg (show ¬ opened.size ≤ offset + length from hsize)]
          simp only [asLocal, map_some, hend.pos_eq]

theorem tracked_asLocal (h : file.Aligned content) : (file.asLocal base).Tracked := by
  unfold LocalFile.Tracked asLocal
  dsimp only
  cases hhandle : file.handle with
  | none =>
    rw [Aligned, hhandle] at h
    exact h
  | some reader => exact (aligned_of_handle hhandle h).pos_eq.symm

end Refinement

/-- What reads do not look at. -/
def unread : LocalFile where
  relativeRoot := ""
  path := ""
  handle := none
  offset := 0
  size := 0
  lastWriteTime := 0
  isDir := false
  perm := 0
  readOnly := false
  hidden := false
  system := false
  archive := false
  normal := false

/-- A file that is not changed, after any calls that opened it, read it or failed on the way: it is closed only with
the offset zero, and the next read that succeeds has filled its buffer from its own offset. -/
theorem readExactAt_positional (content : Bytes) (path : String) (size : ℕ) (isDir : Bool) (calls : List FileCall) :
    ((runEvents (step content) (listed path size isDir) calls).handle = none →
      (runEvents (step content) (listed path size isDir) calls).offset = 0) ∧
    ∀ io length offset buf,
      ((runEvents (step content) (listed path size isDir) calls).readExactAt content io length offset).1 = .ok buf →
        buf = (content.drop offset).take length ∧ buf.length = length := by
  have haligned : (runEvents (step content) (listed path size isDir) calls).Aligned content :=
    runEvents_invariant_of_step (I := fun file : BufferedFile => file.Aligned content) (fun _ call hs => hs.step call)
      (aligned_listed path size isDir) calls
  generalize runEvents (step content) (listed path size isDir) calls = file at haligned
  constructor
  · intro hnone
    rw [Aligned, hnone] at haligned
    exact haligned
  · intro io length offset buf hread
    obtain ⟨opened, read, hlocal⟩ := asLocal_readExactAt unread haligned io length offset
    have hplain : ((file.asLocal unread).readExactAt (.ofContent content opened read) length offset).1 = .ok buf := by
      rw [hlocal]
      exact hread
    exact (tracked_asLocal unread haligned).of_readExactAt hplain

end BufferedFile

end UnyDesk
