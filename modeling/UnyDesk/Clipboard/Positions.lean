import UnyDesk.Clipboard.PasteTask
import UnyDesk.Lib.Machine

/-!
# Offsets of requested ranges

A requester sends an offset as two words of 32 bits. The serving side reads both with their signs, so an
offset whose low word has its top bit set is taken for one near the end of 64 bits, and refused.
-/

namespace UnyDesk

open Lib ClipFiles Words List Option Except BitVec
open BitVec (ofNat ofInt)

/-- `FuseNode`, as far as `read_node` reads it. -/
structure FuseNode where
  connId : Int
  index : ℕ

open FuseNode

/-- The request that `read_node` sends for a range of an `i64` offset and a `u32` size. -/
def FuseNode.readRequest (node : FuseNode) (requestStreamId : BitVec 32) (offset : BitVec 64) (size : BitVec 32) :
    ClipboardFile :=
  let nPositionHigh := (offset.sshiftRight 32).setWidth 32
  let nPositionLow := (offset &&& (BitVec.allOnes 32).setWidth 64).setWidth 32
  .fileContentsRequest requestStreamId (ofNat 32 node.index) 2 nPositionLow nPositionHigh size false 0

/-- The request that the serving side makes of a message. -/
def ClipboardFile.request : ClipboardFile → Option FileContentsRequest
  | .fileContentsRequest streamId listIndex dwFlags nPositionLow nPositionHigh cbRequested _ _ =>
    ClipFiles.fileContentsRequest streamId listIndex dwFlags nPositionLow nPositionHigh cbRequested
  | _ => none

/-- What the serving side does with a message. -/
def ClipFiles.answer (env : ClipEnv) (s : ClipFiles) (connId : Int) : ClipboardFile → Served × ClipFiles
  | .fileContentsRequest streamId listIndex dwFlags nPositionLow nPositionHigh cbRequested _ _ =>
    s.readFileContents env connId streamId listIndex dwFlags nPositionLow nPositionHigh cbRequested
  | _ => (.answered [], s)

/-- A message that the serving side gets, and the file system at that time. -/
structure ClipMessage where
  env : ClipEnv
  connId : Int
  message : ClipboardFile

def ClipFiles.step (s : ClipFiles) (m : ClipMessage) : ClipFiles := (s.answer m.env m.connId m.message).2

/-- The bytes come back, behind what is reported for an audit. -/
def Served.Returns (served : Served) (streamId : BitVec 32) (data : Bytes) : Prop :=
  ∃ audit, served = .answered (audit ++ [.ok (.fileContentsResponse 1 streamId data)])

/-- The files can be opened and read. -/
def ClipEnv.Readable (env : ClipEnv) : Prop := ∀ path, env.opened path = none ∧ env.read path = none

namespace LocalFile

/-- The position that is remembered is that of the reader. -/
def Tracked (file : LocalFile) : Prop := file.offset = file.handle.getD 0

variable {env : ClipEnv} {file file' : LocalFile}

theorem tracked_closed (file : LocalFile) : file.closed.Tracked := rfl

theorem Tracked.loadHandle (h : file.Tracked) (hload : file.loadHandle env = .ok file') : file'.Tracked := by
  unfold LocalFile.loadHandle at hload
  split at hload
  next hnone =>
    split at hload
    next => simp at hload
    next =>
      obtain rfl := ok.inj hload
      rw [Tracked, hnone.2] at h
      exact h
  next => exact ok.inj hload ▸ h

theorem Tracked.readExactAt (h : file.Tracked) (env : ClipEnv) (length offset : ℕ) :
    (file.readExactAt env length offset).2.Tracked := by
  unfold LocalFile.readExactAt
  cases hload : file.loadHandle env with
  | error e => exact h
  | ok opened =>
    have hopened : opened.Tracked := h.loadHandle hload
    dsimp only
    cases hhandle : opened.handle with
    | none => exact hopened
    | some pos =>
      have hpos : opened.offset = pos := by
        rw [Tracked, hhandle] at hopened
        exact hopened
      dsimp only
      cases env.readExact opened.path (if offset ≠ opened.offset then offset else pos) length with
      | error e => exact tracked_closed opened
      | ok buf =>
        dsimp only
        split
        next => exact tracked_closed opened
        next =>
          -- The reader goes on from the offset, with a seek or without one.
          have hstart : (if offset ≠ opened.offset then offset else pos) = offset := by
            split
            next => rfl
            next hsame => exact hpos.symm.trans (not_not.mp hsame).symm
          rw [Tracked, hstart]
          rfl

/-- A range within the file is what is read, wherever the reader stands. -/
theorem Tracked.readExactAt_eq (h : file.Tracked) (henv : env.Readable) (hdir : file.isDir = false) {length offset : ℕ}
    (hrange : offset + length ≤ (env.content file.path).length) :
    (file.readExactAt env length offset).1 = .ok (((env.content file.path).drop offset).take length) := by
  obtain ⟨opened, pos, hload, hhandle, hpath, htracked⟩ : ∃ opened pos, file.loadHandle env = .ok opened ∧
      opened.handle = some pos ∧ opened.path = file.path ∧ opened.offset = pos := by
    unfold LocalFile.loadHandle
    rw [Tracked] at h
    cases hhandle : file.handle with
    | none =>
      rw [hhandle] at h
      exact ⟨{ file with handle := some 0 }, 0, by simp [hdir, (henv file.path).1], rfl, rfl, h⟩
    | some pos =>
      rw [hhandle] at h
      exact ⟨file, pos, by simp, hhandle, rfl, h⟩
  have hstart : (if offset ≠ opened.offset then offset else pos) = offset := by
    split
    next => rfl
    next hsame => exact htracked.symm.trans (not_not.mp hsame).symm
  have hread : env.readExact opened.path offset length = .ok (((env.content file.path).drop offset).take length) := by
    rw [ClipEnv.readExact, hpath, (henv file.path).2]
    exact if_pos (Or.inr hrange)
  simp only [LocalFile.readExactAt, hload, hhandle, hstart, hread]

end LocalFile

namespace ClipFiles

/-- All readers stand where the list says. -/
def Tracked (s : ClipFiles) : Prop := ∀ file ∈ s.fileList, file.Tracked

variable {env : ClipEnv} {s : ClipFiles}

theorem tracked_loadNext {files later : List LocalFile} (h : ∀ file ∈ files, file.Tracked)
    (hload : loadNext env files = .ok later) : ∀ file ∈ later, file.Tracked := by
  induction files generalizing later with
  | nil =>
    obtain rfl := Except.ok.inj hload
    exact h
  | cons first files ih =>
    have hrest : ∀ file ∈ files, file.Tracked := fun file hfile => h file (mem_cons_of_mem _ hfile)
    rw [loadNext] at hload
    split at hload
    next =>
      cases hnext : loadNext env files with
      | error e => simp [hnext, Except.map] at hload
      | ok others =>
        rw [hnext] at hload
        obtain rfl := Except.ok.inj hload
        intro file hfile
        rcases mem_cons.mp hfile with rfl | hfile
        · exact h file mem_cons_self
        · exact ih hrest hnext file hfile
    next =>
      cases hopen : first.loadHandle env with
      | error e => simp [hopen, Except.map] at hload
      | ok opened =>
        rw [hopen] at hload
        obtain rfl := Except.ok.inj hload
        intro file hfile
        rcases mem_cons.mp hfile with rfl | hfile
        · exact (h first mem_cons_self).loadHandle hopen
        · exact hrest file hfile

section

variable (h : s.Tracked)
include h

theorem Tracked.reply (env : ClipEnv) (fileIdx : ℕ) (response : ClipboardFile) :
    (s.reply env fileIdx response).2.Tracked := by
  unfold ClipFiles.reply
  cases hload : loadNext env (s.fileList.drop (fileIdx + 1)) with
  | error e => exact h
  | ok later =>
    intro file hfile
    rcases mem_append.mp hfile with hfile | hfile
    · exact h file (mem_of_mem_take hfile)
    · exact tracked_loadNext (fun file hfile => h file (mem_of_mem_drop hfile)) hload file hfile

theorem Tracked.set (i : ℕ) {file : LocalFile} (hfile : file.Tracked) :
    ({ s with fileList := s.fileList.set i file } : ClipFiles).Tracked := by
  intro other hother
  rcases mem_or_eq_of_mem_set hother with hother | rfl
  · exact h other hother
  · exact hfile

theorem Tracked.serveFileContents (env : ClipEnv) (connId : Int) (request : FileContentsRequest) :
    (s.serveFileContents env connId request).2.Tracked := by
  cases request with
  | size streamId fileIdx =>
    simp only [ClipFiles.serveFileContents]
    split
    next => exact h
    next => exact h.reply env fileIdx _
  | range streamId fileIdx offset length =>
    simp only [ClipFiles.serveFileContents]
    split
    next => exact h
    next file hfile =>
      have hread := (h file (mem_of_getElem? hfile)).readExactAt env
      by_cases hbehind : file.size < offset
      · rw [if_pos hbehind]
        exact h
      · rw [if_neg hbehind]
        generalize (if file.size < (offset + length) % 2 ^ 64 then file.size - offset else length) = readSize
        by_cases hmax : isizeMax < readSize
        · rw [if_pos hmax]
          exact h
        · rw [if_neg hmax]
          have hfile' := hread readSize offset
          rcases hresult : file.readExactAt env readSize offset with ⟨e | buf, file'⟩
          · rw [hresult] at hfile'
            exact h.set fileIdx hfile'
          · rw [hresult] at hfile'
            exact (h.set fileIdx hfile').reply env fileIdx _

theorem Tracked.step (m : ClipMessage) : (s.step m).Tracked := by
  unfold ClipFiles.step ClipFiles.answer
  split
  next streamId listIndex dwFlags nPositionLow nPositionHigh cbRequested _ _ _ =>
    unfold ClipFiles.readFileContents
    split
    next => exact h
    next fcr hfcr =>
      have hserved := h.serveFileContents m.env m.connId fcr
      rcases hresult : s.serveFileContents m.env m.connId fcr with ⟨_ | result, s'⟩
      · rw [hresult] at hserved
        exact hserved
      · rw [hresult] at hserved
        exact hserved
  next => exact h

end

/-- The files of a copy are closed. -/
theorem tracked_syncFiles (env : ClipEnv) {files : List LocalFile}
    (h : ∀ file ∈ files, ∃ root path metadata, LocalFile.tryOpen root path metadata = .ok file) :
    (syncFiles env files).Tracked := by
  intro file hfile
  obtain ⟨root, path, metadata, hopen⟩ := h file hfile
  unfold LocalFile.tryOpen at hopen
  split at hopen
  next => simp at hopen
  next => exact ok.inj hopen ▸ rfl

theorem loadNext_ok (henv : env.Readable) (files : List LocalFile) : ∃ later, loadNext env files = .ok later := by
  induction files with
  | nil => exact ⟨[], rfl⟩
  | cons file files ih =>
    obtain ⟨later, hlater⟩ := ih
    rw [loadNext]
    split
    next => exact ⟨file :: later, by rw [hlater]; rfl⟩
    next =>
      obtain ⟨opened, hopened⟩ : ∃ opened, file.loadHandle env = .ok opened := by
        unfold LocalFile.loadHandle
        rw [(henv file.path).1]
        split
        next => exact ⟨_, rfl⟩
        next => exact ⟨_, rfl⟩
      exact ⟨opened :: files, by rw [hopened]; rfl⟩

/-- The range that a request comes to. -/
theorem serveFileContents_range (h : s.Tracked) (henv : env.Readable) {fileIdx : ℕ} {file : LocalFile}
    (hfile : s.fileList[fileIdx]? = some file) (hdir : file.isDir = false)
    (hcontent : (env.content file.path).length = file.size) {offset length readSize : ℕ} (hoffset : offset ≤ file.size)
    (hread : (if file.size < (offset + length) % 2 ^ 64 then file.size - offset else length) = readSize)
    (hmax : readSize ≤ isizeMax) (hfits : offset + readSize ≤ file.size) (connId : Int) (streamId : BitVec 32) :
    (s.serveFileContents env connId (.range streamId fileIdx offset length)).1 =
      some (.ok (.fileContentsResponse 1 streamId (((env.content file.path).drop offset).take readSize))) := by
  have htracked : file.Tracked := h file (mem_of_getElem? hfile)
  have hbuf := htracked.readExactAt_eq henv hdir (hcontent ▸ hfits)
  simp only [serveFileContents, hfile, if_neg (Nat.not_lt.mpr hoffset), hread, if_neg (Nat.not_lt.mpr hmax)]
  rcases hresult : file.readExactAt env readSize offset with ⟨e | buf, file'⟩
  · simp [hresult] at hbuf
  · rw [hresult] at hbuf
    obtain rfl := ok.inj hbuf
    obtain ⟨later, hlater⟩ := loadNext_ok henv (({ s with fileList := s.fileList.set fileIdx file' } : ClipFiles).fileList.drop
      (fileIdx + 1))
    simp only [reply, hlater]

/-- The bytes come back exactly if the request is served with them. -/
theorem returns_iff {streamId listIndex nPositionLow nPositionHigh cbRequested : BitVec 32} (haveClipDataId : Bool)
    (clipDataId : BitVec 32) (connId : Int) {fcr : FileContentsRequest}
    (hfcr : fileContentsRequest streamId listIndex 2 nPositionLow nPositionHigh cbRequested = some fcr) (data : Bytes) :
    (s.answer env connId (.fileContentsRequest streamId listIndex 2 nPositionLow nPositionHigh cbRequested haveClipDataId
        clipDataId)).1.Returns streamId data ↔
      (s.serveFileContents env connId fcr).1 = some (.ok (.fileContentsResponse 1 streamId data)) := by
  simp only [answer, readFileContents, hfcr]
  rcases s.serveFileContents env connId fcr with ⟨_ | result, s'⟩
  · simp [Served.Returns]
  · constructor
    · rintro ⟨audit, haudit⟩
      have hlast := (append_inj' (Served.answered.inj haudit) rfl).2
      exact congrArg some (cons.inj hlast).1
    · intro hresult
      exact ⟨_, by rw [some.inj hresult]⟩

end ClipFiles

/-- The value of an `i32` as a `u64`. -/
theorem i32ToU64_eq (n : BitVec 32) : i32ToU64 n = if n.toNat < 2 ^ 31 then n.toNat else 2 ^ 64 - 2 ^ 32 + n.toNat := by
  have hn := n.isLt
  rw [i32ToU64, toNat_signExtend, msb_eq_decide, toNat_setWidth]
  by_cases hsmall : n.toNat < 2 ^ 31
  · rw [if_pos hsmall, if_neg (by simpa using hsmall)]
    omega
  · rw [if_neg hsmall, if_pos (by simpa using hsmall)]
    omega

/-- The offset and the length of a request are read as they were meant. -/
def Arrives (offset length size : ℕ) : Prop :=
  offset % 2 ^ 32 < 2 ^ 31 ∧ (length < 2 ^ 31 ∨ offset + length < 2 ^ 32 ∧ size ≤ offset + length)

section Range

variable {env : ClipEnv} {s : ClipFiles}

/-- A requested range comes back exactly if its offset and its length arrive. -/
theorem range_returned_iff (h : s.Tracked) (henv : env.Readable) {listIndex : BitVec 32} {file : LocalFile}
    (hfile : s.fileList[i32ToU64 listIndex]? = some file) (hdir : file.isDir = false)
    (hcontent : (env.content file.path).length = file.size) (hsize : file.size < 2 ^ 63) {offset : BitVec 64}
    (hoffset : offset.toNat < file.size) (connId : Int) (streamId cb : BitVec 32) (b : Bool) (c : BitVec 32) :
    let message := ClipboardFile.fileContentsRequest streamId listIndex 2 (low 32 offset) (high 32 offset) cb b c
    ((∃ fileIdx length, message.request = some (.range streamId fileIdx offset.toNat length)) ∧
        (s.answer env connId message).1.Returns streamId (((env.content file.path).drop offset.toNat).take
          (min (offset.toNat + cb.toNat) file.size - offset.toNat))) ↔
      Arrives offset.toNat cb.toNat file.size := by
  intro message
  have hcb := cb.isLt
  have hrequest : message.request = some (.range streamId (i32ToU64 listIndex)
      (joinSigned 64 (high 32 offset) (low 32 offset)).toNat (i32ToU64 cb)) := rfl
  have hreturns : ∀ data, (s.answer env connId message).1.Returns streamId data ↔ _ :=
    fun data => returns_iff b c connId hrequest data
  by_cases hlow : offset.toNat % 2 ^ 32 < 2 ^ 31
  · have hjoin : joinSigned 64 (high 32 offset) (low 32 offset) = offset :=
      (joinSigned_eq_iff rfl (by decide) (Nat.lt_trans hoffset hsize)).mpr hlow
    rw [hjoin] at hrequest hreturns
    have hserve := fun readSize hread hmax hfits => @serveFileContents_range env s h henv _ file hfile hdir
      hcontent offset.toNat (i32ToU64 cb) readSize (Nat.le_of_lt hoffset) hread hmax hfits connId streamId
    have hlength := i32ToU64_eq cb
    rw [hreturns, and_iff_right ⟨_, _, hrequest⟩, Arrives, and_iff_right hlow]
    by_cases hsmall : cb.toNat < 2 ^ 31
    · refine iff_of_true ?_ (.inl hsmall)
      rw [if_pos hsmall] at hlength
      rw [hlength] at hserve ⊢
      refine hserve _ ?_ ?_ ?_
      · split <;> omega
      · unfold isizeMax
        omega
      · omega
    · rw [if_neg hsmall] at hlength
      rw [hlength] at hserve ⊢
      by_cases hwrap : offset.toNat + cb.toNat < 2 ^ 32
      · have hmax : file.size - offset.toNat ≤ isizeMax := by
          unfold isizeMax
          omega
        rw [hserve (file.size - offset.toNat) (if_pos (by omega)) hmax (by omega)]
        constructor
        · intro heq
          have hlength := congrArg length (ClipboardFile.fileContentsResponse.inj (ok.inj (some.inj heq))).2.2
          simp only [length_take, length_drop, hcontent] at hlength
          exact .inr ⟨hwrap, by omega⟩
        · rintro (hcontra | ⟨-, hle⟩)
          · exact absurd hcontra hsmall
          · rw [Nat.min_eq_right hle]
      · refine iff_of_false (fun heq => ?_) (by omega)
        have hbehind : ¬ file.size < offset.toNat := by omega
        have hnot : ¬ file.size < (offset.toNat + (2 ^ 64 - 2 ^ 32 + cb.toNat)) % 2 ^ 64 := by omega
        have hmax : isizeMax < 2 ^ 64 - 2 ^ 32 + cb.toNat := by
          unfold isizeMax
          omega
        simp only [serveFileContents, hfile, if_neg hbehind, if_neg hnot, if_pos hmax] at heq
        exact some_ne_none _ heq.symm
  · refine iff_of_false (fun ⟨⟨fileIdx, length, hsame⟩, _⟩ => ?_) fun harrives => hlow harrives.1
    rw [hrequest] at hsame
    have hjoin := (FileContentsRequest.range.inj (some.inj hsame)).2.2.1
    exact hlow ((joinSigned_eq_iff rfl (by decide) (Nat.lt_trans hoffset hsize)).mp (eq_of_toNat_eq hjoin))

/-- Both requesters cut the offset in the same way. -/
theorem readRequest_eq (node : FuseNode) (streamId : BitVec 32) (offset : BitVec 64) (size : BitVec 32) :
    node.readRequest streamId offset size = .fileContentsRequest streamId (ofNat 32 node.index) 2
      (low 32 offset) (high 32 offset) size false 0 := by
  simp only [readRequest, high_eq_sshiftRight rfl, low_eq_and (show 32 ≤ 64 by decide)]

theorem sendFileContentsRequest_eq {h : PasteTaskHandle} {desc : FileDescription} (hgoing : h.isFinished = false)
    (hcurrent : h.currentFile = some desc) (hsize : desc.size < 2 ^ 64) (hoffset : h.progress.offset < desc.size) :
    h.sendFileContentsRequest = .ok (some (desc.connId, .fileContentsRequest (ofInt 32 h.progress.listIndex)
      (ofInt 32 h.progress.listIndex) 2 (low 32 (ofNat 64 h.progress.offset))
      (high 32 (ofNat 64 h.progress.offset))
      (ofNat 32 (min blockSize (desc.size - h.progress.offset))) false 0)) := by
  have hdifference : (2 ^ 64 + desc.size - h.progress.offset) % 2 ^ 64 = desc.size - h.progress.offset := by omega
  have hlow := low_eq_and (show 32 ≤ 64 by decide) (ofNat 64 h.progress.offset)
  simp only [PasteTaskHandle.sendFileContentsRequest, hgoing, Bool.false_eq_true, if_false, hcurrent, hdifference,
    PasteTaskHandle.positions, hlow]
  rfl

end Range

/-- Whatever was asked for before: a range that a FUSE node or a paste task asks for is read at its offset and
comes back exactly if the low word of the offset, and for a FUSE node the length, has a clear top bit. For a
longer length the range must be the rest of the file. -/
theorem requested_range_returned_iff (env₀ : ClipEnv) {fileList : List LocalFile}
    (hopened : ∀ file ∈ fileList, ∃ root path metadata, LocalFile.tryOpen root path metadata = .ok file)
    (history : List ClipMessage) {env : ClipEnv} (henv : env.Readable) (connId : Int) {listIndex : BitVec 32}
    {file : LocalFile}
    (hfile : (runEvents ClipFiles.step (.syncFiles env₀ fileList) history).fileList[i32ToU64 listIndex]? = some file)
    (hdir : file.isDir = false) (hcontent : (env.content file.path).length = file.size) (hsize : file.size < 2 ^ 63)
    {offset : ℕ} (hoffset : offset < file.size) :
    let s := runEvents ClipFiles.step (.syncFiles env₀ fileList) history
    (∀ (node : FuseNode) (streamId size : BitVec 32), ofNat 32 node.index = listIndex →
      let message := node.readRequest streamId (ofNat 64 offset) size
      ((∃ fileIdx length, message.request = some (.range streamId fileIdx offset length)) ∧
          (s.answer env connId message).1.Returns streamId
            (((env.content file.path).drop offset).take (min (offset + size.toNat) file.size - offset))) ↔
        Arrives offset size.toNat file.size) ∧
      ∀ (h : PasteTaskHandle) (desc : FileDescription), h.isFinished = false → h.currentFile = some desc →
        desc.size = file.size → h.progress.offset = offset → ofInt 32 h.progress.listIndex = listIndex →
        ∃ message, h.sendFileContentsRequest = .ok (some (desc.connId, message)) ∧
          (((∃ fileIdx length, message.request = some (.range listIndex fileIdx offset length)) ∧
              (s.answer env connId message).1.Returns listIndex
                (((env.content file.path).drop offset).take (min (offset + blockSize) file.size - offset))) ↔
            offset % 2 ^ 32 < 2 ^ 31) := by
  intro s
  have htracked : s.Tracked := runEvents_invariant_of_step (I := ClipFiles.Tracked) (fun _ m hs => hs.step m)
    (ClipFiles.tracked_syncFiles env₀ hopened) history
  have htoNat : (ofNat 64 offset).toNat = offset := by
    rw [BitVec.toNat_ofNat]
    omega
  have hrange := fun streamId cb b c => range_returned_iff htracked henv hfile hdir hcontent hsize
    (show (ofNat 64 offset).toNat < file.size from htoNat.symm ▸ hoffset) connId streamId cb b c
  rw [htoNat] at hrange
  refine ⟨fun node streamId size hindex => ?_, fun h desc hgoing hcurrent hdesc hprogress hindex => ?_⟩
  · intro message
    have hmessage : message = _ := readRequest_eq node streamId (ofNat 64 offset) size
    rw [hmessage, hindex]
    exact hrange streamId size false 0
  · have hsend := sendFileContentsRequest_eq hgoing hcurrent (by omega) (by omega)
    refine ⟨_, hsend, ?_⟩
    have hlt : min blockSize (file.size - offset) < 2 ^ 31 := Nat.lt_of_le_of_lt (Nat.min_le_left _ _) (by decide)
    have hblock : (ofNat 32 (min blockSize (desc.size - h.progress.offset))).toNat =
        min blockSize (file.size - offset) := by
      rw [hdesc, hprogress, BitVec.toNat_ofNat]
      exact Nat.mod_eq_of_lt (Nat.lt_trans hlt (by decide))
    have hdata : ∀ block, min (offset + min block (file.size - offset)) file.size - offset =
        min (offset + block) file.size - offset := fun block => by omega
    have hiff := hrange listIndex (ofNat 32 (min blockSize (desc.size - h.progress.offset))) false 0
    rw [hblock, hdata] at hiff
    rw [hindex, hprogress]
    rw [hprogress] at hiff
    exact hiff.trans ⟨fun harrives => harrives.1, fun hlow => ⟨hlow, .inl hlt⟩⟩

/-- A file of three bytes. -/
def smallFile : LocalFile :=
  { relativeRoot := "/home/a", path := "/home/a/x", handle := none, offset := 0, size := 3, lastWriteTime := 0
    isDir := false, perm := 0o644, readOnly := false, hidden := false, system := false, archive := false
    normal := true }

def smallFileEnv : ClipEnv :=
  { content := fun _ => [1, 2, 3], isFile := fun _ => true, isDir := fun _ => false, opened := fun _ => none
    read := fun _ => none }

theorem requested_range_returned_smallFile : ((ClipFiles.syncFiles smallFileEnv [smallFile]).answer smallFileEnv 1
      ((FuseNode.mk 1 0).readRequest 7 (ofNat 64 1) 4096)).1.Returns 7 [2, 3] := by
  have hopened : ∀ file ∈ [smallFile], ∃ root path metadata, LocalFile.tryOpen root path metadata = .ok file := by
    intro file hfile
    obtain rfl := List.mem_singleton.mp hfile
    exact ⟨"/home/a", "/home/a/x", .ok ⟨3, false, false, some 0, 0o644⟩, by decide⟩
  have henv : smallFileEnv.Readable := fun _ => ⟨rfl, rfl⟩
  have hrange := requested_range_returned_iff smallFileEnv hopened [] henv 1
    (show (ClipFiles.syncFiles smallFileEnv [smallFile]).fileList[i32ToU64 0]? = some smallFile by decide) rfl rfl
    (by decide) (show 1 < smallFile.size by decide)
  exact ((hrange.1 ⟨1, 0⟩ 7 4096 rfl).mpr ⟨by decide, .inl (by decide)⟩).2

/-- A file of three gibibytes. -/
def largeFile : LocalFile := { smallFile with size := 3 * 2 ^ 30 }

def largeFileEnv : ClipEnv := { smallFileEnv with content := fun _ => List.replicate (3 * 2 ^ 30) 0 }

/-- The block at two gibibytes is asked for, and refused. -/
theorem range_at_two_gib_refused : ((FuseNode.mk 1 0).readRequest 7 (ofNat 64 (2 ^ 31)) 4096).request =
        some (.range 7 0 (2 ^ 64 - 2 ^ 31) 4096) ∧
      ((ClipFiles.syncFiles largeFileEnv [largeFile]).answer largeFileEnv 1
        ((FuseNode.mk 1 0).readRequest 7 (ofNat 64 (2 ^ 31)) 4096)).1 =
        .answered [.error (.invalidRequest "invalid reading offset requested from conn: 1")] :=
  ⟨by decide, rfl⟩

end UnyDesk
