import UnyDesk.Clipboard.Positions

/-!
# Serving requests of any peer

Every field of a request is a word that the peer chooses, and is read with its sign. A negative length becomes one
near the end of 64 bits: behind an offset that is large enough the sum of the two starts again at zero, and the
buffer is asked for with the length as it is. In all other requests the buffer ends with the file.
-/

namespace UnyDesk

open Lib ClipFiles LocalFile List Except

/-- The length of the buffer for a range. -/
def LocalFile.rangeBuffer (file : LocalFile) (offset length : ℕ) : ℕ :=
  if file.size < (offset + length) % 2 ^ 64 then file.size - offset else length

namespace ClipFiles

/-- The response holds what was asked for: the size of the file, or bytes of it between the offset and its size. -/
def Holds (env : ClipEnv) (s : ClipFiles) : FileContentsRequest → ClipboardFile → Prop
  | .size streamId fileIdx, response =>
    ∃ file, s.fileList[fileIdx]? = some file ∧
      response = .fileContentsResponse 1 streamId (LittleEndian.put 8 file.size)
  | .range streamId fileIdx offset _, response =>
    ∃ file data, s.fileList[fileIdx]? = some file ∧ offset + data.length ≤ file.size ∧
      data = ((env.content file.path).drop offset).take data.length ∧
      response = .fileContentsResponse 1 streamId data

/-- A request is served without a sum that overflows or a buffer that reaches behind the file, and it comes to an
error or to what was asked for. -/
structure ServesSafely (s : ClipFiles) (env : ClipEnv) (connId : Int)
    (streamId listIndex dwFlags nPositionLow nPositionHigh cbRequested : BitVec 32) : Prop where
  range : ∀ {id fileIdx offset length file},
    fileContentsRequest streamId listIndex dwFlags nPositionLow nPositionHigh cbRequested =
      some (.range id fileIdx offset length) →
    s.fileList[fileIdx]? = some file → offset ≤ file.size →
      offset + length < 2 ^ 64 ∧ file.rangeBuffer offset length ≤ file.size - offset
  answered : ∃ audit result,
    (s.readFileContents env connId streamId listIndex dwFlags nPositionLow nPositionHigh cbRequested).1 =
      .answered (audit ++ [result]) ∧
    ∀ response, result = .ok response → ∃ fcr,
      fileContentsRequest streamId listIndex dwFlags nPositionLow nPositionHigh cbRequested = some fcr ∧
        s.Holds env fcr response

/-- A range of a listed file from an offset in it, of a negative length that does not reach back behind its start. -/
def Wraps (fileList : List LocalFile) (listIndex dwFlags nPositionLow nPositionHigh cbRequested : BitVec 32) : Prop :=
  ∃ file, fileList[i32ToU64 listIndex]? = some file ∧ dwFlags = 2 ∧
    (Words.joinSigned 64 nPositionHigh nPositionLow).toNat ≤ file.size ∧ cbRequested.toInt < 0 ∧
    0 ≤ ((Words.joinSigned 64 nPositionHigh nPositionLow).toNat : Int) + cbRequested.toInt

end ClipFiles

section Reading

variable {env : ClipEnv} {file file' : LocalFile}

theorem LocalFile.closed_loadHandle (hload : file.loadHandle env = .ok file') : file'.closed = file.closed := by
  unfold loadHandle at hload
  split at hload
  · split at hload
    · exact nomatch hload
    · rw [← ok.inj hload]
      rfl
  · rw [← ok.inj hload]

theorem LocalFile.closed_readExactAt (env : ClipEnv) (file : LocalFile) (length offset : ℕ) :
    (file.readExactAt env length offset).2.closed = file.closed := by
  unfold readExactAt
  cases hload : file.loadHandle env with
  | error e => rfl
  | ok opened =>
    rw [← closed_loadHandle hload]
    dsimp only
    cases opened.handle with
    | none => rfl
    | some pos =>
      dsimp only
      cases env.readExact opened.path (if offset ≠ opened.offset then offset else pos) length with
      | error e => rfl
      | ok buf =>
        dsimp only
        split <;> rfl

/-- What is read are the bytes behind the offset, wherever the reader stood. -/
theorem LocalFile.Tracked.of_readExactAt (h : file.Tracked) {length offset : ℕ} {buf : Bytes}
    (hread : (file.readExactAt env length offset).1 = .ok buf) :
    buf = ((env.content file.path).drop offset).take length ∧ buf.length = length := by
  unfold LocalFile.readExactAt at hread
  cases hload : file.loadHandle env with
  | error e =>
    rw [hload] at hread
    cases hread
  | ok opened =>
    have hopened : opened.Tracked := h.loadHandle hload
    have hpath : opened.path = file.path := (congrArg LocalFile.path (LocalFile.closed_loadHandle hload) :)
    rw [hload] at hread
    dsimp only at hread
    cases hhandle : opened.handle with
    | none =>
      rw [hhandle] at hread
      cases hread
    | some pos =>
      have hpos : opened.offset = pos := by
        rw [LocalFile.Tracked, hhandle] at hopened
        exact hopened
      have hstart : (if offset ≠ opened.offset then offset else pos) = offset := by
        split
        next => rfl
        next hsame => exact hpos.symm.trans (not_not.mp hsame).symm
      rw [hhandle] at hread
      dsimp only at hread
      rw [hstart, hpath, ClipEnv.readExact] at hread
      cases hfails : env.read file.path with
      | some e =>
        rw [hfails] at hread
        cases hread
      | none =>
        rw [hfails] at hread
        dsimp only at hread
        by_cases hlong : length = 0 ∨ offset + length ≤ (env.content file.path).length
        · rw [if_pos hlong] at hread
          obtain rfl := ok.inj hread
          refine ⟨rfl, ?_⟩
          rw [length_take, length_drop]
          omega
        · rw [if_neg hlong] at hread
          cases hread

end Reading

namespace ClipFiles

variable {env : ClipEnv} {s : ClipFiles} {file : LocalFile}

theorem closed_loadNext {files later : List LocalFile} (hload : loadNext env files = .ok later) :
    later.map closed = files.map closed := by
  induction files generalizing later with
  | nil => rw [← ok.inj hload]
  | cons first files ih =>
    rw [loadNext] at hload
    split at hload
    next =>
      cases hnext : loadNext env files with
      | error e =>
        rw [hnext] at hload
        cases hload
      | ok others =>
        rw [hnext] at hload
        rw [← ok.inj hload, map_cons, map_cons, ih hnext]
    next =>
      cases hopen : first.loadHandle env with
      | error e =>
        rw [hopen] at hload
        cases hload
      | ok opened =>
        rw [hopen] at hload
        rw [← ok.inj hload, map_cons, map_cons, closed_loadHandle hopen]

theorem closed_reply (env : ClipEnv) (s : ClipFiles) (fileIdx : ℕ) (response : ClipboardFile) :
    (s.reply env fileIdx response).2.fileList.map closed = s.fileList.map closed := by
  unfold reply
  cases hload : loadNext env (s.fileList.drop (fileIdx + 1)) with
  | error e => rfl
  | ok later =>
    dsimp only
    rw [map_append, closed_loadNext hload, ← map_append, take_append_drop]

theorem closed_set {i : ℕ} {file file' : LocalFile} (hfile : s.fileList[i]? = some file) (hclosed : file'.closed = file.closed) :
    (s.fileList.set i file').map closed = s.fileList.map closed := by
  obtain ⟨hi, hget⟩ := List.getElem?_eq_some_iff.mp hfile
  rw [List.map_set, hclosed, ← hget, ← List.getElem_map closed (h := by simpa using hi)]
  exact List.set_getElem_self _

theorem serveFileContents_range_eq (env : ClipEnv) (s : ClipFiles) (connId : Int) (streamId : BitVec 32)
    (fileIdx offset length : ℕ) :
    s.serveFileContents env connId (.range streamId fileIdx offset length) = match s.fileList[fileIdx]? with
      | none => (some (.error (invalidIndex fileIdx connId)), s)
      | some file =>
        if file.size < offset then
          (some (.error (.invalidRequest s!"invalid reading offset requested from conn: {connId}")), s)
        else if isizeMax < file.rangeBuffer offset length then (none, s)
        else
          match file.readExactAt env (file.rangeBuffer offset length) offset with
          | (.error e, file) => (some (.error e), { s with fileList := s.fileList.set fileIdx file })
          | (.ok buf, file) =>
            let result := { s with fileList := s.fileList.set fileIdx file }.reply env fileIdx
              (.fileContentsResponse 1 streamId buf)
            (some result.1, result.2) := rfl

theorem closed_serveFileContents (env : ClipEnv) (s : ClipFiles) (connId : Int) (request : FileContentsRequest) :
    (s.serveFileContents env connId request).2.fileList.map closed = s.fileList.map closed := by
  cases request with
  | size streamId fileIdx =>
    simp only [serveFileContents]
    split
    next => rfl
    next => exact closed_reply env s fileIdx _
  | range streamId fileIdx offset length =>
    rw [serveFileContents_range_eq]
    cases hfile : s.fileList[fileIdx]? with
    | none => rfl
    | some file =>
      have hclosed := file.closed_readExactAt env (file.rangeBuffer offset length) offset
      dsimp only
      by_cases hbehind : file.size < offset
      · rw [if_pos hbehind]
      · rw [if_neg hbehind]
        by_cases hmax : isizeMax < file.rangeBuffer offset length
        · rw [if_pos hmax]
        · rw [if_neg hmax]
          generalize file.readExactAt env (file.rangeBuffer offset length) offset = read at hclosed ⊢
          obtain ⟨e | buf, file'⟩ := read
          · exact closed_set hfile hclosed
          · exact (closed_reply env _ fileIdx _).trans (closed_set hfile hclosed)

/-- Serving opens and closes files and moves readers; the list stays what it is. -/
theorem closed_step (s : ClipFiles) (m : ClipMessage) : (s.step m).fileList.map closed = s.fileList.map closed := by
  unfold step answer
  split
  next streamId listIndex dwFlags nPositionLow nPositionHigh cbRequested _ _ _ =>
    unfold readFileContents
    split
    next => rfl
    next fcr hfcr =>
      have hclosed := closed_serveFileContents m.env s m.connId fcr
      rcases hresult : s.serveFileContents m.env m.connId fcr with ⟨_ | result, s'⟩
      · rw [hresult] at hclosed
        exact hclosed
      · rw [hresult] at hclosed
        exact hclosed
  next => rfl

/-- Lists that differ in the readers only have files of the same sizes. -/
theorem getElem?_of_closed {files files' : List LocalFile} (h : files.map closed = files'.map closed) {i : ℕ}
    (hfile : files[i]? = some file) : ∃ file', files'[i]? = some file' ∧ file'.size = file.size := by
  have hmapped : (files'.map closed)[i]? = some file.closed := by
    rw [← h, getElem?_map, hfile, Option.map_some]
  rw [getElem?_map, Option.map_eq_some_iff] at hmapped
  obtain ⟨file', hfile', hclosed⟩ := hmapped
  exact ⟨file', hfile', (congrArg size hclosed :)⟩

theorem reply_ok {fileIdx : ℕ} {response response' : ClipboardFile}
    (h : (s.reply env fileIdx response).1 = .ok response') : response' = response := by
  unfold reply at h
  cases hload : loadNext env (s.fileList.drop (fileIdx + 1)) with
  | error e =>
    rw [hload] at h
    exact nomatch h
  | ok later =>
    rw [hload] at h
    exact (ok.inj h).symm

/-- Where no buffer reaches behind its file, a request is answered with an error or what was asked for. -/
theorem holds_serveFileContents (h : s.Tracked) (hsize : ∀ file ∈ s.fileList, file.size < 2 ^ 63) (connId : Int)
    (request : FileContentsRequest)
    (hbuffer : ∀ {streamId fileIdx offset length file}, request = .range streamId fileIdx offset length →
      s.fileList[fileIdx]? = some file → offset ≤ file.size → file.rangeBuffer offset length ≤ file.size - offset) :
    ∃ result, (s.serveFileContents env connId request).1 = some result ∧
      ∀ response, result = .ok response → s.Holds env request response := by
  cases request with
  | size streamId fileIdx =>
    cases hfile : s.fileList[fileIdx]? with
    | none =>
      exact ⟨.error (invalidIndex fileIdx connId), by simp only [serveFileContents, hfile], fun _ heq => by cases heq⟩
    | some file =>
      have hserved : (s.serveFileContents env connId (.size streamId fileIdx)).1 =
          some (s.reply env fileIdx (.fileContentsResponse 1 streamId (LittleEndian.put 8 file.size))).1 := by
        simp only [serveFileContents, hfile]
      exact ⟨_, hserved, fun response hresponse => ⟨file, hfile, reply_ok hresponse⟩⟩
  | range streamId fileIdx offset length =>
    rw [serveFileContents_range_eq]
    cases hfile : s.fileList[fileIdx]? with
    | none => exact ⟨_, rfl, fun _ heq => by cases heq⟩
    | some file =>
      dsimp only
      by_cases hbehind : file.size < offset
      · rw [if_pos hbehind]
        exact ⟨_, rfl, fun _ heq => by cases heq⟩
      · have hmem := mem_of_getElem? hfile
        have hfits := hbuffer rfl hfile (Nat.not_lt.mp hbehind)
        have hlt := hsize file hmem
        have hmax : ¬ isizeMax < file.rangeBuffer offset length := by
          unfold isizeMax
          omega
        have hread : ∀ buf, (file.readExactAt env (file.rangeBuffer offset length) offset).1 = .ok buf → _ := fun _ =>
          (h file hmem).of_readExactAt
        rw [if_neg hbehind, if_neg hmax]
        generalize file.readExactAt env (file.rangeBuffer offset length) offset = read at hread ⊢
        obtain ⟨e | buf, file'⟩ := read
        · exact ⟨_, rfl, fun _ heq => by cases heq⟩
        · obtain ⟨hbytes, hlength⟩ := hread buf rfl
          refine ⟨_, rfl, fun response hresponse => ⟨file, buf, hfile, by omega, ?_, reply_ok hresponse⟩⟩
          rw [hlength]
          exact hbytes

/-- A sum of an offset in a file and a length wraps exactly for a negative length that stays in the file. -/
theorem wraps_iff {offset : ℕ} (hsize : file.size < 2 ^ 63) (hoffset : offset ≤ file.size)
    (cb : BitVec 32) : 2 ^ 64 ≤ offset + i32ToU64 cb ↔ cb.toInt < 0 ∧ 0 ≤ (offset : Int) + cb.toInt := by
  have hlt := cb.isLt
  rw [i32ToU64_eq, BitVec.toInt_eq_toNat_cond]
  by_cases hsmall : cb.toNat < 2 ^ 31
  · rw [if_pos hsmall, if_pos (by omega)]
    omega
  · rw [if_neg hsmall, if_neg (by omega)]
    omega

/-- Without a wrap, the buffer ends with the file at the latest. -/
theorem rangeBuffer_le {offset length : ℕ} (hoffset : offset ≤ file.size)
    (hsum : offset + length < 2 ^ 64) : file.rangeBuffer offset length ≤ file.size - offset := by
  unfold rangeBuffer
  rw [Nat.mod_eq_of_lt hsum]
  split <;> omega

end ClipFiles

/-- Whatever list of files is shared and whatever was asked for before: a request with any words in its fields is
served without overflow, in a buffer that ends with the file, and comes to an error or to what was asked for,
exactly if it is not for a range of a negative length that stays in its file. -/
theorem serves_safely_iff (env₀ : ClipEnv) {fileList : List LocalFile}
    (hopened : ∀ file ∈ fileList, ∃ root path metadata, LocalFile.tryOpen root path metadata = .ok file)
    (hsize : ∀ file ∈ fileList, file.size < 2 ^ 63) (history : List ClipMessage) (env : ClipEnv) (connId : Int)
    (streamId listIndex dwFlags nPositionLow nPositionHigh cbRequested : BitVec 32) :
    (runEvents ClipFiles.step (.syncFiles env₀ fileList) history).ServesSafely env connId streamId listIndex dwFlags
        nPositionLow nPositionHigh cbRequested ↔
      ¬ ClipFiles.Wraps fileList listIndex dwFlags nPositionLow nPositionHigh cbRequested := by
  have htracked : (runEvents ClipFiles.step (.syncFiles env₀ fileList) history).Tracked :=
    runEvents_invariant_of_step (I := ClipFiles.Tracked) (fun _ m hs => hs.step m)
      (ClipFiles.tracked_syncFiles env₀ hopened) history
  have hclosed : (runEvents ClipFiles.step (.syncFiles env₀ fileList) history).fileList.map LocalFile.closed =
      fileList.map LocalFile.closed :=
    runEvents_invariant_of_step (I := fun s : ClipFiles => s.fileList.map LocalFile.closed = fileList.map LocalFile.closed)
      (fun s m hs => (ClipFiles.closed_step s m).trans hs) rfl history
  generalize runEvents ClipFiles.step (.syncFiles env₀ fileList) history = s at htracked hclosed
  have hsizes : ∀ file ∈ s.fileList, file.size < 2 ^ 63 := by
    intro file hfile
    obtain ⟨i, hi⟩ := List.mem_iff_getElem?.mp hfile
    obtain ⟨listed, hlisted, hsame⟩ := ClipFiles.getElem?_of_closed hclosed hi
    rw [← hsame]
    exact hsize listed (List.mem_of_getElem? hlisted)
  constructor
  · rintro hsafe ⟨listed, hlisted, hflags, hoffset, hwraps⟩
    obtain ⟨file, hfile, hsame⟩ := ClipFiles.getElem?_of_closed hclosed.symm hlisted
    rw [← hsame] at hoffset
    have hlt := hsizes file (List.mem_of_getElem? hfile)
    have hrequest : ClipFiles.fileContentsRequest streamId listIndex dwFlags nPositionLow nPositionHigh cbRequested =
        some (.range streamId (i32ToU64 listIndex) (Words.joinSigned 64 nPositionHigh nPositionLow).toNat
          (i32ToU64 cbRequested)) := by
      rw [hflags]
      rfl
    have hsum := (hsafe.range hrequest hfile hoffset).1
    have hover := (ClipFiles.wraps_iff hlt hoffset cbRequested).mpr hwraps
    omega
  · intro hnot
    have hrange : ∀ {id fileIdx offset length file},
        ClipFiles.fileContentsRequest streamId listIndex dwFlags nPositionLow nPositionHigh cbRequested =
          some (.range id fileIdx offset length) →
        s.fileList[fileIdx]? = some file → offset ≤ file.size →
          offset + length < 2 ^ 64 ∧ file.rangeBuffer offset length ≤ file.size - offset := by
      intro id fileIdx offset length file hrequest hfile hoffset
      unfold ClipFiles.fileContentsRequest at hrequest
      split at hrequest
      · exact nomatch Option.some.inj hrequest
      · split at hrequest
        next hflags =>
          obtain ⟨-, rfl, rfl, rfl⟩ := FileContentsRequest.range.inj (Option.some.inj hrequest)
          obtain ⟨listed, hlisted, hsame⟩ := ClipFiles.getElem?_of_closed hclosed hfile
          have hlt := hsizes file (List.mem_of_getElem? hfile)
          have hsum : (Words.joinSigned 64 nPositionHigh nPositionLow).toNat + i32ToU64 cbRequested < 2 ^ 64 := by
            by_contra hover
            refine hnot ⟨listed, hlisted, hflags, hsame ▸ hoffset, ?_⟩
            exact (ClipFiles.wraps_iff hlt hoffset cbRequested).mp (Nat.not_lt.mp hover)
          exact ⟨hsum, ClipFiles.rangeBuffer_le hoffset hsum⟩
        next => exact nomatch hrequest
    refine ⟨hrange, ?_⟩
    unfold ClipFiles.readFileContents
    cases hrequest : ClipFiles.fileContentsRequest streamId listIndex dwFlags nPositionLow nPositionHigh cbRequested with
    | none => exact ⟨[], _, rfl, nofun⟩
    | some fcr =>
      obtain ⟨result, hserve, hholds⟩ := ClipFiles.holds_serveFileContents htracked hsizes connId fcr
        fun heq hfile hoffset => (hrange (hrequest.trans (congrArg some heq)) hfile hoffset).2
      refine ⟨((s.getFilesForAudit env fcr).map Except.ok).toList, result, ?_, fun response hresponse =>
        ⟨fcr, rfl, hholds response hresponse⟩⟩
      dsimp only
      rcases hresult : s.serveFileContents env connId fcr with ⟨_ | served, s'⟩
      · rw [hresult] at hserve
        exact nomatch hserve
      · rw [hresult] at hserve
        rw [← Option.some.inj hserve]

/-- The last two bytes of a file of three. -/
theorem serves_safely_smallFile :
    (ClipFiles.syncFiles smallFileEnv [smallFile]).ServesSafely smallFileEnv 1 7 0 2 1 0 2 := by
  have hopened : ∀ file ∈ [smallFile], ∃ root path metadata, LocalFile.tryOpen root path metadata = .ok file := by
    intro file hfile
    obtain rfl := List.mem_singleton.mp hfile
    exact ⟨"/home/a", "/home/a/x", .ok ⟨3, false, false, some 0, 0o644⟩, by decide⟩
  have hsize : ∀ file ∈ [smallFile], file.size < 2 ^ 63 := by decide
  refine (serves_safely_iff smallFileEnv hopened hsize [] smallFileEnv 1 7 0 2 1 0 2).mpr ?_
  rintro ⟨file, -, -, -, hneg, -⟩
  exact absurd hneg (by decide)

/-- One byte less than none, behind the first byte: the buffer does not fit into memory. -/
theorem range_of_negative_length_panics :
    ((ClipFiles.syncFiles smallFileEnv [smallFile]).readFileContents smallFileEnv 1 7 0 2 1 0 (-1)).1 = .panicked ∧
      ¬ (ClipFiles.syncFiles smallFileEnv [smallFile]).ServesSafely smallFileEnv 1 7 0 2 1 0 (-1) := by
  have hpanics : ((ClipFiles.syncFiles smallFileEnv [smallFile]).readFileContents smallFileEnv 1 7 0 2 1 0 (-1)).1 =
      .panicked := rfl
  refine ⟨hpanics, fun hsafe => ?_⟩
  obtain ⟨audit, result, hanswered, -⟩ := hsafe.answered
  exact nomatch hpanics.symm.trans hanswered

end UnyDesk
