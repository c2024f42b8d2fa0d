import UnyDesk.Clipboard.Serving

/-!
# A file and the files beside it

When a range of a file has been read, the next file of the list is opened ahead of its first request. If that fails,
the request fails with it, and the bytes that were read are lost. Two runs that agree on the requested file are
compared here, whatever the other files are.
-/

namespace UnyDesk

open Lib LocalFile Option

/-- The buffer of a range is filled: the range lies in the file as it is listed, the file is open or opens, and it
still has the bytes. -/
structure LocalFile.Delivers (env : ClipEnv) (file : LocalFile) (offset length : ℕ) : Prop where
  inside : offset ≤ file.size
  buffer : file.rangeBuffer offset length ≤ isizeMax
  opens : file.handle = none → file.isDir = false ∧ env.opened file.path = none
  reads : env.read file.path = none
  bytes : file.rangeBuffer offset length = 0 ∨
    (if offset ≠ file.offset then offset else file.handle.getD 0) + file.rangeBuffer offset length ≤
      (env.content file.path).length

/-- How the next file of the rest of a list fails to open. -/
def openError (env : ClipEnv) (files : List LocalFile) : Option CliprdrError :=
  match files.find? fun file => !file.isDir with
  | none => none
  | some file => if file.handle = none then (env.opened file.path).map (.fileError file.path) else none

namespace ClipFiles

/-- How the next file after an index fails to open. -/
def nextOpenError (env : ClipEnv) (s : ClipFiles) (fileIdx : ℕ) : Option CliprdrError :=
  openError env (s.fileList.drop (fileIdx + 1))

/-- The range of the file at an index can be given. -/
def Delivers (env : ClipEnv) (s : ClipFiles) (fileIdx offset length : ℕ) : Prop :=
  ∃ file, s.fileList[fileIdx]? = some file ∧ file.Delivers env offset length

/-- Two lists of the same kinds of files, on two systems, that agree on one file: on what is listed of it, on its
reader, and on its contents and the ways that it opens and is read. -/
structure AgreesOn (fileIdx : ℕ) (env env' : ClipEnv) (s s' : ClipFiles) : Prop where
  kinds : s.fileList.map LocalFile.isDir = s'.fileList.map LocalFile.isDir
  file : s.fileList[fileIdx]? = s'.fileList[fileIdx]?
  content : ∀ file, s.fileList[fileIdx]? = some file → env.content file.path = env'.content file.path
  opened : ∀ file, s.fileList[fileIdx]? = some file → env.opened file.path = env'.opened file.path
  read : ∀ file, s.fileList[fileIdx]? = some file → env.read file.path = env'.read file.path

variable {env env' : ClipEnv} {s s' : ClipFiles} {file : LocalFile}

theorem loadHandle_congr (h : env.opened file.path = env'.opened file.path) :
    file.loadHandle env = file.loadHandle env' := by
  unfold loadHandle
  rw [h]

/-- A read asks the system about its own file alone. -/
theorem readExactAt_congr (hcontent : env.content file.path = env'.content file.path)
    (hopened : env.opened file.path = env'.opened file.path) (hread : env.read file.path = env'.read file.path)
    (length offset : ℕ) : file.readExactAt env length offset = file.readExactAt env' length offset := by
  unfold readExactAt
  rw [loadHandle_congr hopened]
  cases hload : file.loadHandle env' with
  | error e => rfl
  | ok opened =>
    have hpath : opened.path = file.path := (congrArg path (closed_loadHandle hload) :)
    have hexact : ∀ pos, env.readExact opened.path pos length = env'.readExact opened.path pos length := by
      intro pos
      rw [ClipEnv.readExact, ClipEnv.readExact, hpath, hcontent, hread]
    simp only [hexact]

section

variable (env : ClipEnv)

/-- A read fills its buffer exactly if the range is delivered. -/
theorem readExactAt_ok_iff {length offset : ℕ} (hoffset : offset ≤ file.size)
    (hbuffer : file.rangeBuffer offset length ≤ isizeMax) :
    (∃ buf, (file.readExactAt env (file.rangeBuffer offset length) offset).1 = .ok buf) ↔
      file.Delivers env offset length := by
  have hreads : ∀ pos, (∃ buf, env.readExact file.path pos (file.rangeBuffer offset length) = .ok buf) ↔
      env.read file.path = none ∧ (file.rangeBuffer offset length = 0 ∨
          pos + file.rangeBuffer offset length ≤ (env.content file.path).length) := by
    intro pos
    unfold ClipEnv.readExact
    cases env.read file.path with
    | some e => exact ⟨nofun, nofun⟩
    | none =>
      dsimp only
      split
      next hbytes => exact ⟨fun _ => ⟨rfl, hbytes⟩, fun _ => ⟨_, rfl⟩⟩
      next hshort => exact ⟨nofun, fun h => absurd h.2 hshort⟩
  have hresult : (∃ buf, (file.readExactAt env (file.rangeBuffer offset length) offset).1 = .ok buf) ↔
      (file.handle = none → file.isDir = false ∧ env.opened file.path = none) ∧
        ∃ buf, env.readExact file.path (if offset ≠ file.offset then offset else file.handle.getD 0)
          (file.rangeBuffer offset length) = .ok buf := by
    unfold readExactAt loadHandle
    cases hhandle : file.handle with
    | some pos =>
      rw [if_neg fun hclosed => some_ne_none pos hclosed.2]
      simp only [hhandle, getD_some]
      cases env.readExact file.path (if offset ≠ file.offset then offset else pos) (file.rangeBuffer offset length) with
      | error e => exact ⟨nofun, fun h => h.2.elim nofun⟩
      | ok buf => exact ⟨fun h => ⟨nofun, _, rfl⟩, fun _ => ⟨_, rfl⟩⟩
    | none =>
      cases hdir : file.isDir with
      | true =>
        rw [if_neg fun hclosed => Bool.false_ne_true hclosed.1.symm]
        simp only [hhandle]
        exact ⟨nofun, fun h => absurd (h.1 trivial).1 Bool.false_ne_true.symm⟩
      | false =>
        rw [if_pos ⟨rfl, rfl⟩]
        cases env.opened file.path with
        | some e => exact ⟨nofun, fun h => nomatch (h.1 rfl).2⟩
        | none =>
          dsimp only [getD_none]
          cases env.readExact file.path (if offset ≠ file.offset then offset else 0)
              (file.rangeBuffer offset length) with
          | error e => exact ⟨nofun, fun h => h.2.elim nofun⟩
          | ok buf => exact ⟨fun h => ⟨fun _ => ⟨rfl, rfl⟩, _, rfl⟩, fun _ => ⟨_, rfl⟩⟩
  rw [hresult, hreads]
  constructor
  · intro h
    exact ⟨hoffset, hbuffer, h.1, h.2.1, h.2.2⟩
  · intro h
    exact ⟨h.opens, h.reads, h.bytes⟩

/-- The rest of a list is opened up to its next file, or fails with it. -/
theorem loadNext_error_iff (files : List LocalFile) :
    (∀ e, loadNext env files = .error e ↔ openError env files = some e) ∧
      ((∃ later, loadNext env files = .ok later) ↔ openError env files = none) := by
  -- A list that is loaded has no error to report.
  have hloaded : ∀ later : List LocalFile,
      (∀ e, (.ok later : Except CliprdrError (List LocalFile)) = .error e ↔ none = some e) ∧
        ((∃ later', (.ok later : Except CliprdrError (List LocalFile)) = .ok later') ↔ (none : Option CliprdrError) = none) :=
    fun later => ⟨fun e => iff_of_false (fun h => by cases h) (some_ne_none e).symm, fun _ => rfl,
      fun _ => ⟨later, rfl⟩⟩
  induction files with
  | nil => exact hloaded []
  | cons file files ih =>
    cases hdir : file.isDir with
    | true =>
      have hnext : openError env (file :: files) = openError env files := by
        rw [openError, List.find?_cons_of_neg (by rw [hdir]; exact Bool.false_ne_true)]
        rfl
      rw [loadNext, if_pos hdir, hnext]
      cases hload : loadNext env files with
      | error e =>
        rw [hload] at ih
        refine ⟨ih.1, ?_, fun h => ?_⟩
        · rintro ⟨later, hlater⟩
          cases hlater
        · cases ((ih.1 e).mp rfl).symm.trans h
      | ok later =>
        rw [hload] at ih
        rw [ih.2.mp ⟨later, rfl⟩]
        exact hloaded (file :: later)
    | false =>
      rw [loadNext, if_neg (by rw [hdir]; exact Bool.false_ne_true), openError,
        List.find?_cons_of_pos (by rw [hdir]; rfl)]
      unfold loadHandle
      dsimp only
      cases hhandle : file.handle with
      | some pos =>
        rw [if_neg fun hclosed => some_ne_none pos hclosed.2, if_neg (some_ne_none pos)]
        exact hloaded _
      | none =>
        rw [if_pos ⟨hdir, rfl⟩, if_pos rfl]
        cases env.opened file.path with
        | none => exact hloaded _
        | some text =>
          constructor
          · intro e
            constructor
            · intro h
              cases h
              rfl
            · intro h
              cases h
              rfl
          · refine iff_of_false ?_ (some_ne_none _)
            rintro ⟨later, hlater⟩
            cases hlater

/-- A reply is the answer, unless the next file fails to open. -/
theorem reply_fst (s : ClipFiles) (fileIdx : ℕ) (response : ClipboardFile) :
    (s.reply env fileIdx response).1 = match s.nextOpenError env fileIdx with
      | some e => .error e
      | none => .ok response := by
  have hnext := loadNext_error_iff env (s.fileList.drop (fileIdx + 1))
  unfold ClipFiles.reply nextOpenError
  cases hload : loadNext env (s.fileList.drop (fileIdx + 1)) with
  | error e => rw [(hnext.1 e).mp hload]
  | ok later => rw [hnext.2.mp ⟨later, hload⟩]

/-- The files after an index do not change with the file at it. -/
theorem nextOpenError_set (s : ClipFiles) (fileIdx : ℕ) (file : LocalFile) :
    ({ s with fileList := s.fileList.set fileIdx file } : ClipFiles).nextOpenError env fileIdx =
      s.nextOpenError env fileIdx := by
  unfold nextOpenError
  rw [List.drop_set_of_lt (Nat.lt_succ_self fileIdx)]

end

/-- Two runs that agree on a file answer a request for a range of it alike exactly if the range cannot be given in
either, or the next files after it open alike. -/
theorem range_alike_iff {fileIdx : ℕ} (h : AgreesOn fileIdx env env' s s') (connId : Int) (streamId : BitVec 32)
    (offset length : ℕ) :
    (s.serveFileContents env connId (.range streamId fileIdx offset length)).1 =
        (s'.serveFileContents env' connId (.range streamId fileIdx offset length)).1 ↔
      (s.Delivers env fileIdx offset length → s.nextOpenError env fileIdx = s'.nextOpenError env' fileIdx) := by
  rw [serveFileContents_range_eq, serveFileContents_range_eq, ← h.file]
  unfold ClipFiles.Delivers
  cases hfile : s.fileList[fileIdx]? with
  | none => exact ⟨fun _ hdelivers => hdelivers.elim fun _ hsome => (nomatch hsome.1), fun _ => rfl⟩
  | some file =>
    have hsame := readExactAt_congr (h.content file hfile) (h.opened file hfile) (h.read file hfile)
      (file.rangeBuffer offset length) offset
    have hdelivers : (∃ listed, some file = some listed ∧ listed.Delivers env offset length) ↔
        file.Delivers env offset length := by
      constructor
      · intro hlisted
        obtain ⟨listed, hlisted, hrange⟩ := hlisted
        rw [Option.some.inj hlisted]
        exact hrange
      · exact fun hrange => ⟨file, rfl, hrange⟩
    rw [hdelivers]
    dsimp only
    by_cases hbehind : file.size < offset
    · rw [if_pos hbehind, if_pos hbehind]
      exact ⟨fun _ hrange => absurd hrange.inside (Nat.not_le.mpr hbehind), fun _ => rfl⟩
    · rw [if_neg hbehind, if_neg hbehind]
      by_cases hmax : isizeMax < file.rangeBuffer offset length
      · rw [if_pos hmax, if_pos hmax]
        exact ⟨fun _ hrange => absurd hrange.buffer (Nat.not_le.mpr hmax), fun _ => rfl⟩
      · have hok := readExactAt_ok_iff env (Nat.not_lt.mp hbehind) (Nat.not_lt.mp hmax)
        rw [if_neg hmax, if_neg hmax, ← hsame, ← hok]
        generalize file.readExactAt env (file.rangeBuffer offset length) offset = read
        obtain ⟨e | buf, file'⟩ := read
        · exact ⟨fun _ hread => hread.elim nofun, fun _ => rfl⟩
        · dsimp only
          rw [reply_fst, reply_fst, nextOpenError_set, nextOpenError_set]
          constructor
          · intro heq _
            cases hnext : s.nextOpenError env fileIdx with
            | none =>
              cases hnext' : s'.nextOpenError env' fileIdx with
              | none => rfl
              | some e' =>
                rw [hnext, hnext'] at heq
                cases heq
            | some e =>
              cases hnext' : s'.nextOpenError env' fileIdx with
              | none =>
                rw [hnext, hnext'] at heq
                cases heq
              | some e' =>
                rw [hnext, hnext'] at heq
                cases heq
                rfl
          · intro hnext
            rw [hnext ⟨buf, rfl⟩]

end ClipFiles

/-- A second file, beside the one of three bytes. -/
def secondFile : LocalFile := { smallFile with path := "/home/a/y" }

/-- A system on which the second file has become empty. -/
def emptiedEnv : ClipEnv :=
  { smallFileEnv with content := fun path => if path = "/home/a/y" then [] else [1, 2, 3] }

theorem range_beside_emptied_file :
    ((⟨[smallFile, secondFile], 0⟩ : ClipFiles).serveFileContents smallFileEnv 1 (.range 7 0 1 2)).1 =
      ((⟨[smallFile, { secondFile with size := 0 }], 0⟩ : ClipFiles).serveFileContents emptiedEnv 1 (.range 7 0 1 2)).1 := by
  have hagrees : ClipFiles.AgreesOn 0 smallFileEnv emptiedEnv ⟨[smallFile, secondFile], 0⟩
      ⟨[smallFile, { secondFile with size := 0 }], 0⟩ := by
    constructor
    · rfl
    · rfl
    · intro file hfile
      obtain rfl := Option.some.inj hfile
      rfl
    · exact fun _ _ => rfl
    · exact fun _ _ => rfl
  exact (ClipFiles.range_alike_iff hagrees 1 7 1 2).mpr fun _ => rfl

/-- A system on which the second file may not be read. -/
def lockedEnv : ClipEnv :=
  { smallFileEnv with opened := fun path => if path = "/home/a/y" then some "Permission denied" else none }

theorem agreesOn_lockedEnv :
    ClipFiles.AgreesOn 0 smallFileEnv lockedEnv ⟨[smallFile, secondFile], 0⟩ ⟨[smallFile, secondFile], 0⟩ where
  kinds := rfl
  file := rfl
  content := fun _ _ => rfl
  opened := by
    intro file hfile
    obtain rfl := some.inj hfile
    rfl
  read := fun _ _ => rfl

/-- A file is given to the peer or not, depending on whether the file after it may be read. -/
theorem range_beside_locked_file_fails :
    ¬ ∀ (fileIdx : ℕ) (env env' : ClipEnv) (s s' : ClipFiles), s.AgreesOn fileIdx env env' s' →
      ∀ (connId : Int) (streamId : BitVec 32) (offset length : ℕ),
        (s.serveFileContents env connId (.range streamId fileIdx offset length)).1 =
          (s'.serveFileContents env' connId (.range streamId fileIdx offset length)).1 := by
  intro h
  have halike := h 0 smallFileEnv lockedEnv _ _ agreesOn_lockedEnv 1 7 0 3
  revert halike
  decide

end UnyDesk
