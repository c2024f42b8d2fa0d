import UnyDesk.Clipboard.FileWalk
import UnyDesk.Lib.Machine

/-!
# The list that is kept for a copy

The files of a copy are walked once, and their list is kept together with its encoding until the selection or a
file of it changes. The list is built first and encoded after it has been stored. A record has room for 260 units of
UTF-16; the encoding of a longer path ends in a panic between the two.
-/

namespace UnyDesk

open Lib LocalFile List Option LittleEndian

/-- What is compared of a selected path to find out that it has changed. -/
structure FileSig where
  size : ℕ := 0
  mtime : Option Int := none
  isDir : Bool := false
deriving DecidableEq

/-- A selected path, with what the system tells about it. -/
structure SelectedPath where
  path : String
  stat : Except String FileMetadata
  walk : PathAnswers

def fingerprint (files : List SelectedPath) : List FileSig :=
  files.map fun file =>
    match file.stat with
    | .ok mt => { size := mt.len, mtime := mt.modified, isDir := mt.isDir }
    | .error _ => {}

/-- `ClipFiles`, with the fields that decide whether the list is built again. -/
structure ClipCache where
  files : List String := []
  sigs : List FileSig := []
  fileList : List LocalFile := []
  firstFileIndex : ℕ := 0
  filesPdu : Bytes := []

/-- The calls from the clipboard. What the system tells during a call is part of it; the last argument is what
`is_dir` says of the listed paths. -/
inductive CacheCall
  | clearFiles
  | syncFiles (files : List SelectedPath) (isDir : String → Bool)

inductive CacheOutcome
  | returned (result : Except CliprdrError Unit)
  | panicked

namespace ClipCache

def usizeMax : ℕ := 2 ^ 64 - 1

/-- What requests are served from. -/
def clipFiles (s : ClipCache) : ClipFiles := ⟨s.fileList, s.firstFileIndex⟩

def clear (_ : ClipCache) : ClipCache where
  files := []
  sigs := []
  fileList := []
  firstFileIndex := usizeMax
  filesPdu := []

/-- The method `sync_files`. -/
def syncFiles (s : ClipCache) (clipboardFiles : List SelectedPath) (isDir : String → Bool) (sigs : List FileSig) :
    Except CliprdrError ClipCache :=
  match constructFileList (clipboardFiles.map fun file => (file.path, file.walk)) with
  | .error e => .error e
  | .ok fileList =>
    .ok { s with
        fileList
        firstFileIndex := (fileList.findIdx? fun file => !isDir file.path).getD usizeMax
        files := clipboardFiles.map (·.path)
        sigs }

/-- `build_file_list_pdu`; `none` for a panic. -/
def buildFileListPdu (w : Utf16String) (s : ClipCache) : Option ClipCache :=
  (s.clipFiles.buildFileListPdu w).map fun filesPdu => { s with filesPdu }

/-- The paths, sizes and times are those of the list, and no directory is selected. -/
def Unchanged (s : ClipCache) (files : List SelectedPath) : Prop :=
  s.files = files.map (·.path) ∧ s.sigs = fingerprint files ∧ (fingerprint files).any (·.isDir) = false

instance (s : ClipCache) (files : List SelectedPath) : Decidable (s.Unchanged files) := by
  unfold Unchanged
  infer_instance

section

variable (w : Utf16String)

section

variable (s : ClipCache)

/-- A call, with the state that it leaves. -/
def call : CacheCall → CacheOutcome × ClipCache
  | .clearFiles => (.returned (.ok ()), s.clear)
  | .syncFiles files isDir =>
    if s.Unchanged files then (.returned (.ok ()), s)
    else
      match s.syncFiles files isDir (fingerprint files) with
      | .error e => (.returned (.error e), s)
      | .ok s =>
        match s.buildFileListPdu w with
        | none => (.panicked, s)
        | some s => (.returned (.ok ()), s)

def step (c : CacheCall) : ClipCache := (s.call w c).2

/-- The bytes are the count of the files and one record of 592 bytes for each, in order. -/
structure Encodes (w : Utf16String) (fileList : List LocalFile) (pdu : Bytes) : Prop where
  length : pdu.length = 4 + 592 * fileList.length
  records : ∃ records, fileList.mapM (LocalFile.asBin w) = some records ∧ (∀ record ∈ records, record.length = 592) ∧
    pdu = put 4 fileList.length ++ records.flatten

/-- All fields come from one and the same call for one selection. -/
structure Describes (w : Utf16String) (s : ClipCache) (selection : List SelectedPath) (isDir : String → Bool) :
    Prop where
  files : s.files = selection.map (·.path)
  sigs : s.sigs = fingerprint selection
  fileList : constructFileList (selection.map fun file => (file.path, file.walk)) = .ok s.fileList
  firstFileIndex : s.firstFileIndex = (s.fileList.findIdx? fun file => !isDir file.path).getD usizeMax
  filesPdu : Encodes w s.fileList s.filesPdu

/-- Nothing is selected. -/
structure Empty (s : ClipCache) : Prop where
  files : s.files = []
  sigs : s.sigs = []
  fileList : s.fileList = []
  filesPdu : s.filesPdu = []

def Consistent : Prop :=
  s.Empty ∨ ∃ files isDir, s.Describes w files isDir

/-- The call returns, leaves fields that go together, and leaves them alone if it fails. -/
structure Safe (w : Utf16String) (s : ClipCache) (c : CacheCall) : Prop where
  returns : ∃ result, (s.call w c).1 = .returned result
  consistent : (s.call w c).2.Consistent w
  unchanged : ∀ e, (s.call w c).1 = .returned (.error e) → (s.call w c).2 = s

/-- Every path that is walked, unless nothing has changed, has a name that fits into its record. -/
def Fits : CacheCall → Prop
  | .clearFiles => True
  | .syncFiles files _ =>
    ¬ s.Unchanged files → ∀ fileList, constructFileList (files.map fun file => (file.path, file.walk)) = .ok fileList →
        ∀ file ∈ fileList, (w.asBytes file.relativePath).length ≤ 520

end

end

section Encoding

variable {w : Utf16String} {file : LocalFile}

theorem length_of_asBin {record : Bytes} (h : file.asBin w = some record) : record.length = 592 := by
  unfold asBin at h
  dsimp only at h
  split at h
  next => cases h
  next hfits =>
    rw [← some.inj h]
    simp only [length_append, length_put, length_replicate]
    omega

theorem asBin_eq_none_iff : file.asBin w = none ↔ 520 < (w.asBytes file.relativePath).length := by
  unfold asBin
  dsimp only
  split
  next hlong => exact iff_of_true rfl hlong
  next hfits => exact iff_of_false (some_ne_none _) hfits

/-- A list has records exactly if every name in it fits. -/
theorem mapM_asBin_iff (fileList : List LocalFile) : (∃ records, fileList.mapM (asBin w) = some records) ↔
      ∀ file ∈ fileList, (w.asBytes file.relativePath).length ≤ 520 := by
  induction fileList with
  | nil => exact iff_of_true ⟨[], rfl⟩ nofun
  | cons file fileList ih =>
    rw [forall_mem_cons, ← ih, mapM_cons]
    cases hrecord : file.asBin w with
    | none =>
      have hlong := asBin_eq_none_iff.mp hrecord
      exact iff_of_false (fun h => h.elim nofun) fun h => absurd h.1 (Nat.not_le.mpr hlong)
    | some record =>
      have hfits : ¬ 520 < (w.asBytes file.relativePath).length :=
        fun hlong => some_ne_none record (hrecord.symm.trans (asBin_eq_none_iff.mpr hlong))
      cases hrest : fileList.mapM (asBin w) with
      | none => exact iff_of_false (fun h => h.elim nofun) fun h => h.2.elim nofun
      | some records => exact iff_of_true ⟨_, rfl⟩ ⟨Nat.not_lt.mp hfits, _, rfl⟩

theorem records_of_mapM {fileList : List LocalFile} {records : List Bytes}
    (h : fileList.mapM (asBin w) = some records) :
    (∀ record ∈ records, record.length = 592) ∧ records.flatten.length = 592 * fileList.length := by
  induction fileList generalizing records with
  | nil =>
    cases h
    exact ⟨nofun, rfl⟩
  | cons file fileList ih =>
    rw [mapM_cons] at h
    cases hrecord : file.asBin w with
    | none =>
      rw [hrecord] at h
      cases h
    | some record =>
      cases hrest : fileList.mapM (asBin w) with
      | none =>
        rw [hrecord, hrest] at h
        cases h
      | some later =>
        rw [hrecord, hrest] at h
        cases h
        have hlength := length_of_asBin hrecord
        obtain ⟨hlengths, htotal⟩ := ih hrest
        constructor
        · exact forall_mem_cons.mpr ⟨hlength, hlengths⟩
        · rw [flatten_cons, length_append, hlength, htotal, length_cons]
          omega

/-- What is built encodes the list. -/
theorem encodes_of_build {s : ClipFiles} {pdu : Bytes} (h : s.buildFileListPdu w = some pdu) :
    Encodes w s.fileList pdu := by
  unfold ClipFiles.buildFileListPdu at h
  obtain ⟨records, hrecords, rfl⟩ := map_eq_some_iff.mp h
  obtain ⟨hlengths, htotal⟩ := records_of_mapM hrecords
  constructor
  · rw [length_append, length_put, htotal]
  · exact ⟨records, hrecords, hlengths, rfl⟩

theorem build_iff (s : ClipFiles) :
    (∃ pdu, s.buildFileListPdu w = some pdu) ↔ ∀ file ∈ s.fileList, (w.asBytes file.relativePath).length ≤ 520 := by
  rw [← mapM_asBin_iff, ClipFiles.buildFileListPdu]
  cases s.fileList.mapM (LocalFile.asBin w) with
  | none =>
    refine iff_of_false ?_ ?_
    · rintro ⟨pdu, hpdu⟩
      cases hpdu
    · rintro ⟨records, hrecords⟩
      cases hrecords
  | some records => exact iff_of_true ⟨_, rfl⟩ ⟨_, rfl⟩

end Encoding

section Calls

variable {w : Utf16String} {s : ClipCache}

theorem consistent_clear (s : ClipCache) : s.clear.Consistent w := .inl ⟨rfl, rfl, rfl, rfl⟩

/-- A call fails before it stores anything. -/
theorem syncFiles_eq {files : List SelectedPath} (isDir : String → Bool) (h : ¬ s.Unchanged files) :
    s.call w (.syncFiles files isDir) = match constructFileList (files.map fun file => (file.path, file.walk)) with
      | .error e => (.returned (.error e), s)
      | .ok fileList =>
        let stored : ClipCache :=
          { files := files.map (·.path), sigs := fingerprint files, fileList
            firstFileIndex := (fileList.findIdx? fun file => !isDir file.path).getD usizeMax, filesPdu := s.filesPdu }
        match stored.clipFiles.buildFileListPdu w with
        | none => (.panicked, stored)
        | some filesPdu => (.returned (.ok ()), { stored with filesPdu }) := by
  rw [call, if_neg h, syncFiles]
  cases constructFileList (files.map fun file => (file.path, file.walk)) with
  | error e => rfl
  | ok fileList =>
    dsimp only [buildFileListPdu]
    cases ClipFiles.buildFileListPdu w _ with
    | none => rfl
    | some filesPdu => rfl

/-- A call on fields that go together is safe exactly if the names fit. -/
theorem safe_iff (h : s.Consistent w) (c : CacheCall) : s.Safe w c ↔ s.Fits w c := by
  cases c with
  | clearFiles => exact iff_of_true ⟨⟨_, rfl⟩, consistent_clear s, nofun⟩ trivial
  | syncFiles files isDir =>
    by_cases hsame : s.Unchanged files
    · have hcall : s.call w (.syncFiles files isDir) = (.returned (.ok ()), s) := if_pos hsame
      apply iff_of_true
      · constructor
        · exact ⟨_, congrArg Prod.fst hcall⟩
        · rw [hcall]
          exact h
        · intro e _
          rw [hcall]
      · exact fun hchanged => absurd hsame hchanged
    · have hcall := syncFiles_eq (w := w) isDir hsame
      cases hwalk : constructFileList (files.map fun file => (file.path, file.walk)) with
      | error e =>
        rw [hwalk] at hcall
        apply iff_of_true
        · constructor
          · exact ⟨_, congrArg Prod.fst hcall⟩
          · rw [hcall]
            exact h
          · intro _ _
            rw [hcall]
        · intro _ fileList hlist
          cases hwalk.symm.trans hlist
      | ok fileList =>
        rw [hwalk] at hcall
        dsimp only at hcall
        have hfits : s.Fits w (.syncFiles files isDir) ↔
            ∀ file ∈ fileList, (w.asBytes file.relativePath).length ≤ 520 := by
          constructor
          · intro hall
            exact hall hsame fileList hwalk
          · intro hall _ fileList' hlist
            cases hwalk.symm.trans hlist
            exact hall
        have hbuild := build_iff (w := w) ⟨fileList, (fileList.findIdx? fun file => !isDir file.path).getD usizeMax⟩
        rw [hfits, ← hbuild]
        dsimp only [clipFiles] at hcall
        cases hpdu : ClipFiles.buildFileListPdu w
            ⟨fileList, (fileList.findIdx? fun file => !isDir file.path).getD usizeMax⟩ with
        | none =>
          rw [hpdu] at hcall
          apply iff_of_false
          · intro hsafe
            obtain ⟨result, hresult⟩ := hsafe.returns
            rw [hcall] at hresult
            cases hresult
          · exact fun hsome => hsome.elim nofun
        | some filesPdu =>
          rw [hpdu] at hcall
          apply iff_of_true
          · constructor
            · exact ⟨_, congrArg Prod.fst hcall⟩
            · rw [hcall]
              exact .inr ⟨files, isDir, rfl, rfl, hwalk, rfl, encodes_of_build hpdu⟩
            · intro e he
              rw [hcall] at he
              cases he
          · exact ⟨filesPdu, rfl⟩

end Calls

/-- A run of calls from the start keeps all fields together, never panics and leaves them alone where a call fails,
exactly if at every call the names that are walked fit. -/
theorem runs_safe_iff (w : Utf16String) (calls : List CacheCall) :
    RunMeets (step w) (Safe w) {} calls ↔ RunMeets (step w) (Fits w) {} calls :=
  runMeets_congr (I := Consistent w) (fun _ _ _ hsafe => hsafe.consistent) (fun _ c h => safe_iff h c)
    (.inl ⟨rfl, rfl, rfl, rfl⟩)

/-- A directory with a name of 200 characters. -/
def longDirectory : String := String.ofList (['/', 'r', '/'] ++ List.replicate 200 'd')

/-- The name of a file, of 100 characters. -/
def longName : String := String.ofList (List.replicate 100 'f')

/-- The directory, with the file in it. -/
def longSelection : SelectedPath where
  path := longDirectory
  stat := .ok ⟨4096, true, false, some 0, 0o755⟩
  walk :=
    .mk (.ok ⟨4096, true, false, some 0, 0o755⟩) (.ok ⟨4096, true, false, some 0, 0o755⟩)
      (.entry longName (.mk (.ok ⟨3, false, false, some 0, 0o644⟩) (.ok ⟨3, false, false, some 0, 0o644⟩) .done) .done)

theorem toList_longDirectory : longDirectory.toList = ['/', 'r', '/'] ++ replicate 200 'd' := String.toList_ofList

theorem toList_longFile : (pathJoin longDirectory longName).toList =
    ['/', 'r', '/'] ++ replicate 200 'd' ++ '/' :: replicate 100 'f' := by
  have hname : longName.toList = replicate 100 'f' := String.toList_ofList
  have hseparator : ("/" : String).toList = ['/'] := by decide
  rw [pathJoin, if_neg (by rw [hname]; decide), if_neg (by rw [toList_longDirectory]; decide),
    String.toList_append, String.toList_append, toList_longDirectory, hname, hseparator, append_assoc]
  rfl

/-- A directory with one file in it is listed with the file. -/
theorem walk_of_one_entry {relativeRoot path name : String} {directoryMt fileMt : FileMetadata}
    (hroot : pathParent path = some relativeRoot)
    (hnew : pathComponents (pathJoin path name).toList ∉ [pathComponents path.toList])
    (hdirectory : directoryMt.isDir = true) (hfile : fileMt.isDir = false) :
    ∃ directory file, constructFileList [(path, .mk (.ok directoryMt) (.ok directoryMt)
          (.entry name (.mk (.ok fileMt) (.ok fileMt) .done) .done))] = .ok [directory, file] ∧
        file.path = pathJoin path name ∧ file.relativeRoot = relativeRoot := by
  obtain ⟨directory, hopenedDirectory, -⟩ := tryOpen_ok relativeRoot path directoryMt
  obtain ⟨file, hopened, hpath, hrelative, -⟩ := tryOpen_ok relativeRoot (pathJoin path name) fileMt
  have hwalk : constrSelection relativeRoot [(path, .mk (.ok directoryMt) (.ok directoryMt)
      (.entry name (.mk (.ok fileMt) (.ok fileMt) .done) .done))] {} =
      .ok ⟨[directory, file], [pathComponents path.toList, pathComponents (pathJoin path name).toList]⟩ := by
    rw [constrSelection, constrFileLst_of_new not_mem_nil hopenedDirectory, if_pos hdirectory]
    dsimp only [nil_append]
    rw [constrEntries, constrFileLst_of_new hnew hopened, if_neg (hfile ▸ Bool.false_ne_true)]
    rfl
  exact ⟨directory, file, constructFileList_of_ok hroot hwalk, hpath, hrelative⟩

/-- The walk lists the directory and its file, whose path has 301 units below the parent of the directory. -/
theorem walk_longSelection : ∃ fileList, constructFileList [(longSelection.path, longSelection.walk)] = .ok fileList ∧
      ∃ file ∈ fileList, 520 < (standardUtf16.asBytes file.relativePath).length := by
  have hparent : pathParent longDirectory = some (String.ofList ['/', 'r']) := by
    rw [pathParent, toList_longDirectory]
    decide +kernel
  have hnew : pathComponents (pathJoin longDirectory longName).toList ∉ [pathComponents longDirectory.toList] := by
    rw [toList_longFile, toList_longDirectory]
    decide +kernel
  obtain ⟨directory, file, hlist, hpath, hroot⟩ := walk_of_one_entry hparent hnew
    (rfl : (⟨4096, true, false, some 0, 0o755⟩ : FileMetadata).isDir = true)
    (rfl : (⟨3, false, false, some 0, 0o644⟩ : FileMetadata).isDir = false)
  refine ⟨_, hlist, file, mem_cons_of_mem _ mem_cons_self, ?_⟩
  have hrelative : file.relativePath = replicate 200 'd' ++ '/' :: replicate 100 'f' := by
    rw [relativePath, hpath, hroot, toList_longFile, String.toList_ofList]
    decide +kernel
  rw [hrelative]
  decide +kernel

/-- The record of such a path panics. -/
theorem long_path_panics : ¬ ∀ w : Utf16String, w.Documented → ∀ calls, RunMeets (step w) (Safe w) {} calls := by
  intro h
  have hsafe := h standardUtf16 ⟨fun _ => rfl, fun _ => rfl⟩
    [.syncFiles [longSelection] fun path => decide (path = longDirectory)]
  have hfits := (safe_iff (.inl ⟨rfl, rfl, rfl, rfl⟩) _).mp hsafe.1
  obtain ⟨fileList, hlist, file, hfile, hlong⟩ := walk_longSelection
  have hle := hfits (fun hunchanged => nomatch hunchanged.1) fileList hlist file hfile
  exact absurd hlong (Nat.not_lt.mpr hle)

end ClipCache

end UnyDesk
