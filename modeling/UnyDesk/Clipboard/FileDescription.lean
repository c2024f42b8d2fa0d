import Mathlib.Algebra.Group.Int.Defs
import UnyDesk.Clipboard.FileContents
import UnyDesk.Lib.Utf16
import UnyDesk.Transfer.Path

/-!
# The list of the files on the clipboard

The side that has the files sends a count and one record of 592 bytes for each file. The other side checks
the length of the whole and takes the records off the front, one after the other.
-/

namespace UnyDesk

open Lib Utf16 List LocalFile LittleEndian

inductive FileType
  | file
  | directory
  | symlink
deriving DecidableEq

/-- A file of the peer. Times are nanoseconds after 1970. -/
structure FileDescription where
  connId : Int
  name : String
  kind : FileType
  atime : Int
  lastModified : Int
  lastMetadataChanged : Int
  creationTime : Int
  size : ℕ
  perm : ℕ
deriving DecidableEq

def flagsFdAttributes : ℕ := 0x04
def flagsFdSize : ℕ := 0x40
def flagsFdLastWrite : ℕ := 0x20
def flagsFdProgressui : ℕ := 0x4000
def flagsFdUnixMode : ℕ := 0x08
def ldapEpochDelta : ℕ := 116444772610000000

def permRead : ℕ := 0o444
def permRw : ℕ := 0o644
def permSelfRo : ℕ := 0o400
def permRwx : ℕ := 0o755

/-- The conversions between text and UTF-16 of the package `utf16string`. -/
structure Utf16String where
  /-- The bytes of `WString::from`. -/
  asBytes : List Char → Bytes
  /-- The text of `WStr::from_utf16le` and `to_utf8`, unless the bytes are refused. -/
  toUtf8 : Bytes → Option (List Char)

/-- The package does what it says: its strings are UTF-16, low byte first. -/
structure Utf16String.Documented (w : Utf16String) : Prop where
  asBytes : ∀ text, w.asBytes text = Utf16.encode text
  toUtf8 : ∀ bytes, w.toUtf8 bytes = Utf16.decode bytes

section Prefix

/-- The components of a path text. -/
def pathComponents (path : List Char) : List (List Char) :=
  rootMarker path ++ (if (segments path).head? = some ['.'] then [['.']] else []) ++
    (segments path).filter fun s => !skippedSegment s

/-- The text of some parts of a path. -/
def joinSegments (parts : List (List Char)) : List Char := List.intercalate ['/'] parts

/-- Without the parts at the end that the system passes over. -/
def trimSegments (parts : List (List Char)) : List (List Char) := (parts.reverse.dropWhile skippedSegment).reverse

/-- What follows the first named components. -/
def dropComponents : ℕ → List (List Char) → List (List Char)
  | 0, parts => parts.dropWhile skippedSegment
  | _ + 1, [] => []
  | n + 1, s :: parts => if skippedSegment s then dropComponents (n + 1) parts else dropComponents n parts

/-- `Path::strip_prefix`. -/
def stripPrefixPath (path base : List Char) : Option (List Char) :=
  if (pathComponents base).isPrefixOf (pathComponents path) then
    if pathComponents base = [] then
      match trimSegments (segments path) with
      | [] => some (path.take 1)
      | parts => some (joinSegments parts)
    else
      let named := ((segments base).filter fun s => !skippedSegment s).length
      some (joinSegments (trimSegments (dropComponents named (segments path))))
  else none

end Prefix

namespace LocalFile

/-- The path that is transmitted. -/
def relativePath (file : LocalFile) : List Char :=
  (stripPrefixPath file.path.toList file.relativeRoot.toList).getD file.path.toList

def fileAttributes (file : LocalFile) : ℕ :=
  let readOnlyFlag := if file.readOnly then 0x1 else 0
  let hiddenFlag := if file.hidden then 0x2 else 0
  let systemFlag := if file.system then 0x4 else 0
  let directoryFlag := if file.isDir then 0x10 else 0
  let archiveFlag := if file.archive then 0x20 else 0
  let normalFlag := if file.normal then 0x80 else 0
  readOnlyFlag ||| hiddenFlag ||| systemFlag ||| directoryFlag ||| archiveFlag ||| normalFlag

/-- The last write time in units of 100 ns since 1601. -/
def win32Time (file : LocalFile) : ℕ := file.lastWriteTime.toNat % 2 ^ 64 / 100 + ldapEpochDelta

/-- The record of a file; `none` for the panic at a name that does not fit. -/
def asBin (w : Utf16String) (file : LocalFile) : Option Bytes :=
  let sizeHigh := file.size >>> 32
  let sizeLow := file.size &&& 0xFFFFFFFF
  let name := w.asBytes file.relativePath
  let flags := flagsFdSize ||| flagsFdLastWrite ||| flagsFdAttributes ||| flagsFdProgressui ||| flagsFdUnixMode
  if 520 < name.length then none
  else
    some (put 4 flags ++ List.replicate 32 0 ++ put 4 file.fileAttributes ++
      List.replicate 12 0 ++ put 4 file.perm ++ put 8 file.win32Time ++
      put 4 sizeHigh ++ put 4 sizeLow ++ name ++ List.replicate (520 - name.length) 0)

end LocalFile

/-- `build_file_list_pdu`. -/
def ClipFiles.buildFileListPdu (w : Utf16String) (s : ClipFiles) : Option Bytes :=
  (s.fileList.mapM (LocalFile.asBin w)).map fun records => put 4 s.fileList.length ++ records.flatten

namespace FileDescription

/-- `trim_end_matches('\0')`. -/
def trimEndNul (text : List Char) : List Char := (text.reverse.dropWhile (· = '\x00')).reverse

/-- One record, and what follows it. -/
def parseFileDescriptor (w : Utf16String) (connId : Int) (bytes : Bytes) :
    Except CliprdrError FileDescription × Bytes :=
  let (flags, bytes) := get 4 bytes
  let bytes := bytes.drop 32
  let (attributes, bytes) := get 4 bytes
  let bytes := bytes.drop 12
  let (mode, bytes) := get 4 bytes
  let (lastWriteTime, bytes) := get 8 bytes
  let (fileSizeHigh, bytes) := get 4 bytes
  let (fileSizeLow, bytes) := get 4 bytes
  let block := bytes.take 520
  let bytes := bytes.drop 520
  match w.toUtf8 block with
  | none => (.error .conversionFailure, bytes)
  | some wstr =>
    let fromUnix := flags &&& flagsFdUnixMode ≠ 0
    let validAttributes := flags &&& flagsFdAttributes ≠ 0
    if ¬ validAttributes then (.error (.invalidRequest "file description must have valid attributes"), bytes)
    else
      let directory := attributes &&& 0x10 ≠ 0
      let normal := attributes = 0x80
      let hidden := attributes &&& 0x02 ≠ 0
      let readonly := attributes &&& 0x01 ≠ 0
      let perm :=
        if fromUnix then mode % 2 ^ 16
        else if normal then permRwx
        else if readonly then permRead
        else if hidden then permSelfRo
        else if directory then permRwx
        else permRw
      let kind := if directory then FileType.directory else .file
      let size := fileSizeHigh <<< 32 + fileSizeLow
      let validWriteTime := flags &&& flagsFdLastWrite ≠ 0
      let lastModified : Int :=
        if validWriteTime ∧ ldapEpochDelta ≤ lastWriteTime then ((lastWriteTime - ldapEpochDelta) * 100 % 2 ^ 64 : ℕ) else 0
      let name := wstr.map fun c => if c = '\\' then '/' else c
      (.ok
        { connId, name := String.ofList (trimEndNul name), kind, atime := lastModified, lastModified
          lastMetadataChanged := lastModified, creationTime := lastModified, size, perm }, bytes)

/-- The loop over the records. -/
def parseRecords (w : Utf16String) (connId : Int) : ℕ → Bytes → Except CliprdrError (List FileDescription)
  | 0, _ => .ok []
  | count + 1, bytes =>
    match parseFileDescriptor w connId bytes with
    | (.error e, _) => .error e
    | (.ok desc, bytes) => (parseRecords w connId count bytes).map (desc :: ·)

/-- `parse_file_descriptors`. -/
def parseFileDescriptors (w : Utf16String) (pdu : Bytes) (connId : Int) : Except CliprdrError (List FileDescription) :=
  if pdu.length < 4 then .error (.invalidRequest "file descriptor request with infficient length")
  else
    let (count, data) := get 4 pdu
    if data.length = 0 ∧ count = 0 then .ok []
    else if data.length ≠ 592 * count then
      .error (.invalidRequest "file descriptor request with invalid length")
    else parseRecords w connId count data

end FileDescription

/-- A file whose record has room for its values: the name is text without a backslash or a zero character
that fits, and the time lies between 1970 and 2554. -/
structure LocalFile.Transmittable (file : LocalFile) : Prop where
  backslash : '\\' ∉ file.relativePath
  nul : '\x00' ∉ file.relativePath
  name : (Utf16.encode file.relativePath).length ≤ 520
  size : file.size < 2 ^ 64
  sinceEpoch : 0 ≤ file.lastWriteTime
  time : file.lastWriteTime < 2 ^ 64

/-- What the other side makes of a file. -/
def LocalFile.described (file : LocalFile) (connId : Int) : FileDescription :=
  let lastModified := file.lastWriteTime / 100 * 100
  { connId, name := String.ofList file.relativePath, kind := if file.isDir then .directory else .file
    atime := lastModified, lastModified, lastMetadataChanged := lastModified, creationTime := lastModified
    size := file.size, perm := file.perm % 2 ^ 16 }

section RoundTrip

variable {w : Utf16String} {file : LocalFile} {text : List Char}

theorem drop_replicate_append {A : Type*} (n : ℕ) (a : A) (rest : List A) : (replicate n a ++ rest).drop n = rest :=
  drop_left' length_replicate

/-- The flag of a directory is independent of the others. -/
theorem fileAttributes_directory (file : LocalFile) :
    file.fileAttributes % 256 ^ 4 &&& 0x10 ≠ 0 ↔ file.isDir = true := by
  unfold fileAttributes
  generalize file.readOnly = readOnly, file.hidden = hidden, file.system = system, file.isDir = isDir,
    file.archive = archive, file.normal = normal
  revert readOnly hidden system isDir archive normal
  decide

/-- The two halves of a size give it back. -/
theorem size_of_halves {size : ℕ} (h : size < 2 ^ 64) :
    (size >>> 32 % 256 ^ 4) <<< 32 + (size &&& 0xFFFFFFFF) % 256 ^ 4 = size := by
  have hlow : size &&& 0xFFFFFFFF = size % 2 ^ 32 := Nat.and_two_pow_sub_one_eq_mod size 32
  rw [hlow, Nat.shiftRight_eq_div_pow, Nat.shiftLeft_eq]
  omega

/-- The time is given back up to 100 ns. -/
theorem time_of_win32Time (h : file.Transmittable) : ldapEpochDelta ≤ file.win32Time % 256 ^ 8 ∧
      (((file.win32Time % 256 ^ 8 - ldapEpochDelta) * 100 % 2 ^ 64 : ℕ) : Int) = file.lastWriteTime / 100 * 100 := by
  have hnonneg := h.sinceEpoch
  have hlt := h.time
  unfold win32Time ldapEpochDelta
  omega

/-- Text without zero characters is what is left of its padding. -/
theorem trimEndNul_append (h : '\x00' ∉ text) (n : ℕ) :
    FileDescription.trimEndNul (text ++ replicate n '\x00') = text := by
  have hpadding : (replicate n '\x00' ++ text.reverse).dropWhile (· = '\x00') =
      text.reverse.dropWhile (· = '\x00') := by
    induction n with
    | zero => rfl
    | succ n ih => rw [replicate_succ, cons_append, dropWhile_cons, if_pos (by decide), ih]
  have htext : text.reverse.dropWhile (· = '\x00') = text.reverse := by
    cases hreverse : text.reverse with
    | nil => rfl
    | cons c rest =>
      have hc : c ≠ '\x00' := by
        intro heq
        have hmem : c ∈ text := mem_reverse.mp (hreverse ▸ mem_cons_self)
        exact h (heq ▸ hmem)
      rw [dropWhile_cons, if_neg (by simpa using hc)]
  rw [FileDescription.trimEndNul, reverse_append, reverse_replicate, hpadding, htext, reverse_reverse]

/-- The block of a name is read back as the name and its padding. -/
theorem toUtf8_block (hw : w.Documented) (h : file.Transmittable) :
    ∃ n, w.toUtf8 (w.asBytes file.relativePath ++ replicate (520 - (w.asBytes file.relativePath).length) 0) =
      some (file.relativePath ++ replicate n '\x00') := by
  have hlength := Utf16.length_encode file.relativePath
  have hfits := h.name
  refine ⟨260 - (file.relativePath.flatMap Utf16.charUnits).length, ?_⟩
  have hpadding : 520 - (Utf16.encode file.relativePath).length =
      2 * (260 - (file.relativePath.flatMap Utf16.charUnits).length) := by omega
  have hnul : Utf16.decode (Utf16.encode (List.replicate (260 - (file.relativePath.flatMap Utf16.charUnits).length) '\x00')) =
      some (List.replicate (260 - (file.relativePath.flatMap Utf16.charUnits).length) '\x00') := by
    have hdecode := Utf16.decode_encode_append
      (List.replicate (260 - (file.relativePath.flatMap Utf16.charUnits).length) '\x00') []
    rw [List.append_nil] at hdecode
    rw [hdecode]
    simp [Utf16.decode, Utf16.units, Utf16.chars]
  rw [hw.asBytes, hw.toUtf8, hpadding, ← Utf16.encode_replicate_nul, Utf16.decode_encode_append, hnul]
  rfl

/-- A backslash is the only character that the reader replaces. -/
theorem map_separator (h : '\\' ∉ text) (n : ℕ) :
    (text ++ replicate n '\x00').map (fun c => if c = '\\' then '/' else c) = text ++ replicate n '\x00' := by
  have hid : ∀ c ∈ text ++ replicate n '\x00', (if c = '\\' then '/' else c) = c := by
    intro c hc
    rcases mem_append.mp hc with hc | hc
    · exact if_neg fun heq : c = '\\' => h (heq ▸ hc)
    · rw [(mem_replicate.mp hc).2]
      rfl
  exact (map_congr_left hid).trans (map_id _)

/-- A record has 592 bytes and is read back, whatever follows. -/
theorem asBin_spec (hw : w.Documented) (h : file.Transmittable) :
    ∃ bytes, file.asBin w = some bytes ∧ bytes.length = 592 ∧ ∀ connId rest,
      FileDescription.parseFileDescriptor w connId (bytes ++ rest) = (.ok (file.described connId), rest) := by
  have hfits : (w.asBytes file.relativePath).length ≤ 520 := hw.asBytes file.relativePath ▸ h.name
  obtain ⟨n, hblock⟩ := toUtf8_block hw h
  refine ⟨_, by rw [asBin, if_neg (Nat.not_lt.mpr hfits)], ?_, fun connId rest => ?_⟩
  · simp only [length_append, length_put, length_replicate]
    omega
  · have hlength : (w.asBytes file.relativePath ++
        replicate (520 - (w.asBytes file.relativePath).length) 0).length = 520 := by
      rw [length_append, length_replicate]
      omega
    have hperm : file.perm % 256 ^ 4 % 2 ^ 16 = file.perm % 2 ^ 16 := Nat.mod_mod_of_dvd _ (by decide)
    obtain ⟨htime, hvalue⟩ := time_of_win32Time h
    simp only [FileDescription.parseFileDescriptor, append_assoc, get_put_append, drop_replicate_append]
    rw [← append_assoc (w.asBytes file.relativePath), take_left' hlength, drop_left' hlength, hblock]
    have hunix : (flagsFdSize ||| flagsFdLastWrite ||| flagsFdAttributes ||| flagsFdProgressui ||| flagsFdUnixMode) %
        256 ^ 4 &&& flagsFdUnixMode ≠ 0 := by decide
    have hattributes : (flagsFdSize ||| flagsFdLastWrite ||| flagsFdAttributes ||| flagsFdProgressui |||
        flagsFdUnixMode) % 256 ^ 4 &&& flagsFdAttributes ≠ 0 := by decide
    have hlastWrite : (flagsFdSize ||| flagsFdLastWrite ||| flagsFdAttributes ||| flagsFdProgressui |||
        flagsFdUnixMode) % 256 ^ 4 &&& flagsFdLastWrite ≠ 0 := by decide
    simp only [hunix, hattributes, hlastWrite, fileAttributes_directory, size_of_halves h.size, htime, hvalue, hperm,
      map_separator h.backslash, trimEndNul_append h.nul, ne_eq, not_true_eq_false, not_false_eq_true, if_false, if_true,
      true_and, described]

/-- The records of a list are read back one after the other. -/
theorem parseRecords_spec (hw : w.Documented) {files : List LocalFile} (h : ∀ file ∈ files, file.Transmittable) :
    ∃ records, files.mapM (asBin w) = some records ∧ (∀ bytes ∈ records, bytes.length = 592) ∧
      records.flatten.length = 592 * files.length ∧
      ∀ connId, FileDescription.parseRecords w connId files.length records.flatten =
        .ok (files.map fun file => file.described connId) := by
  induction files with
  | nil => exact ⟨[], rfl, by simp, rfl, fun _ => rfl⟩
  | cons file files ih =>
    obtain ⟨bytes, hbytes, hlength, hparse⟩ := asBin_spec hw (h file mem_cons_self)
    obtain ⟨records, hrecords, hlengths, htotal, hrest⟩ := ih fun file hfile => h file (mem_cons_of_mem _ hfile)
    refine ⟨bytes :: records, ?_, fun r hr => ?_, ?_, fun connId => ?_⟩
    · rw [mapM_cons, hbytes, hrecords]
      rfl
    · rcases mem_cons.mp hr with rfl | hr
      · exact hlength
      · exact hlengths r hr
    · rw [flatten_cons, length_append, hlength, htotal, length_cons]
      omega
    · rw [flatten_cons, length_cons, FileDescription.parseRecords, hparse, map_cons]
      dsimp only
      rw [hrest]
      rfl

end RoundTrip

/-- The list of the files arrives as it was sent: in order, with names, sizes, kinds, the lower permission
bits and the times up to 100 ns. -/
theorem parse_buildFileListPdu {w : Utf16String} (hw : w.Documented) (s : ClipFiles)
    (hfiles : ∀ file ∈ s.fileList, file.Transmittable) (hcount : s.fileList.length < 2 ^ 32) (connId : Int) :
    ∃ records pdu, s.fileList.mapM (LocalFile.asBin w) = some records ∧ (∀ bytes ∈ records, bytes.length = 592) ∧
      s.buildFileListPdu w = some pdu ∧ pdu.length = 4 + 592 * s.fileList.length ∧
      FileDescription.parseFileDescriptors w pdu connId = .ok (s.fileList.map fun file => file.described connId) := by
  obtain ⟨records, hrecords, hlengths, htotal, hparse⟩ := parseRecords_spec hw hfiles
  have hbuild : s.buildFileListPdu w = some (put 4 s.fileList.length ++ records.flatten) := by
    rw [ClipFiles.buildFileListPdu, hrecords]
    rfl
  have hmod : s.fileList.length % 256 ^ 4 = s.fileList.length := Nat.mod_eq_of_lt hcount
  have hlength : (put 4 s.fileList.length ++ records.flatten).length = 4 + 592 * s.fileList.length := by
    rw [List.length_append, length_put, htotal]
  refine ⟨records, _, hrecords, hlengths, hbuild, hlength, ?_⟩
  have hlong : ¬ (put 4 s.fileList.length ++ records.flatten).length < 4 := by omega
  rw [FileDescription.parseFileDescriptors, if_neg hlong, get_put_append, hmod]
  dsimp only
  rw [htotal]
  split
  next hempty =>
    have hnil : s.fileList = [] := List.eq_nil_of_length_eq_zero hempty.2
    rw [hnil]
    rfl
  next =>
    rw [if_neg (not_not.mpr rfl)]
    exact hparse connId

/-- UTF-16 as the standard has it. -/
def standardUtf16 : Utf16String := ⟨Utf16.encode, Utf16.decode⟩

/-- A directory of two entries, one with a character outside the basic plane. -/
def copiedFiles : ClipFiles where
  fileList :=
    [{ relativeRoot := "/home/a", path := "/home/a/b", handle := none, offset := 0, size := 4096, lastWriteTime := 1234567890
       isDir := true, perm := 0o40755, readOnly := false, hidden := false, system := false, archive := false
       normal := false },
     { relativeRoot := "/home/a", path := "/home/a/b/😀.txt", handle := none, offset := 0, size := 2 ^ 32 + 1
       lastWriteTime := 2 ^ 63, isDir := false, perm := 0o100644, readOnly := false, hidden := false, system := false
       archive := false, normal := true }]
  firstFileIndex := 1

theorem parse_buildFileListPdu_copiedFiles :
    ∃ pdu, copiedFiles.buildFileListPdu standardUtf16 = some pdu ∧ pdu.length = 1188 ∧
      (FileDescription.parseFileDescriptors standardUtf16 pdu 7).map (fun files => files.map (·.name)) =
        .ok ["b", "b/😀.txt"] := by
  have hdocumented : standardUtf16.Documented := ⟨fun _ => rfl, fun _ => rfl⟩
  have hfiles : ∀ file ∈ copiedFiles.fileList, file.Transmittable := by
    intro file hfile
    rw [copiedFiles, List.mem_pair] at hfile
    rcases hfile with rfl | rfl
    · exact ⟨by decide, by decide, by decide, by decide, by decide, by decide⟩
    · exact ⟨by decide, by decide, by decide, by decide, by decide, by decide⟩
  obtain ⟨records, pdu, -, -, hpdu, hlength, hparse⟩ :=
    parse_buildFileListPdu hdocumented copiedFiles hfiles (by decide) 7
  exact ⟨pdu, hpdu, hlength, by rw [hparse]; decide⟩

end UnyDesk
