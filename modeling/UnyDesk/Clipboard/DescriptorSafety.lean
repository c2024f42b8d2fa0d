import UnyDesk.Clipboard.FileDescription

/-!
# Lists of files that a peer makes up

A peer may send any bytes for the list of its files. Every read of the parser is checked here, and so is its
arithmetic: a step that the source would panic at has no result. The length of the list leaves only the
time of the last write to go wrong.
-/

namespace UnyDesk

open Lib LittleEndian Option List

namespace FileDescription

/-- A product of `u64`s. -/
def checkedMul (a b : ℕ) : Option ℕ := if a * b < 2 ^ 64 then some (a * b) else none

/-- A difference of `u64`s. -/
def checkedSub (a b : ℕ) : Option ℕ := if b ≤ a then some (a - b) else none

/-- `SystemTime::UNIX_EPOCH + Duration::from_nanos(nanos)`: the seconds of a time are an `i64`. -/
def checkedSystemTime (nanos : ℕ) : Option Int := if nanos / 1000000000 < 2 ^ 63 then some (nanos : Int) else none

/-- The time of the last write. -/
def checkedWriteTime (flags lastWriteTime : ℕ) : Option Int :=
  if flags &&& flagsFdLastWrite ≠ 0 ∧ ldapEpochDelta ≤ lastWriteTime then do
    let lastWriteTime ← checkedSub lastWriteTime ldapEpochDelta
    let nanos ← checkedMul lastWriteTime 100
    checkedSystemTime nanos
  else some 0

/-- What is read of a record before anything is looked at. -/
structure RawDescriptor where
  flags : ℕ
  attributes : ℕ
  mode : ℕ
  lastWriteTime : ℕ
  fileSizeHigh : ℕ
  fileSizeLow : ℕ
  block : Bytes

/-- The reads at the start of `parse_file_descriptor`. -/
def checkedFields (bytes : Bytes) : Option (RawDescriptor × Bytes) := do
  let (flags, bytes) ← LittleEndian.get? 4 bytes
  let bytes ← LittleEndian.skip? 32 bytes
  let (attributes, bytes) ← LittleEndian.get? 4 bytes
  let bytes ← LittleEndian.skip? 12 bytes
  let (mode, bytes) ← LittleEndian.get? 4 bytes
  let (lastWriteTime, bytes) ← LittleEndian.get? 8 bytes
  let (fileSizeHigh, bytes) ← LittleEndian.get? 4 bytes
  let (fileSizeLow, bytes) ← LittleEndian.get? 4 bytes
  -- the slice `[..520]` of the block fails where this step does
  let block := bytes.take 520
  let bytes ← LittleEndian.skip? 520 bytes
  some ({ flags, attributes, mode, lastWriteTime, fileSizeHigh, fileSizeLow, block }, bytes)

/-- `parse_file_descriptor`; `none` for a panic. -/
def checkedFileDescriptor (w : Utf16String) (connId : Int) (bytes : Bytes) :
    Option (Except CliprdrError FileDescription × Bytes) := do
  let (raw, bytes) ← checkedFields bytes
  match w.toUtf8 raw.block with
  | none => some (.error .conversionFailure, bytes)
  | some wstr =>
    let fromUnix := raw.flags &&& flagsFdUnixMode ≠ 0
    let validAttributes := raw.flags &&& flagsFdAttributes ≠ 0
    if ¬ validAttributes then some (.error (.invalidRequest "file description must have valid attributes"), bytes)
    else
      let directory := raw.attributes &&& 0x10 ≠ 0
      let normal := raw.attributes = 0x80
      let hidden := raw.attributes &&& 0x02 ≠ 0
      let readonly := raw.attributes &&& 0x01 ≠ 0
      let perm :=
        if fromUnix then raw.mode % 2 ^ 16
        else if normal then permRwx
        else if readonly then permRead
        else if hidden then permSelfRo
        else if directory then permRwx
        else permRw
      let kind := if directory then FileType.directory else .file
      let size := raw.fileSizeHigh <<< 32 + raw.fileSizeLow
      let lastModified ← checkedWriteTime raw.flags raw.lastWriteTime
      let name := wstr.map fun c => if c = '\\' then '/' else c
      some (.ok
        { connId, name := String.ofList (trimEndNul name), kind, atime := lastModified, lastModified
          lastMetadataChanged := lastModified, creationTime := lastModified, size, perm }, bytes)

/-- The loop over the records. -/
def checkedRecords (w : Utf16String) (connId : Int) : ℕ → Bytes → Option (Except CliprdrError (List FileDescription))
  | 0, _ => some (.ok [])
  | count + 1, bytes =>
    match checkedFileDescriptor w connId bytes with
    | none => none
    | some (.error e, _) => some (.error e)
    | some (.ok desc, bytes) => (checkedRecords w connId count bytes).map fun files => files.map (desc :: ·)

/-- `parse_file_descriptors`; `none` for a panic. -/
def checkedFileDescriptors (w : Utf16String) (pdu : Bytes) (connId : Int) :
    Option (Except CliprdrError (List FileDescription)) :=
  if pdu.length < 4 then some (.error (.invalidRequest "file descriptor request with infficient length"))
  else do
    let (count, data) ← LittleEndian.get? 4 pdu
    if data.length = 0 ∧ count = 0 then some (.ok [])
    else
      let total ← checkedMul 592 count
      if data.length ≠ total then some (.error (.invalidRequest "file descriptor request with invalid length"))
      else checkedRecords w connId count data

/-- The fields of a record at their places. -/
def rawDescriptor (bytes : Bytes) : RawDescriptor where
  flags := LittleEndian.value (bytes.take 4)
  attributes := LittleEndian.value ((bytes.drop 36).take 4)
  mode := LittleEndian.value ((bytes.drop 52).take 4)
  lastWriteTime := LittleEndian.value ((bytes.drop 56).take 8)
  fileSizeHigh := LittleEndian.value ((bytes.drop 64).take 4)
  fileSizeLow := LittleEndian.value ((bytes.drop 68).take 4)
  block := (bytes.drop 72).take 520

/-- A record that is not refused: its name is UTF-16, and it says that it has attributes. -/
structure RawDescriptor.Accepted (raw : RawDescriptor) (w : Utf16String) : Prop where
  name : (w.toUtf8 raw.block).isSome
  attributes : raw.flags &&& flagsFdAttributes ≠ 0

/-- The last time whose nanoseconds after 1970 are a `u64`: the number is the last one whose product with 100
is below `2 ^ 64`. -/
def lastWriteLimit : ℕ := ldapEpochDelta + 184467440737095516

/-- The time of the last write, where a record has it, can be kept. -/
def RawDescriptor.TimeFits (raw : RawDescriptor) : Prop :=
  raw.flags &&& flagsFdLastWrite ≠ 0 → raw.lastWriteTime ≤ lastWriteLimit

section Record

variable {w : Utf16String} {connId : Int} {bytes : Bytes} {epoch time flags lastWriteTime : ℕ}

theorem product_lt_iff (h : epoch ≤ time) :
    (time - epoch) * 100 < 2 ^ 64 ↔ time ≤ epoch + 184467440737095516 := by omega

/-- The seconds of a `u64` of nanoseconds are an `i64`. -/
theorem seconds_lt {nanos : ℕ} (h : nanos < 2 ^ 64) : nanos / 1000000000 < 2 ^ 63 := by omega

theorem checkedTime_of_lt (hepoch : epoch ≤ time) (h : (time - epoch) * 100 < 2 ^ 64) : (do
      let time ← checkedSub time epoch
      let nanos ← checkedMul time 100
      checkedSystemTime nanos) = some (((time - epoch) * 100 % 2 ^ 64 : ℕ) : Int) := by
  have hseconds := seconds_lt h
  simp only [checkedSub, if_pos hepoch, bind_eq_bind, bind_some, checkedMul, if_pos h, checkedSystemTime,
    if_pos hseconds, Nat.mod_eq_of_lt h]

theorem checkedTime_of_not_lt (hepoch : epoch ≤ time) (h : ¬ (time - epoch) * 100 < 2 ^ 64) : (do
      let time ← checkedSub time epoch
      let nanos ← checkedMul time 100
      checkedSystemTime nanos) = none := by
  simp only [checkedSub, if_pos hepoch, bind_eq_bind, bind_some, checkedMul, if_neg h, bind_none]

/-- The arithmetic goes well unless a product is no `u64`. -/
theorem checkedWriteTime_of_fits (h : flags &&& flagsFdLastWrite ≠ 0 → lastWriteTime ≤ lastWriteLimit) :
    checkedWriteTime flags lastWriteTime = some (if flags &&& flagsFdLastWrite ≠ 0 ∧ ldapEpochDelta ≤ lastWriteTime then
      (((lastWriteTime - ldapEpochDelta) * 100 % 2 ^ 64 : ℕ) : Int) else 0) := by
  unfold checkedWriteTime
  split
  next hvalid => exact checkedTime_of_lt hvalid.2 ((product_lt_iff hvalid.2).mpr (h hvalid.1))
  next => rfl

theorem checkedWriteTime_of_late (h : ¬ (flags &&& flagsFdLastWrite ≠ 0 → lastWriteTime ≤ lastWriteLimit)) :
    checkedWriteTime flags lastWriteTime = none := by
  obtain ⟨hwrite, hlate⟩ := Classical.not_imp.mp h
  have hepoch : ldapEpochDelta ≤ lastWriteTime :=
    Nat.le_trans (Nat.le_add_right ldapEpochDelta _) (Nat.le_of_not_le hlate)
  rw [checkedWriteTime, if_pos ⟨hwrite, hepoch⟩]
  exact checkedTime_of_not_lt hepoch (mt (product_lt_iff hepoch).mp hlate)

/-- A whole record has all its fields. -/
theorem checkedFields_of_le (h : 592 ≤ bytes.length) :
    checkedFields bytes = some (rawDescriptor bytes, bytes.drop 592) := by
  rw [checkedFields, get?_of_le (by omega), rawDescriptor]
  simp (disch := omega) only [get?_drop, skip?_drop, bind_eq_bind, bind_some, Nat.reduceAdd]

theorem parseFileDescriptor_snd : (parseFileDescriptor w connId bytes).2 = bytes.drop 592 := by
  simp only [parseFileDescriptor, LittleEndian.get, drop_drop, Nat.reduceAdd]
  split
  · rfl
  · split <;> rfl

/-- A record is read exactly when it is not refused. -/
theorem accepted_iff :
    (rawDescriptor bytes).Accepted w ↔ ∃ desc, (parseFileDescriptor w connId bytes).1 = .ok desc := by
  simp only [parseFileDescriptor, LittleEndian.get, drop_drop, Nat.reduceAdd]
  constructor
  · intro h
    obtain ⟨wstr, hname⟩ := isSome_iff_exists.mp h.name
    simp only [rawDescriptor] at hname
    have hattributes := h.attributes
    simp only [rawDescriptor] at hattributes
    rw [hname]
    dsimp only
    rw [if_neg (not_not.mpr hattributes)]
    exact ⟨_, rfl⟩
  · intro h
    obtain ⟨desc, hdesc⟩ := h
    split at hdesc
    next => cases hdesc
    next wstr hname =>
      split at hdesc
      next => cases hdesc
      next hattributes => exact ⟨isSome_iff_exists.mpr ⟨wstr, hname⟩, not_not.mp hattributes⟩

/-- A whole record is read without a panic, unless it is accepted and its time does not fit. -/
theorem checkedFileDescriptor_of_fits (h : 592 ≤ bytes.length)
    (hfits : (rawDescriptor bytes).Accepted w → (rawDescriptor bytes).TimeFits) :
    checkedFileDescriptor w connId bytes = some (parseFileDescriptor w connId bytes) := by
  rw [checkedFileDescriptor, checkedFields_of_le h]
  simp only [parseFileDescriptor, LittleEndian.get, drop_drop, Nat.reduceAdd, bind_eq_bind, bind_some]
  cases hname : w.toUtf8 (rawDescriptor bytes).block with
  | none =>
    simp only [rawDescriptor] at hname
    rw [hname]
  | some wstr =>
    have hsome : (w.toUtf8 (rawDescriptor bytes).block).isSome := isSome_iff_exists.mpr ⟨wstr, hname⟩
    simp only [rawDescriptor] at hname
    rw [hname]
    dsimp only
    split
    next hrefused => exact (congrArg some (if_pos hrefused)).symm
    next hattributes =>
      have htime := checkedWriteTime_of_fits (hfits ⟨hsome, not_not.mp hattributes⟩)
      rw [htime]
      exact (congrArg some (if_neg hattributes)).symm

theorem checkedFileDescriptor_of_late (h : 592 ≤ bytes.length) (haccepted : (rawDescriptor bytes).Accepted w)
    (hlate : ¬ (rawDescriptor bytes).TimeFits) : checkedFileDescriptor w connId bytes = none := by
  obtain ⟨wstr, hname⟩ := isSome_iff_exists.mp haccepted.name
  rw [checkedFileDescriptor, checkedFields_of_le h]
  simp only [bind_eq_bind, bind_some, hname]
  rw [if_neg (not_not.mpr haccepted.attributes), checkedWriteTime_of_late hlate, bind_none]

end Record

/-- The record of a list at an index. -/
def recordAt (data : Bytes) (i : ℕ) : RawDescriptor := rawDescriptor (data.drop (592 * i))

/-- Every record whose predecessors and itself are accepted has a time that can be kept. -/
def TimesFit (w : Utf16String) (count : ℕ) (data : Bytes) : Prop :=
  ∀ i < count, (∀ j ≤ i, (recordAt data j).Accepted w) → (recordAt data i).TimeFits

/-- The count in the header. -/
def headerCount (pdu : Bytes) : ℕ := LittleEndian.value (pdu.take 4)

/-- A list whose length agrees with its count has no time that is too late, up to the first record that is
refused. -/
def PduFits (w : Utf16String) (pdu : Bytes) : Prop :=
  pdu.length = 4 + 592 * headerCount pdu → TimesFit w (headerCount pdu) (pdu.drop 4)

section Records

variable {w : Utf16String} {connId : Int} {data : Bytes} {count : ℕ} {pdu : Bytes} {files : List FileDescription}

theorem recordAt_succ (data : Bytes) (i : ℕ) : recordAt data (i + 1) = recordAt (data.drop 592) i := by
  have hindex : 592 * (i + 1) = 592 + 592 * i := by omega
  rw [recordAt, recordAt, drop_drop, hindex]

/-- The times of a list, from its first record. -/
theorem timesFit_succ : TimesFit w (count + 1) data ↔ ((rawDescriptor data).Accepted w →
      (rawDescriptor data).TimeFits ∧ TimesFit w count (data.drop 592)) := by
  constructor
  · intro h haccepted
    constructor
    · apply h 0 (Nat.succ_pos count)
      intro j hj
      rw [Nat.le_zero.mp hj]
      exact haccepted
    · intro i hi hrecords
      rw [← recordAt_succ]
      apply h (i + 1) (Nat.succ_lt_succ hi)
      intro j hj
      cases j with
      | zero => exact haccepted
      | succ j =>
        rw [recordAt_succ]
        exact hrecords j (Nat.le_of_succ_le_succ hj)
  · intro h i hi hrecords
    have hfirst := h (hrecords 0 (Nat.zero_le i))
    cases i with
    | zero => exact hfirst.1
    | succ i =>
      rw [recordAt_succ]
      apply hfirst.2 i (Nat.lt_of_succ_lt_succ hi)
      intro j hj
      rw [← recordAt_succ]
      exact hrecords (j + 1) (Nat.succ_le_succ hj)

/-- Checked or not, records whose times fit are read alike. -/
theorem checkedRecords_of_fits (hlength : 592 * count ≤ data.length)
    (h : TimesFit w count data) : checkedRecords w connId count data = some (parseRecords w connId count data) := by
  induction count generalizing data with
  | zero => rfl
  | succ count ih =>
    rw [timesFit_succ] at h
    have hrest : 592 * count ≤ (data.drop 592).length := by
      rw [length_drop]
      omega
    have hfirst : checkedFileDescriptor w connId data = some (parseFileDescriptor w connId data) :=
      checkedFileDescriptor_of_fits (by omega) fun ha => (h ha).1
    have hsnd : (parseFileDescriptor w connId data).2 = data.drop 592 := parseFileDescriptor_snd
    rw [checkedRecords, parseRecords, hfirst]
    generalize hrecord : parseFileDescriptor w connId data = record at hsnd
    obtain ⟨result, rest⟩ := record
    cases result with
    | error e => rfl
    | ok desc =>
      have haccepted : (rawDescriptor data).Accepted w := accepted_iff.mpr ⟨desc, congrArg Prod.fst hrecord⟩
      dsimp only at hsnd ⊢
      rw [hsnd, ih hrest (h haccepted).2]
      rfl

/-- A time that does not fit ends the reading with a panic. -/
theorem checkedRecords_of_late (hlength : 592 * count ≤ data.length)
    (h : ¬ TimesFit w count data) : checkedRecords w connId count data = none := by
  induction count generalizing data with
  | zero => exact absurd (fun i hi => absurd hi (Nat.not_lt_zero i)) h
  | succ count ih =>
    rw [timesFit_succ] at h
    obtain ⟨haccepted, hlate⟩ := Classical.not_imp.mp h
    have hrest : 592 * count ≤ (data.drop 592).length := by
      rw [length_drop]
      omega
    rw [checkedRecords]
    by_cases hfits : (rawDescriptor data).TimeFits
    · have hsnd : (parseFileDescriptor w connId data).2 = data.drop 592 := parseFileDescriptor_snd
      have hread : ∃ desc, (parseFileDescriptor w connId data).1 = .ok desc := accepted_iff.mp haccepted
      obtain ⟨desc, hdesc⟩ := hread
      rw [checkedFileDescriptor_of_fits (by omega : 592 ≤ data.length) fun _ => hfits]
      generalize parseFileDescriptor w connId data = record at hsnd hdesc
      obtain ⟨result, rest⟩ := record
      dsimp only at hsnd hdesc
      rw [hdesc, hsnd]
      dsimp only
      rw [ih hrest fun hlater => hlate ⟨hfits, hlater⟩]
      rfl
    · rw [checkedFileDescriptor_of_late (by omega : 592 ≤ data.length) haccepted hfits]

/-- As many records are read as were asked for. -/
theorem length_of_parseRecords (h : parseRecords w connId count data = .ok files) : files.length = count := by
  induction count generalizing data files with
  | zero =>
    cases h
    rfl
  | succ count ih =>
    rw [parseRecords] at h
    split at h
    next => cases h
    next desc rest _ =>
      cases hrest : parseRecords w connId count rest with
      | error e =>
        rw [hrest] at h
        cases h
      | ok later =>
        rw [hrest] at h
        cases h
        rw [length_cons, ih hrest]

theorem value_take_lt (bytes : Bytes) (width : ℕ) : value (bytes.take width) < 256 ^ width := by
  induction width generalizing bytes with
  | zero => exact Nat.one_pos
  | succ width ih =>
    cases bytes with
    | nil => exact Nat.pow_pos (by decide)
    | cons b bytes =>
      have hrest := ih bytes
      have hb : b.toNat < 256 := b.toNat_lt
      rw [take_succ_cons, value, Nat.pow_succ']
      omega

theorem get_header (pdu : Bytes) : get 4 pdu = (headerCount pdu, pdu.drop 4) := rfl

theorem get?_header (h : 4 ≤ pdu.length) : get? 4 pdu = some (headerCount pdu, pdu.drop 4) := get?_of_le h

/-- The length that is asked for is a `usize`. -/
theorem checkedMul_header (pdu : Bytes) : checkedMul 592 (headerCount pdu) = some (592 * headerCount pdu) := by
  have hword := value_take_lt pdu 4
  apply if_pos
  unfold headerCount
  omega

/-- Without a panic a list is read as before, and has as many files as its header says. -/
theorem checkedFileDescriptors_of_fits (h : PduFits w pdu) :
    checkedFileDescriptors w pdu connId = some (parseFileDescriptors w pdu connId) := by
  rw [checkedFileDescriptors, parseFileDescriptors]
  split
  next => rfl
  next hlong =>
    have hdata : (pdu.drop 4).length = pdu.length - 4 := length_drop
    rw [get?_header (Nat.not_lt.mp hlong), get_header]
    simp only [bind_eq_bind, bind_some, checkedMul_header]
    split
    next => rfl
    next =>
      split
      next => rfl
      next hlength =>
        have htotal := not_not.mp hlength
        exact checkedRecords_of_fits (Nat.le_of_eq htotal.symm) (h (by omega))

theorem checkedFileDescriptors_of_late (h : ¬ PduFits w pdu) : checkedFileDescriptors w pdu connId = none := by
  obtain ⟨hlength, hlate⟩ := Classical.not_imp.mp h
  have hdata : (pdu.drop 4).length = 592 * headerCount pdu := by
    rw [length_drop]
    omega
  have hsome : headerCount pdu ≠ 0 := by
    intro hzero
    apply hlate
    intro i hi
    rw [hzero] at hi
    exact absurd hi (Nat.not_lt_zero i)
  rw [checkedFileDescriptors, if_neg (by omega), get?_header (by omega)]
  simp only [bind_eq_bind, bind_some, checkedMul_header]
  rw [if_neg fun hempty => hsome hempty.2, if_neg (not_not.mpr hdata)]
  exact checkedRecords_of_late (Nat.le_of_eq hdata.symm) hlate

theorem length_of_parseFileDescriptors
    (h : parseFileDescriptors w pdu connId = .ok files) : files.length = headerCount pdu := by
  rw [parseFileDescriptors] at h
  split at h
  next => cases h
  next =>
    rw [LittleEndian.get] at h
    dsimp only at h
    split at h
    next hempty =>
      cases h
      exact hempty.2.symm
    next =>
      split at h
      next => cases h
      next => exact length_of_parseRecords h

end Records

/-- The parser comes back, and with as many files as the header says, for the lists whose times fit and for no
others. -/
theorem parse_returns_iff (w : Utf16String) (pdu : Bytes) (connId : Int) :
    (∃ result, checkedFileDescriptors w pdu connId = some result ∧
      ∀ files, result = .ok files → files.length = headerCount pdu) ↔ PduFits w pdu := by
  constructor
  · intro h
    obtain ⟨result, hresult, -⟩ := h
    by_contra hlate
    rw [checkedFileDescriptors_of_late hlate] at hresult
    cases hresult
  · intro h
    exact ⟨_, checkedFileDescriptors_of_fits h, fun files hfiles => length_of_parseFileDescriptors hfiles⟩

/-- A list of one file that was last written at the end of time. -/
def latePdu : Bytes :=
  LittleEndian.put 4 1 ++ LittleEndian.put 4 (flagsFdAttributes ||| flagsFdLastWrite) ++ List.replicate 52 0 ++
    LittleEndian.put 8 (2 ^ 64 - 1) ++ List.replicate 528 0

theorem parse_latePdu_panics :
    ¬ ∀ w : Utf16String, w.Documented → ∀ pdu connId, ∃ result, checkedFileDescriptors w pdu connId = some result ∧
      ∀ files, result = .ok files → files.length = headerCount pdu := by
  intro h
  obtain ⟨result, hresult, -⟩ := h standardUtf16 ⟨fun _ => rfl, fun _ => rfl⟩ latePdu 0
  have hpanic : checkedFileDescriptors standardUtf16 latePdu 0 = none := by decide +kernel
  rw [hpanic] at hresult
  cases hresult

end FileDescription

end UnyDesk
