import UnyDesk.Lib.LittleEndian

/-!
# UTF-16 text as bytes, low byte first

A character below 2¹⁶ is one unit, another one is a pair of surrogates. A reader takes units of two bytes
and accepts surrogates in pairs only. It gives back the text that was written.
-/

namespace UnyDesk.Lib.Utf16

open List LittleEndian

/-- The units of a character. -/
def charUnits (c : Char) : List ℕ :=
  if c.toNat < 0x10000 then [c.toNat]
  else [0xD800 + (c.toNat - 0x10000) / 0x400, 0xDC00 + (c.toNat - 0x10000) % 0x400]

/-- The bytes of some units. -/
def unitBytes (units : List ℕ) : List UInt8 := units.flatMap (LittleEndian.put 2)

/-- The bytes of a text. -/
def encode (text : List Char) : List UInt8 := unitBytes (text.flatMap charUnits)

def isHighSurrogate (u : ℕ) : Bool := 0xD800 ≤ u && u ≤ 0xDBFF

def isLowSurrogate (u : ℕ) : Bool := 0xDC00 ≤ u && u ≤ 0xDFFF

/-- The units of some bytes, when no byte is left over. -/
def units : List UInt8 → Option (List ℕ)
  | [] => some []
  | [_] => none
  | low :: high :: bytes => (units bytes).map (LittleEndian.value [low, high] :: ·)

/-- The characters of some units, when all surrogates stand in pairs. -/
def chars : List ℕ → Option (List Char)
  | [] => some []
  | u :: rest =>
    if isHighSurrogate u then
      match rest with
      | v :: rest =>
        if isLowSurrogate v then
          (chars rest).map (Char.ofNat (0x10000 + (u - 0xD800) * 0x400 + (v - 0xDC00)) :: ·)
        else none
      | [] => none
    else if isLowSurrogate u then none
    else (chars rest).map (Char.ofNat u :: ·)

/-- The text of some bytes, when they are well formed. -/
def decode (bytes : List UInt8) : Option (List Char) := (units bytes).bind chars

section RoundTrip

variable {us : List ℕ} {bytes : List UInt8}

/-- A character is no surrogate. -/
theorem toNat_char (c : Char) : c.toNat < 0xD800 ∨ 0xDFFF < c.toNat ∧ c.toNat < 0x110000 := c.valid

theorem charUnits_lt (c : Char) : ∀ u ∈ charUnits c, u < 0x10000 := by
  have hc := toNat_char c
  intro u hu
  unfold charUnits at hu
  split at hu
  next h => exact mem_singleton.mp hu ▸ h
  next h =>
    simp only [mem_cons, not_mem_nil, or_false] at hu
    omega

/-- The units of a character are read back as the character. -/
theorem chars_charUnits_append (c : Char) (us : List ℕ) : chars (charUnits c ++ us) = (chars us).map (c :: ·) := by
  have hc := toNat_char c
  unfold charUnits
  split
  next h =>
    have hhigh : isHighSurrogate c.toNat = false := by
      simp only [isHighSurrogate, Bool.and_eq_false_iff, decide_eq_false_iff_not]
      omega
    have hlow : isLowSurrogate c.toNat = false := by
      simp only [isLowSurrogate, Bool.and_eq_false_iff, decide_eq_false_iff_not]
      omega
    rw [cons_append, nil_append, chars.eq_def]
    simp only [hhigh, hlow, Bool.false_eq_true, if_false, Char.ofNat_toNat]
  next h =>
    have hhigh : isHighSurrogate (0xD800 + (c.toNat - 0x10000) / 0x400) = true := by
      simp only [isHighSurrogate, Bool.and_eq_true, decide_eq_true_eq]
      omega
    have hlow : isLowSurrogate (0xDC00 + (c.toNat - 0x10000) % 0x400) = true := by
      simp only [isLowSurrogate, Bool.and_eq_true, decide_eq_true_eq]
      omega
    have hvalue : 0x10000 + (0xD800 + (c.toNat - 0x10000) / 0x400 - 0xD800) * 0x400 +
        (0xDC00 + (c.toNat - 0x10000) % 0x400 - 0xDC00) = c.toNat := by omega
    rw [cons_append, cons_append, nil_append, chars, if_pos hhigh]
    simp only [hlow, if_true, hvalue, Char.ofNat_toNat]

theorem chars_append (text : List Char) (us : List ℕ) :
    chars (text.flatMap charUnits ++ us) = (chars us).map (text ++ ·) := by
  induction text with
  | nil => simp
  | cons c text ih =>
    rw [flatMap_cons, append_assoc, chars_charUnits_append, ih, Option.map_map]
    rfl

theorem units_append (hus : ∀ u ∈ us, u < 0x10000) (bytes : List UInt8) :
    units (unitBytes us ++ bytes) = (units bytes).map (us ++ ·) := by
  induction us with
  | nil => simp [unitBytes]
  | cons u us ih =>
    have hvalue := value_put 2 u
    have hlt : u % 256 ^ 2 = u := Nat.mod_eq_of_lt (hus u mem_cons_self)
    have hrest := ih fun u hu => hus u (mem_cons_of_mem _ hu)
    rw [hlt] at hvalue
    simp only [unitBytes, put] at hvalue hrest ⊢
    simp only [flatMap_cons, cons_append, nil_append, units, hvalue, hrest, Option.map_map]
    rfl

/-- A text is read back from its bytes, whatever follows. -/
theorem decode_encode_append (text : List Char) (bytes : List UInt8) :
    decode (encode text ++ bytes) = (decode bytes).map (text ++ ·) := by
  have hlt : ∀ u ∈ text.flatMap charUnits, u < 0x10000 := by
    intro u hu
    obtain ⟨c, -, hu⟩ := mem_flatMap.mp hu
    exact charUnits_lt c u hu
  rw [decode, encode, units_append hlt, decode]
  cases units bytes with
  | none => rfl
  | some us => exact chars_append text us

theorem length_unitBytes (us : List ℕ) : (unitBytes us).length = 2 * us.length := by
  induction us with
  | nil => rfl
  | cons u us ih =>
    rw [unitBytes, flatMap_cons, length_append, length_put]
    rw [unitBytes] at ih
    rw [ih, length_cons]
    omega

/-- The bytes of a text come in pairs. -/
theorem length_encode (text : List Char) : (encode text).length = 2 * (text.flatMap charUnits).length :=
  length_unitBytes _

/-- Zero bytes are a text of zero characters. -/
theorem encode_replicate_nul (n : ℕ) : encode (List.replicate n '\x00') = List.replicate (2 * n) 0 := by
  induction n with
  | zero => rfl
  | succ n ih =>
    have hnul : unitBytes (charUnits '\x00') = [0, 0] := by decide
    rw [replicate_succ, encode, flatMap_cons, unitBytes, flatMap_append]
    rw [encode, unitBytes] at ih
    rw [unitBytes] at hnul
    rw [hnul, ih]
    rfl

end RoundTrip

end UnyDesk.Lib.Utf16
