import Mathlib.Data.List.Basic

/-!
# UTF-8 text as bytes

The bytes of a text, and the lossy reading of arbitrary bytes as text. A lossy reader replaces
every maximal ill-formed piece by U+FFFD, so on the bytes of a text it is the inverse of the
encoder.
-/

namespace UnyDesk.Lib.Utf8

open List

variable {bytes : List UInt8}

/-- The bytes of a text. -/
def encode (text : String) : List UInt8 := text.toList.flatMap String.utf8EncodeChar

/-- The character at the front of the bytes, when they begin with a well-formed sequence. -/
def decodeChar? (bytes : List UInt8) : Option Char := bytes.toByteArray.utf8DecodeChar? 0

/-- A continuation byte. -/
def isContinuation (b : UInt8) : Bool := 0x80 ≤ b && b ≤ 0xBF

/-- The second bytes that a first byte of three- and four-byte sequences admits. -/
def admitsSecond (first second : UInt8) : Bool :=
  if first = 0xE0 then 0xA0 ≤ second && second ≤ 0xBF
  else if first = 0xED then 0x80 ≤ second && second ≤ 0x9F
  else if 0xE1 ≤ first && first ≤ 0xEF then isContinuation second
  else if first = 0xF0 then 0x90 ≤ second && second ≤ 0xBF
  else if 0xF1 ≤ first && first ≤ 0xF3 then isContinuation second
  else if first = 0xF4 then 0x80 ≤ second && second ≤ 0x8F
  else false

/-- The length of the ill-formed piece at the front: as much of a sequence as was valid. -/
def illFormedLength : List UInt8 → ℕ
  | first :: second :: third :: _ =>
    if admitsSecond first second then
      if 0xF0 ≤ first && isContinuation third then 3 else 2
    else 1
  | [first, second] => if admitsSecond first second then 2 else 1
  | _ => 1

/-- The lossy reader; the fuel bounds the characters read, at most one a byte. -/
def decodeLossyChars : ℕ → List UInt8 → List Char
  | 0, _ => []
  | _ + 1, [] => []
  | fuel + 1, bytes =>
    match decodeChar? bytes with
    | some c => c :: decodeLossyChars fuel (bytes.drop c.utf8Size)
    | none => '\uFFFD' :: decodeLossyChars fuel (bytes.drop (illFormedLength bytes))

/-- Read bytes as text, replacing what is not well formed. -/
def decodeLossy (bytes : List UInt8) : String := String.ofList (decodeLossyChars bytes.length bytes)

@[simp] theorem encode_append (a b : String) : encode (a ++ b) = encode a ++ encode b := by
  simp [encode]

/-- The first character of an encoded text is read back. -/
theorem decodeChar?_append (c : Char) (bytes : List UInt8) :
    decodeChar? (String.utf8EncodeChar c ++ bytes) = some c := by
  rw [decodeChar?, toByteArray_append]
  exact ByteArray.utf8DecodeChar?_utf8EncodeChar_append

/-- The lossy reader goes on behind the first character. -/
theorem decodeLossyChars_append (c : Char) (bytes : List UInt8) (fuel : ℕ) :
    decodeLossyChars (fuel + 1) (String.utf8EncodeChar c ++ bytes) = c :: decodeLossyChars fuel bytes := by
  have hne : String.utf8EncodeChar c ++ bytes ≠ [] := by simp [String.utf8EncodeChar_ne_nil]
  rw [decodeLossyChars]
  · rw [decodeChar?_append]
    dsimp only
    rw [← String.length_utf8EncodeChar c, drop_left]
  · exact hne

/-- With enough fuel the lossy reader returns the characters that were encoded. -/
theorem decodeLossyChars_flatMap (chars : List Char) (fuel : ℕ) (hfuel : chars.length ≤ fuel) :
    decodeLossyChars fuel (chars.flatMap String.utf8EncodeChar) = chars := by
  induction chars generalizing fuel with
  | nil => cases fuel <;> rfl
  | cons c rest ih =>
    obtain ⟨fuel, rfl⟩ : ∃ n, fuel = n + 1 := ⟨fuel - 1, by simp at hfuel; omega⟩
    rw [flatMap_cons, decodeLossyChars_append, ih fuel (by simpa using hfuel)]

/-- A text has at least as many bytes as characters. -/
theorem length_le_length_encode (text : String) : text.toList.length ≤ (encode text).length := by
  rw [encode]
  induction text.toList with
  | nil => simp
  | cons c rest ih =>
    have hc := String.utf8EncodeChar_ne_nil (c := c)
    have := length_pos_iff.mpr hc
    simp only [flatMap_cons, length_append, length_cons]
    omega

/-- Reading the bytes of a text gives the text. -/
@[simp] theorem decodeLossy_encode (text : String) : decodeLossy (encode text) = text := by
  have hchars : decodeLossyChars (encode text).length (encode text) = text.toList :=
    decodeLossyChars_flatMap text.toList _ (length_le_length_encode text)
  rw [decodeLossy, hchars, String.ofList_toList]

/-- The text of bytes that begin with those of a text begins with it. -/
theorem prefix_of_encode_prefix {start text : String} (h : encode start <+: encode text) :
    start.toList <+: text.toList := by
  obtain ⟨bytes, hbytes⟩ := h
  have hread : ∀ (chars : List Char) (fuel : ℕ), chars.length ≤ fuel →
      chars <+: decodeLossyChars fuel (chars.flatMap String.utf8EncodeChar ++ bytes) := by
    intro chars
    induction chars with
    | nil => exact fun fuel _ => nil_prefix
    | cons c rest ih =>
      intro fuel hfuel
      obtain ⟨fuel, rfl⟩ : ∃ n, fuel = n + 1 := ⟨fuel - 1, by simp at hfuel; omega⟩
      rw [flatMap_cons, append_assoc, decodeLossyChars_append]
      exact cons_prefix_cons.mpr ⟨rfl, ih fuel (by simpa using hfuel)⟩
  have hlength : start.toList.length ≤ (encode start ++ bytes).length := by
    rw [length_append]
    exact Nat.le_trans (length_le_length_encode start) (Nat.le_add_right _ _)
  have hstart := hread start.toList (encode start ++ bytes).length hlength
  have htext : decodeLossyChars (encode start ++ bytes).length (encode start ++ bytes) = text.toList := by
    have hlossy := congrArg String.toList (decodeLossy_encode text)
    rwa [decodeLossy, String.toList_ofList, ← hbytes] at hlossy
  rwa [← htext]

/-- A text is determined by its bytes. -/
theorem encode_injective : Function.Injective encode :=
  Function.LeftInverse.injective decodeLossy_encode

/-- Read bytes as text, if they are well formed. -/
def decode? (bytes : List UInt8) : Option String :=
  if encode (decodeLossy bytes) = bytes then some (decodeLossy bytes) else none

@[simp] theorem decode?_encode (text : String) : decode? (encode text) = some text := by
  simp [decode?]

/-- A character that is read is the one at the front of the bytes. -/
theorem of_decodeChar? {c : Char} (h : decodeChar? bytes = some c) :
    ∃ rest, bytes = String.utf8EncodeChar c ++ rest := by
  obtain ⟨rest, hrest⟩ := ByteArray.exists_of_utf8DecodeChar?_eq_some h
  refine ⟨rest.data.toList, ?_⟩
  have hlist := congrArg (fun array : ByteArray => array.data.toList) hrest
  simpa [data_toByteArray] using hlist

/-- Bytes that are read without a replacement are those of the text. -/
theorem flatMap_decodeLossyChars (fuel : ℕ) (bytes : List UInt8) (hfuel : bytes.length ≤ fuel)
    (h : '\uFFFD' ∉ decodeLossyChars fuel bytes) :
    (decodeLossyChars fuel bytes).flatMap String.utf8EncodeChar = bytes := by
  induction fuel generalizing bytes with
  | zero =>
    obtain rfl := length_eq_zero_iff.mp (Nat.le_zero.mp hfuel)
    rfl
  | succ fuel ih =>
    by_cases hnil : bytes = []
    · rw [hnil]
      rfl
    · rw [decodeLossyChars] at h ⊢
      · cases hread : decodeChar? bytes with
        | none =>
          rw [hread] at h
          exact absurd mem_cons_self h
        | some c =>
          obtain ⟨rest, rfl⟩ := of_decodeChar? hread
          have hpos := length_pos_iff.mpr (String.utf8EncodeChar_ne_nil (c := c))
          rw [hread] at h
          dsimp only at h ⊢
          rw [← String.length_utf8EncodeChar c, drop_left] at h ⊢
          rw [length_append] at hfuel
          rw [flatMap_cons, ih rest (by omega) (fun hmem => h (mem_cons_of_mem c hmem))]
      · exact hnil
      · exact hnil

theorem encode_decodeLossy (h : '\uFFFD' ∉ (decodeLossy bytes).toList) : encode (decodeLossy bytes) = bytes := by
  rw [decodeLossy, String.toList_ofList] at h
  rw [encode, decodeLossy, String.toList_ofList]
  exact flatMap_decodeLossyChars _ bytes (Nat.le_refl _) h

end UnyDesk.Lib.Utf8
