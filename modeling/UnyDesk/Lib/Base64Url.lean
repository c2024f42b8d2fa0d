import UnyDesk.Lib.Base64

/-!
# Base64 for file names

The alphabet has `-` and `_` for the two characters that file names cannot have or that have a
meaning there, and the last group has no padding. Decoding refuses padding, and is strict
about the bits that the padding would stand for.
-/

namespace UnyDesk.Lib.Base64Url

open List Base64

/-- A character of the standard alphabet in the alphabet for file names. -/
def toUrl (c : Char) : Char := if c = '+' then '-' else if c = '/' then '_' else c

def fromUrl (c : Char) : Char := if c = '-' then '+' else if c = '_' then '/' else c

/-- The padding behind this number of characters. -/
def padding (length : ℕ) : List Char := List.replicate ((4 - length % 4) % 4) '='

def encode (bytes : List UInt8) : List Char := ((Base64.encode bytes).filter (· ≠ '=')).map toUrl

/-- Only the standard alphabet has these characters. -/
def isForeign (c : Char) : Bool := c = '+' || c = '/' || c = '='

def decode (text : List Char) : Option (List UInt8) :=
  if text.any isForeign then none else Base64.decode (text.map fromUrl ++ padding text.length)

theorem fromUrl_toUrl_char {n : ℕ} (h : n < 64) : fromUrl (toUrl (char n)) = char n := by
  have hdash := char_ne (c := '-') h (by decide)
  have hscore := char_ne (c := '_') h (by decide)
  grind [fromUrl, toUrl]

theorem isForeign_toUrl_char {n : ℕ} (h : n < 64) : isForeign (toUrl (char n)) = false := by
  have hpad := char_ne_pad h
  grind [isForeign, toUrl]

/-- A code is written in the characters of the alphabet. -/
theorem exists_values (bytes : List UInt8) : ∃ values : List ℕ, (∀ n ∈ values, n < 64) ∧
    encode bytes = values.map (toUrl ∘ Base64.char) ∧
    Base64.encode bytes = values.map Base64.char ++ padding values.length := by
  obtain ⟨values, hvalues, hencode⟩ := Base64.exists_unpadded bytes
  change Base64.encode bytes = values.map Base64.char ++ padding values.length at hencode
  refine ⟨values, hvalues, ?_, hencode⟩
  have hkept : (values.map Base64.char).filter (· ≠ '=') = values.map Base64.char := by
    refine filter_eq_self.mpr fun c hc => ?_
    obtain ⟨n, hn, rfl⟩ := mem_map.mp hc
    exact decide_eq_true (Base64.char_ne_pad (hvalues n hn))
  have hdropped : (padding values.length).filter (· ≠ '=') = [] := by
    refine filter_eq_nil_iff.mpr fun c hc => ?_
    simp [eq_of_mem_replicate hc]
  rw [encode, hencode, filter_append, hkept, hdropped, append_nil, map_map]

theorem decode_encode (bytes : List UInt8) : decode (encode bytes) = some bytes := by
  obtain ⟨values, hvalues, hurl, hencode⟩ := exists_values bytes
  have hown : (encode bytes).any isForeign = false := by
    refine any_eq_false.mpr fun c hc => ?_
    rw [hurl] at hc
    obtain ⟨n, hn, rfl⟩ := mem_map.mp hc
    simp [isForeign_toUrl_char (hvalues n hn)]
  have hback : (encode bytes).map fromUrl = values.map Base64.char := by
    rw [hurl, map_map]
    exact map_congr_left fun n hn => fromUrl_toUrl_char (hvalues n hn)
  have hlength : (encode bytes).length = values.length := by rw [hurl, length_map]
  rw [decode, hown, if_neg Bool.false_ne_true, hback, hlength, ← hencode, Base64.decode_encode]

/-- Where a character holds of every character of the alphabet, it holds of every character of a code. -/
theorem forall_mem_encode {P : Char → Prop} (h : ∀ n : Fin 64, P (toUrl (char n))) (bytes : List UInt8) :
    ∀ c ∈ encode bytes, P c := by
  obtain ⟨values, hvalues, hurl, -⟩ := exists_values bytes
  intro c hc
  rw [hurl] at hc
  obtain ⟨n, hn, rfl⟩ := mem_map.mp hc
  exact h ⟨n, hvalues n hn⟩

/-- A text with a character outside of both alphabets is no code. -/
theorem decode_eq_none_of_mem {c : Char} (hvalue : Base64.value? (fromUrl c) = none) (hpad : fromUrl c ≠ '=')
    {text : List Char} (hmem : c ∈ text) : decode text = none := by
  rw [decode]
  split
  · rfl
  · exact Base64.decode_eq_none_of_mem hvalue hpad (mem_append_left _ (mem_map_of_mem hmem))

end UnyDesk.Lib.Base64Url
