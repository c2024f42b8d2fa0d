import Mathlib.Tactic.IntervalCases
import UnyDesk.Lib.Utf8

/-!
# Base64 with padding

The standard alphabet in groups of four characters. Decoding is strict: the last group must be
padded, the padding must follow at least two characters, and the bits it stands for must be
zero. Everything an encoder writes decodes to the bytes it was given.
-/

namespace UnyDesk.Lib.Base64

open List Option UInt8

variable {c : Char} {bytes : List UInt8} {text : List Char} {n : ℕ}

/-- The alphabet in order of value. -/
def alphabet : List Char :=
  "ABCDEFGHIJKLMNOPQRSTUVWXYZabcdefghijklmnopqrstuvwxyz0123456789+/".toList

/-- The character of a six-bit value. -/
def char (n : ℕ) : Char := alphabet.getD n 'A'

/-- The six-bit value of a character of the alphabet. -/
def value? (c : Char) : Option ℕ :=
  if 'A' ≤ c ∧ c ≤ 'Z' then some (c.toNat - 65)
  else if 'a' ≤ c ∧ c ≤ 'z' then some (c.toNat - 71)
  else if '0' ≤ c ∧ c ≤ '9' then some (c.toNat + 4)
  else if c = '+' then some 62
  else if c = '/' then some 63
  else none

/-- Encode three bytes at a time, padding the last group. -/
def encode : List UInt8 → List Char
  | [] => []
  | [x] => [char (x.toNat / 4), char (x.toNat % 4 * 16), '=', '=']
  | [x, y] =>
    [char (x.toNat / 4), char (x.toNat % 4 * 16 + y.toNat / 16), char (y.toNat % 16 * 4), '=']
  | x :: y :: z :: rest =>
    char (x.toNat / 4) :: char (x.toNat % 4 * 16 + y.toNat / 16) ::
      char (y.toNat % 16 * 4 + z.toNat / 64) :: char (z.toNat % 64) :: encode rest

/-- Decode a group that carries one byte. -/
def decodeOne (a b : Char) : Option (List UInt8) := do
  let a ← value? a
  let b ← value? b
  if b % 16 = 0 then some [ofNat (a * 4 + b / 16)] else none

/-- Decode a group that carries two bytes. -/
def decodeTwo (a b c : Char) : Option (List UInt8) := do
  let a ← value? a
  let b ← value? b
  let c ← value? c
  if c % 4 = 0 then some [ofNat (a * 4 + b / 16), ofNat (b % 16 * 16 + c / 4)] else none

/-- Decode a full group. -/
def decodeThree (a b c d : Char) : Option (List UInt8) := do
  let a ← value? a
  let b ← value? b
  let c ← value? c
  let d ← value? d
  some [ofNat (a * 4 + b / 16), ofNat (b % 16 * 16 + c / 4), ofNat (c % 4 * 64 + d)]

/-- Strict decoding; only the last group may carry padding. -/
def decode : List Char → Option (List UInt8)
  | [] => some []
  | a :: b :: c :: d :: rest =>
    if rest = [] ∧ d = '=' then
      if c = '=' then decodeOne a b else decodeTwo a b c
    else do
      let head ← decodeThree a b c d
      let tail ← decode rest
      some (head ++ tail)
  | _ => none

/-- Decoding of text that is given as bytes. -/
def decodeBytes (text : List UInt8) : Option (List UInt8) := decode (text.map fun byte => Char.ofNat byte.toNat)

/-- Every six-bit value is read back from its character. -/
theorem value?_char (h : n < 64) : value? (char n) = some n := by
  have hall : ∀ n : Fin 64, value? (char n) = some n.val := by decide +kernel
  exact hall ⟨n, h⟩

theorem char_ne (h : n < 64) (hc : value? c = none) : char n ≠ c := by
  intro heq
  have hvalue := value?_char h
  rw [heq, hc] at hvalue
  cases hvalue

/-- No six-bit value is written as the padding character. -/
theorem char_ne_pad (h : n < 64) : char n ≠ '=' := char_ne h (by decide)

/-- A byte is determined by the number it was split into. -/
private theorem ofNat_eq_of_toNat {x : UInt8} (h : n = x.toNat) : UInt8.ofNat n = x := by
  rw [h, UInt8.ofNat_toNat]

/-- Only the characters of the alphabet and the padding are decoded. -/
theorem decode_eq_none_of_mem (hvalue : value? c = none) (hpad : c ≠ '=') (hmem : c ∈ text) : decode text = none := by
  induction text using decode.induct with
  | case1 => exact absurd hmem not_mem_nil
  | case2 x y w rest h =>
    obtain ⟨rfl, rfl⟩ := h
    have hone : c = x ∨ c = y := by simpa [hpad] using hmem
    rw [decode, if_pos ⟨rfl, rfl⟩, if_pos rfl, decodeOne]
    rcases hone with rfl | rfl
    · rw [hvalue]
      rfl
    · rw [hvalue]
      cases value? x <;> rfl
  | case3 x y z w rest h hz =>
    obtain ⟨rfl, rfl⟩ := h
    have htwo : c = x ∨ c = y ∨ c = z := by simpa [hpad] using hmem
    rw [decode, if_pos ⟨rfl, rfl⟩, if_neg hz, decodeTwo]
    rcases htwo with rfl | rfl | rfl
    · rw [hvalue]
      rfl
    · rw [hvalue]
      cases value? x <;> rfl
    · rw [hvalue]
      cases value? x <;> cases value? y <;> rfl
  | case4 x y z w rest h ih =>
    have hfour : c = x ∨ c = y ∨ c = z ∨ c = w ∨ c ∈ rest := by simpa using hmem
    rw [decode, if_neg h]
    rcases hfour with rfl | rfl | rfl | rfl | hrest
    · rw [decodeThree, hvalue]
      rfl
    · rw [decodeThree, hvalue]
      cases value? x <;> rfl
    · rw [decodeThree, hvalue]
      cases value? x <;> cases value? y <;> rfl
    · rw [decodeThree, hvalue]
      cases value? x <;> cases value? y <;> cases value? z <;> rfl
    · rw [ih hrest]
      cases decodeThree x y z w <;> rfl
  | case5 text hnil hlong => rw [decode] <;> assumption

theorem value?_of_large (h : 0x7f < c.toNat) : value? c = none := by
  have hle : ∀ d : Char, d.toNat ≤ 0x7f → ¬ c ≤ d := fun d hd hcd => by
    have hval : c.toNat ≤ d.toNat := UInt32.le_iff_toNat_le.mp (Char.le_def.mp hcd)
    omega
  have hne : ∀ d : Char, d.toNat ≤ 0x7f → c ≠ d := fun d hd heq => by
    rw [heq] at h
    omega
  rw [value?, if_neg fun hc => hle 'Z' (by decide) hc.2, if_neg fun hc => hle 'z' (by decide) hc.2,
    if_neg fun hc => hle '9' (by decide) hc.2, if_neg (hne '+' (by decide)), if_neg (hne '/' (by decide))]

theorem decode_eq_none_of_large (h : 0x7f < c.toNat) (hmem : c ∈ text) : decode text = none :=
  decode_eq_none_of_mem (value?_of_large h) (fun heq => by rw [heq] at h; exact absurd h (by decide)) hmem

/-- The bytes of a character outside of ASCII lie outside of it, too. -/
theorem large_of_mem_utf8EncodeChar (h : 0x7f < c.toNat) {byte : UInt8}
    (hmem : byte ∈ String.utf8EncodeChar c) : 0x7f < byte.toNat := by
  have hvalid : c.val.toNat < 0x110000 := by
    rcases c.valid with hlow | hhigh
    · exact Nat.lt_trans hlow (by decide)
    · exact hhigh.2
  have hval : 0x7f < c.val.toNat := h
  have hbyte : ∀ n, 0x7f < n → n < 0x100 → 0x7f < (UInt8.ofNat n).toNat := fun n hn hlt => by
    rw [UInt8.toNat_ofNat', Nat.mod_eq_of_lt hlt]
    exact hn
  unfold String.utf8EncodeChar at hmem
  dsimp only at hmem
  rw [if_neg (by omega)] at hmem
  split at hmem
  · simp only [mem_cons, not_mem_nil, or_false] at hmem
    rcases hmem with rfl | rfl <;> exact hbyte _ (by omega) (by omega)
  · split at hmem
    · simp only [mem_cons, not_mem_nil, or_false] at hmem
      rcases hmem with rfl | rfl | rfl <;> exact hbyte _ (by omega) (by omega)
    · simp only [mem_cons, not_mem_nil, or_false] at hmem
      rcases hmem with rfl | rfl | rfl | rfl <;> exact hbyte _ (by omega) (by omega)

theorem toNat_charOfNat (byte : UInt8) : (Char.ofNat byte.toNat).toNat = byte.toNat := by
  have hvalid : byte.toNat.isValidChar := .inl (Nat.lt_trans byte.toNat_lt (by decide))
  rw [Char.ofNat, dif_pos hvalid]
  rfl

/-- The bytes of a text are decoded as the text is. -/
theorem decodeBytes_encode (text : String) : decodeBytes (Utf8.encode text) = decode text.toList := by
  rw [decodeBytes, Utf8.encode]
  generalize text.toList = chars
  by_cases hascii : ∀ c ∈ chars, c.toNat ≤ 0x7f
  · congr 1
    induction chars with
    | nil => rfl
    | cons c chars ih =>
      have hc := hascii c mem_cons_self
      have hbyte : String.utf8EncodeChar c = [UInt8.ofNat c.toNat] := if_pos hc
      have hsame : Char.ofNat (UInt8.ofNat c.toNat).toNat = c := by
        rw [UInt8.toNat_ofNat', Nat.mod_eq_of_lt (by omega), Char.ofNat_toNat]
      rw [flatMap_cons, hbyte, map_append, ih fun d hd => hascii d (mem_cons_of_mem c hd), map_singleton,
        hsame, singleton_append]
  · push Not at hascii
    obtain ⟨c, hc, hlarge⟩ := hascii
    obtain ⟨byte, hbyte⟩ := exists_mem_of_ne_nil _ (String.utf8EncodeChar_ne_nil (c := c))
    have hmem : Char.ofNat byte.toNat ∈ (chars.flatMap String.utf8EncodeChar).map fun byte => Char.ofNat byte.toNat :=
      mem_map_of_mem (mem_flatMap.mpr ⟨c, hc, hbyte⟩)
    have hbytelarge : 0x7f < (Char.ofNat byte.toNat).toNat := by
      rw [toNat_charOfNat]
      exact large_of_mem_utf8EncodeChar hlarge hbyte
    rw [decode_eq_none_of_large hbytelarge hmem, decode_eq_none_of_large hlarge hc]

/-- Decoding inverts encoding. -/
theorem decode_encode (bytes : List UInt8) : decode (encode bytes) = some bytes := by
  induction bytes using encode.induct with
  | case1 => rfl
  | case2 x =>
    have hx := x.toNat_lt
    simp only [encode, decode, decodeOne, value?_char (show x.toNat / 4 < 64 by omega),
      value?_char (show x.toNat % 4 * 16 < 64 by omega), bind_eq_bind, bind_some,
      and_self, if_true]
    rw [if_pos (by omega), ofNat_eq_of_toNat (x := x) (by omega)]
  | case3 x y =>
    have hx := x.toNat_lt
    have hy := y.toNat_lt
    simp only [encode, decode, decodeTwo, value?_char (show x.toNat / 4 < 64 by omega),
      value?_char (show x.toNat % 4 * 16 + y.toNat / 16 < 64 by omega),
      value?_char (show y.toNat % 16 * 4 < 64 by omega), bind_eq_bind, bind_some,
      and_self, if_true, if_neg (char_ne_pad (show y.toNat % 16 * 4 < 64 by omega))]
    rw [if_pos (by omega), ofNat_eq_of_toNat (x := x) (by omega), ofNat_eq_of_toNat (x := y) (by omega)]
  | case4 x y z rest ih =>
    have hx := x.toNat_lt
    have hy := y.toNat_lt
    have hz := z.toNat_lt
    have hpad : ¬(encode rest = [] ∧ char (z.toNat % 64) = '=') :=
      fun h => char_ne_pad (show z.toNat % 64 < 64 by omega) h.2
    simp only [encode, decode, if_neg hpad, decodeThree,
      value?_char (show x.toNat / 4 < 64 by omega),
      value?_char (show x.toNat % 4 * 16 + y.toNat / 16 < 64 by omega),
      value?_char (show y.toNat % 16 * 4 + z.toNat / 64 < 64 by omega),
      value?_char (show z.toNat % 64 < 64 by omega), ih, bind_eq_bind, bind_some]
    rw [ofNat_eq_of_toNat (x := x) (by omega), ofNat_eq_of_toNat (x := y) (by omega),
      ofNat_eq_of_toNat (x := z) (by omega)]
    rfl

/-- The encoder writes four characters for every group of three bytes. -/
theorem length_encode (bytes : List UInt8) : (encode bytes).length = 4 * ((bytes.length + 2) / 3) := by
  induction bytes using encode.induct with
  | case1 => rfl
  | case2 x => simp [encode]
  | case3 x y => simp [encode]
  | case4 x y z rest ih =>
    simp only [encode, length_cons, ih]
    omega

/-- A text that is decoded is made of groups of four. -/
theorem length_of_decode (h : decode text = some bytes) : text.length % 4 = 0 := by
  induction text using decode.induct generalizing bytes with
  | case1 => rfl
  | case2 x y w rest hlast => simp [hlast.1]
  | case3 x y z w rest hlast => simp [hlast.1]
  | case4 x y z w rest hlast ih =>
    rw [decode, if_neg hlast] at h
    obtain ⟨head, -, h⟩ := bind_eq_some_iff.mp h
    obtain ⟨tail, htail, -⟩ := bind_eq_some_iff.mp h
    have hrest := ih htail
    simp only [length_cons]
    omega
  | case5 text hnil hlong =>
    rw [decode] at h
    · cases h
    · exact hnil
    · exact hlong

/-- An encoded text is one of characters, and the padding that belongs to it. -/
theorem exists_unpadded (bytes : List UInt8) : ∃ values : List ℕ, (∀ n ∈ values, n < 64) ∧
    encode bytes = values.map char ++ List.replicate ((4 - values.length % 4) % 4) '=' := by
  induction bytes using encode.induct with
  | case1 => exact ⟨[], by simp, rfl⟩
  | case2 x =>
    have hx := x.toNat_lt
    refine ⟨[x.toNat / 4, x.toNat % 4 * 16], fun n hn => ?_, rfl⟩
    rcases mem_cons.mp hn with rfl | hn
    · omega
    · rw [mem_singleton.mp hn]
      omega
  | case3 x y =>
    have hx := x.toNat_lt
    have hy := y.toNat_lt
    refine ⟨[x.toNat / 4, x.toNat % 4 * 16 + y.toNat / 16, y.toNat % 16 * 4], fun n hn => ?_, rfl⟩
    simp only [mem_cons, not_mem_nil, or_false] at hn
    omega
  | case4 x y z rest ih =>
    have hx := x.toNat_lt
    have hy := y.toNat_lt
    have hz := z.toNat_lt
    obtain ⟨values, hvalues, hencode⟩ := ih
    refine ⟨x.toNat / 4 :: (x.toNat % 4 * 16 + y.toNat / 16) :: (y.toNat % 16 * 4 + z.toNat / 64) ::
      (z.toNat % 64) :: values, fun n hn => ?_, ?_⟩
    · simp only [mem_cons] at hn
      rcases hn with rfl | rfl | rfl | rfl | hn
      · omega
      · omega
      · omega
      · omega
      · exact hvalues n hn
    · have hpadding : (4 - (values.length + 1 + 1 + 1 + 1) % 4) % 4 = (4 - values.length % 4) % 4 := by omega
      rw [encode, hencode, length_cons, length_cons, length_cons, length_cons, hpadding]
      rfl

theorem mem_encode (h : c ∈ encode bytes) : c = '=' ∨ ∃ n < 64, c = char n := by
  obtain ⟨values, hvalues, hencode⟩ := exists_unpadded bytes
  rw [hencode] at h
  rcases mem_append.mp h with hvalue | hpad
  · obtain ⟨n, hn, rfl⟩ := mem_map.mp hvalue
    exact .inr ⟨n, hvalues n hn, rfl⟩
  · exact .inl (eq_of_mem_replicate hpad)

theorem char_eq_slash (h : n < 64) (hslash : char n = '/') : n = 63 := by
  have hvalue := value?_char h
  rw [hslash] at hvalue
  exact (some.inj hvalue).symm

/-- Two slashes at the end stand for a byte of eight ones. -/
theorem ones_mem_of_slashes {front : List Char} (h : encode bytes = front ++ ['/', '/']) : 0xFF ∈ bytes := by
  induction bytes using encode.induct generalizing front with
  | case1 => simp [encode] at h
  | case2 x =>
    have hlast := congrArg getLast? h
    simp [encode] at hlast
  | case3 x y =>
    have hlast := congrArg getLast? h
    simp [encode] at hlast
  | case4 x y z rest ih =>
    have hy := y.toNat_lt
    have hz := z.toNat_lt
    rw [encode] at h
    by_cases hrest : rest = []
    · subst hrest
      have hlength := congrArg length h
      simp only [encode, length_cons, length_nil, length_append] at hlength
      obtain ⟨a, b, rfl⟩ : ∃ a b, front = [a, b] := length_eq_two.mp (by omega)
      simp only [encode, cons_append, nil_append, cons.injEq, and_true] at h
      have hthird := char_eq_slash (by omega) h.2.2.1
      have hfourth := char_eq_slash (by omega) h.2.2.2
      have hones : z = 0xFF := UInt8.toNat_inj.mp (show z.toNat = 255 by omega)
      rw [hones]
      simp
    · have hlong : 2 ≤ (encode rest).length := by
        rw [length_encode]
        have := length_pos_iff.mpr hrest
        omega
      have hend : ['/', '/'] <:+ encode (x :: y :: z :: rest) := ⟨front, by rw [encode, h]⟩
      have htail : encode rest <:+ encode (x :: y :: z :: rest) := ⟨[_, _, _, _], by rw [encode]; rfl⟩
      obtain ⟨front', hfront'⟩ := suffix_of_suffix_length_le hend htail hlong
      have hmem := ih hfront'.symm
      simp [hmem]

end UnyDesk.Lib.Base64
