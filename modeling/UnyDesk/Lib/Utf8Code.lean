import Mathlib.Data.Nat.Bitwise
import UnyDesk.Lib.MarkedCode
import UnyDesk.Lib.Utf8

/-!
# UTF-8 as a code with marked words

The first byte of a character tells how many bytes the character has, and the others are continuation bytes. So bytes
that are a text can be cut anywhere, and the cut can be moved to where a character begins by at most three bytes.
-/

namespace UnyDesk.Lib.Utf8

open List MarkedCode Char

variable {bytes : List UInt8}

/-- The bytes of some text. -/
def Valid (bytes : List UInt8) : Prop := ∃ text, encode text = bytes

theorem decode?_eq_none_iff : decode? bytes = none ↔ ¬Valid bytes := by
  constructor
  · intro hnone hvalid
    obtain ⟨text, rfl⟩ := hvalid
    rw [decode?_encode] at hnone
    cases hnone
  · intro hinvalid
    rw [decode?, if_neg fun hread => hinvalid ⟨decodeLossy bytes, hread⟩]

/-- The number of bytes of a character that begins with the byte, by its highest bits. -/
def sequenceLength (b : UInt8) : ℕ :=
  if b &&& 0x80 = 0 then 1
  else if b &&& 0xE0 = 0xC0 then 2
  else if b &&& 0xF0 = 0xE0 then 3
  else if b &&& 0xF8 = 0xF0 then 4
  else 0

section Bits

variable {b mask mark test wider : UInt8}

/-- What a test sees of a byte that carries a mark. -/
theorem marked_and (h : mask &&& test = 0) (b mark : UInt8) : (b &&& mask ||| mark) &&& test = mark &&& test := by
  have hdistrib : (b &&& mask ||| mark) &&& test = b &&& mask &&& test ||| mark &&& test :=
    UInt8.eq_of_toBitVec_eq BitVec.and_or_distrib_right
  rw [hdistrib, UInt8.and_assoc, h, UInt8.and_zero, UInt8.zero_or]

theorem and_high_of_lt (h : b.toNat < 128) : b &&& 0x80 = 0 := by
  have hbit : b.toNat.testBit 7 = false := Nat.testBit_lt_two_pow h
  rw [← UInt8.toNat_inj, UInt8.toNat_and]
  change b.toNat &&& 2 ^ 7 = 0
  rw [Nat.and_two_pow, hbit, Bool.toNat_false, Nat.zero_mul]

/-- What a narrower test sees of a byte. -/
theorem and_of_and (h : b &&& test = mark) (hnarrow : test &&& wider = wider) : b &&& wider = mark &&& wider := by
  rw [← h, UInt8.and_assoc, hnarrow]

/-- A continuation byte begins no character. -/
theorem sequenceLength_eq_zero (h : b &&& 0xC0 = 0x80) : sequenceLength b = 0 := by
  have hnarrow : ∀ test mark : UInt8, test &&& 0xC0 = 0xC0 → mark &&& 0xC0 ≠ 0x80 → b &&& test ≠ mark := by
    intro test mark htest hmark heq
    exact hmark ((and_of_and heq htest).symm.trans h)
  have hhigh : b &&& 0x80 ≠ 0 := by
    have hmark : b &&& 0x80 = 0x80 &&& 0x80 := and_of_and h (by decide)
    rw [hmark]
    decide
  rw [sequenceLength, if_neg hhigh, if_neg (hnarrow 0xE0 0xC0 (by decide) (by decide)),
    if_neg (hnarrow 0xF0 0xE0 (by decide) (by decide)), if_neg (hnarrow 0xF8 0xF0 (by decide) (by decide))]

theorem continuation_marked (b : UInt8) : (b &&& 0x3f ||| 0x80) &&& 0xC0 = 0x80 := by
  rw [marked_and (by decide)]
  decide

/-- The first bytes of characters. -/
theorem sequenceLength_one (h : b.toNat < 128) : sequenceLength b = 1 := by
  rw [sequenceLength, if_pos (and_high_of_lt h)]

theorem sequenceLength_two (b : UInt8) : sequenceLength (b &&& 0x1f ||| 0xc0) = 2 := by
  rw [sequenceLength, marked_and (by decide), marked_and (by decide), if_neg (by decide), if_pos (by decide)]

theorem sequenceLength_three (b : UInt8) : sequenceLength (b &&& 0x0f ||| 0xe0) = 3 := by
  rw [sequenceLength, marked_and (by decide), marked_and (by decide), marked_and (by decide), if_neg (by decide),
    if_neg (by decide), if_pos (by decide)]

theorem sequenceLength_four (b : UInt8) : sequenceLength (b &&& 0x07 ||| 0xf0) = 4 := by
  rw [sequenceLength, marked_and (by decide), marked_and (by decide), marked_and (by decide), marked_and (by decide),
    if_neg (by decide), if_neg (by decide), if_neg (by decide), if_pos (by decide)]

end Bits

/-- The bytes of a character. -/
theorem utf8EncodeChar_shape (c : Char) : ∃ lead tail, String.utf8EncodeChar c = lead :: tail ∧
    sequenceLength lead = tail.length + 1 ∧ ∀ b ∈ tail, b &&& 0xC0 = 0x80 := by
  rcases utf8Size_eq c with h | h | h | h
  · have hval : c.val.toNat ≤ 127 := utf8Size_eq_one_iff.mp h
    refine ⟨_, [], String.utf8EncodeChar_eq_singleton h, sequenceLength_one ?_, by simp⟩
    rw [UInt32.toNat_toUInt8]
    omega
  · refine ⟨_, _, String.utf8EncodeChar_eq_cons_cons h, sequenceLength_two _, ?_⟩
    simp [continuation_marked]
  · refine ⟨_, _, String.utf8EncodeChar_eq_cons_cons_cons h, sequenceLength_three _, ?_⟩
    simp [continuation_marked]
  · refine ⟨_, _, String.utf8EncodeChar_eq_cons_cons_cons_cons h, sequenceLength_four _, ?_⟩
    simp [continuation_marked]

theorem length_utf8EncodeChar_le (c : Char) : (String.utf8EncodeChar c).length ≤ 4 := by
  rw [String.length_utf8EncodeChar]
  exact utf8Size_le_four c

/-- A byte of ASCII is that of its character alone. -/
theorem mem_utf8EncodeChar_iff {b : UInt8} (hb : b.toNat < 128) (c : Char) :
    b ∈ String.utf8EncodeChar c ↔ c = ofNat b.toNat := by
  have hvalid : b.toNat.isValidChar := .inl (Nat.lt_trans hb (by decide))
  have hval : (ofNat b.toNat).val.toNat = b.toNat := by
    rw [ofNat, dif_pos hvalid]
    rfl
  constructor
  · intro hmem
    obtain ⟨lead, tail, hchar, hlength, htail⟩ := utf8EncodeChar_shape c
    rw [hchar] at hmem
    rcases mem_cons.mp hmem with rfl | hmem
    · rw [sequenceLength_one hb] at hlength
      have hnil : tail = [] := length_eq_zero_iff.mp (by omega)
      have hsize : c.utf8Size = 1 := by rw [← String.length_utf8EncodeChar, hchar, hnil]; rfl
      have hsmall : c.val.toNat ≤ 127 := utf8Size_eq_one_iff.mp hsize
      rw [String.utf8EncodeChar_eq_singleton hsize] at hchar
      have hbyte : c.val.toNat % 256 = b.toNat := by
        rw [← (cons.inj hchar).1]
        exact (UInt32.toNat_toUInt8 _).symm
      refine ext (UInt32.toNat_inj.mp ?_)
      omega
    · have hmark := htail b hmem
      have hhigh : b &&& 0x80 = 0x80 &&& 0x80 := and_of_and hmark (by decide)
      rw [and_high_of_lt hb] at hhigh
      exact absurd hhigh (by decide)
  · rintro rfl
    have hsize : (ofNat b.toNat).utf8Size = 1 := by
      rw [utf8Size_eq_one_iff, UInt32.le_iff_toNat_le, hval]
      exact Nat.le_of_lt_succ hb
    rw [String.utf8EncodeChar_eq_singleton hsize, mem_singleton, ← UInt8.toNat_inj, UInt32.toNat_toUInt8, hval]
    omega

theorem mem_encode_iff {b : UInt8} (hb : b.toNat < 128) (text : String) :
    b ∈ encode text ↔ ofNat b.toNat ∈ text.toList := by
  rw [encode, mem_flatMap]
  constructor
  · rintro ⟨c, hc, hmem⟩
    exact (mem_utf8EncodeChar_iff hb c).mp hmem ▸ hc
  · intro hc
    exact ⟨_, hc, (mem_utf8EncodeChar_iff hb _).mpr rfl⟩

/-- The byte of eight ones begins no character and belongs to none. -/
theorem ones_not_mem_encode (text : String) : 0xFF ∉ encode text := by
  rw [encode, mem_flatMap]
  rintro ⟨c, -, hmem⟩
  obtain ⟨lead, tail, hchar, hlength, htail⟩ := utf8EncodeChar_shape c
  rw [hchar] at hmem
  rcases mem_cons.mp hmem with rfl | hmem
  · have hzero : sequenceLength 0xFF = 0 := by decide
    omega
  · exact absurd (htail 0xFF hmem) (by decide)

/-- The code whose words are the characters. -/
def charCode : MarkedCode UInt8 where
  words := Set.range String.utf8EncodeChar
  wordLength := sequenceLength
  shape := by
    rintro word ⟨c, rfl⟩
    obtain ⟨lead, tail, hchar, hlength, htail⟩ := utf8EncodeChar_shape c
    exact ⟨lead, tail, hchar, hlength, fun b hb => sequenceLength_eq_zero (htail b hb)⟩

@[simp] theorem charCode_wordLength (b : UInt8) : charCode.wordLength b = sequenceLength b := rfl

theorem valid_iff : Valid bytes ↔ charCode.Stream bytes := by
  constructor
  · rintro ⟨text, rfl⟩
    refine stream_flatten fun word hword => ?_
    obtain ⟨c, -, rfl⟩ := mem_map.mp hword
    exact stream_of_mem_words ⟨c, rfl⟩
  · intro h
    induction h using stream_induction with
    | nil => exact ⟨"", rfl⟩
    | cons word bytes hword _ ih =>
      obtain ⟨c, rfl⟩ := hword
      obtain ⟨text, rfl⟩ := ih
      refine ⟨String.ofList (c :: text.toList), ?_⟩
      rw [encode, encode, String.toList_ofList, flatMap_cons]

theorem valid_nil : Valid [] := ⟨"", rfl⟩

section Cuts

variable {front back : List UInt8} {b : UInt8}

theorem Valid.append (h : Valid front) (h' : Valid back) : Valid (front ++ back) := by
  obtain ⟨text, rfl⟩ := h
  obtain ⟨text', rfl⟩ := h'
  exact ⟨text ++ text', encode_append text text'⟩

/-- A text is cut behind any of its ASCII bytes. -/
theorem Valid.of_ascii (h : Valid (front ++ b :: back)) (hb : b.toNat < 128) : Valid (front ++ [b]) ∧ Valid back := by
  have hlength : charCode.wordLength b = 1 := (charCode_wordLength b).trans (sequenceLength_one hb)
  obtain ⟨hfront, hrest⟩ := (valid_iff.mp h).of_begins (ne_of_eq_of_ne hlength one_ne_zero)
  obtain ⟨word, rest, hword, hback, heq⟩ := hrest.exists_word (cons_ne_nil b back)
  obtain ⟨lead, tail, rfl, htail, -⟩ := charCode.shape word hword
  obtain ⟨rfl, rfl⟩ := cons.inj heq
  have hnil : tail = [] := length_eq_zero_iff.mp (by omega)
  subst hnil
  exact ⟨valid_iff.mpr (hfront.append (stream_of_mem_words hword)), valid_iff.mpr hback⟩

/-- Behind any cut at most three continuation bytes come before a text, and it does not begin with another one. -/
theorem Valid.of_suffix (h : Valid (front ++ back)) : ∃ right rest, back = right ++ rest ∧ Valid rest ∧
    right.length ≤ 3 ∧ (∀ b ∈ right, b &&& 0xC0 = 0x80) ∧ ∀ b ∈ rest.head?, b &&& 0xC0 ≠ 0x80 := by
  obtain ⟨-, left, right, rest, -, hback, -, hrest, hcut⟩ := (valid_iff.mp h).cut
  have hbegins : ∀ b ∈ rest.head?, b &&& 0xC0 ≠ 0x80 := by
    intro b hb hcontinues
    obtain ⟨tail, rfl⟩ := head?_eq_some_iff.mp hb
    obtain ⟨word, after, hword, -, heq⟩ := hrest.exists_word (cons_ne_nil b tail)
    obtain ⟨lead, tail', rfl, hlength, -⟩ := charCode.shape word hword
    obtain ⟨rfl, -⟩ := cons.inj heq
    rw [charCode_wordLength, sequenceLength_eq_zero hcontinues] at hlength
    omega
  refine ⟨right, rest, hback, valid_iff.mpr hrest, ?_⟩
  rcases hcut with ⟨-, rfl⟩ | ⟨hleft, -, c, hchar⟩
  · exact ⟨Nat.zero_le 3, fun b hb => (not_mem_nil hb).elim, hbegins⟩
  · obtain ⟨first, left, rfl⟩ := exists_cons_of_ne_nil hleft
    obtain ⟨lead, tail, hshape, -, htail⟩ := utf8EncodeChar_shape c
    have hsize := length_utf8EncodeChar_le c
    rw [hchar, length_append, length_cons] at hsize
    rw [hchar] at hshape
    obtain ⟨rfl, rfl⟩ := cons.inj hshape
    exact ⟨by omega, fun b hb => htail b (mem_append_right left hb), hbegins⟩

/-- Before any cut a text comes before a character that lacks its end. -/
theorem Valid.of_prefix (h : Valid (front ++ back)) :
    ∃ whole part, front = whole ++ part ∧ Valid whole ∧ charCode.Partial part := by
  obtain ⟨whole, part, hfront, hwhole, hpart⟩ := (valid_iff.mp h).prefix_eq
  exact ⟨whole, part, hfront, valid_iff.mpr hwhole, hpart⟩

/-- Behind a text that begins it a text goes on with characters. -/
theorem Valid.of_append (h : Valid front) (happend : Valid (front ++ back)) : Valid back :=
  valid_iff.mpr ((valid_iff.mp h).of_append (valid_iff.mp happend))

/-- The beginning of a character tells that bytes are missing. -/
theorem partial_shape {part : List UInt8} (h : charCode.Partial part) (hne : part ≠ []) : ∃ lead tail,
    part = lead :: tail ∧ part.length < sequenceLength lead ∧ part.length ≤ 3 ∧ ∀ b ∈ tail, b &&& 0xC0 = 0x80 := by
  obtain ⟨missing, hmissing, c, hchar⟩ := h.resolve_left hne
  obtain ⟨first, part, rfl⟩ := exists_cons_of_ne_nil hne
  obtain ⟨lead, tail, hshape, hlength, htail⟩ := utf8EncodeChar_shape c
  have hsize := length_utf8EncodeChar_le c
  have hpos := length_pos_iff.mpr hmissing
  rw [hchar, length_append, length_cons] at hsize
  rw [hchar] at hshape
  obtain ⟨rfl, rfl⟩ := cons.inj hshape
  change sequenceLength first = (part ++ missing).length + 1 at hlength
  refine ⟨first, part, rfl, ?_, ?_, fun b hb => htail b (mem_append_left missing hb)⟩
  · rw [hlength, length_append, length_cons]
    omega
  · rw [length_cons]
    omega

/-- A text that is not empty ends with a character. -/
theorem Valid.exists_last (h : Valid front) (hne : front ≠ []) : ∃ before lead tail, front = before ++ lead :: tail ∧
    sequenceLength lead = tail.length + 1 ∧ tail.length ≤ 3 ∧ ∀ b ∈ tail, b &&& 0xC0 = 0x80 := by
  obtain ⟨before, word, hfront, c, rfl⟩ := (valid_iff.mp h).exists_last hne
  obtain ⟨lead, tail, hshape, hlength, htail⟩ := utf8EncodeChar_shape c
  have hsize := length_utf8EncodeChar_le c
  rw [hshape, length_cons] at hsize
  exact ⟨before, lead, tail, hshape ▸ hfront, hlength, by omega, htail⟩

end Cuts

end UnyDesk.Lib.Utf8
