import Mathlib.Algebra.Group.Nat.Defs
import Mathlib.Data.List.GetD
import UnyDesk.Lib.Incremental
import UnyDesk.Proto.Message

/-!
# Frames on a byte stream

A frame is a head of one to four bytes and the payload. The low two bits of the first byte say how long the
head is and the other bits, lowest byte first, how long the payload. A codec that has become raw passes
bytes on without frames.
-/

namespace UnyDesk

open Lib List IncrementalDecoder Nat UInt8 Except

inductive DecodeState
  | head
  | data (n : ℕ)

structure BytesCodec where
  state : DecodeState := .head
  raw : Bool := false
  maxPacketLength : ℕ := 2 ^ 64 - 1

inductive CodecError
  | tooBigPacket
  | overflow
deriving DecidableEq

namespace BytesCodec

/-- The announced length and what follows the head, when the buffer holds the whole head. -/
def decodeHead (c : BytesCodec) (src : Bytes) : Except CodecError (Option (ℕ × Bytes)) :=
  if src = [] then .ok none
  else
    let headLen := ((src.getD 0 0).toNat &&& 3) + 1
    if src.length < headLen then .ok none
    else
      let n := (src.getD 0 0).toNat
      let n := if headLen > 1 then n ||| (src.getD 1 0).toNat <<< 8 else n
      let n := if headLen > 2 then n ||| (src.getD 2 0).toNat <<< 16 else n
      let n := if headLen > 3 then n ||| (src.getD 3 0).toNat <<< 24 else n
      let n := n >>> 2
      if n > c.maxPacketLength then .error .tooBigPacket
      else .ok (some (n, src.drop headLen))

def decodeData (n : ℕ) (src : Bytes) : Option (Bytes × Bytes) :=
  if src.length < n then none else some (src.take n, src.drop n)

/-- One call: the payload, the codec and the rest of the buffer. -/
def decode (c : BytesCodec) (src : Bytes) : Except CodecError (Option Bytes × BytesCodec × Bytes) :=
  if c.raw then
    if src ≠ [] then .ok (some src, c, []) else .ok (none, c, src)
  else
    let announced : Except CodecError (Option (ℕ × Bytes)) :=
      match c.state with
      | .head => c.decodeHead src
      | .data n => .ok (some (n, src))
    match announced with
    | .error e => .error e
    | .ok none => .ok (none, c, src)
    | .ok (some (n, src)) =>
      match decodeData n src with
      | some (data, rest) => .ok (some data, { c with state := .head }, rest)
      | none => .ok (none, { c with state := .data n }, src)

def u16Le (n : ℕ) : Bytes := [ofNat n, ofNat (n >>> 8)]

def u32Le (n : ℕ) : Bytes := [ofNat n, ofNat (n >>> 8), ofNat (n >>> 16), ofNat (n >>> 24)]

/-- One call: the buffer with the frame behind it. -/
def encode (c : BytesCodec) (data buf : Bytes) : Except CodecError Bytes :=
  if c.raw then .ok (buf ++ data)
  else if data.length ≤ 0x3F then .ok (buf ++ [ofNat (data.length <<< 2)] ++ data)
  else if data.length ≤ 0x3FFF then .ok (buf ++ u16Le (data.length <<< 2 % 2 ^ 16 ||| 0x1) ++ data)
  else if data.length ≤ 0x3FFFFF then
    let h := data.length <<< 2 % 2 ^ 32 ||| 0x2
    .ok (buf ++ u16Le (h &&& 0xFFFF) ++ [ofNat (h >>> 16)] ++ data)
  else if data.length ≤ 0x3FFFFFFF then .ok (buf ++ u32Le (data.length <<< 2 % 2 ^ 32 ||| 0x3) ++ data)
  else .error .overflow

section Head

variable {x : ℕ}

theorem and_three (x : ℕ) : x &&& 3 = x % 4 := and_two_pow_sub_one_eq_mod x 2

theorem shiftLeft_two_or {k : ℕ} (hk : k < 2 ^ 2) (n : ℕ) : n <<< 2 ||| k = n * 4 + k := by
  rw [← shiftLeft_add_eq_or_of_lt hk, shiftLeft_eq]

theorem or_shiftLeft {x i : ℕ} (hx : x < 2 ^ i) (y : ℕ) : x ||| y <<< i = x + y * 2 ^ i := by
  rw [Nat.or_comm, ← Nat.shiftLeft_add_eq_or_of_lt hx, Nat.shiftLeft_eq, Nat.add_comm]

/-- Two bytes, lowest first, make up their number. -/
theorem le_two (hx : x < 2 ^ 16) : x % 256 ||| (x >>> 8 % 256) <<< 8 = x := by
  rw [or_shiftLeft (by omega), shiftRight_eq_div_pow]
  omega

theorem le_three (hx : x < 2 ^ 24) : x % 256 ||| (x >>> 8 % 256) <<< 8 ||| (x >>> 16 % 256) <<< 16 = x := by
  have hlow : x % 256 ||| (x >>> 8 % 256) <<< 8 = x % 2 ^ 16 := by
    rw [or_shiftLeft (by omega), shiftRight_eq_div_pow]
    omega
  rw [hlow, or_shiftLeft (by omega), shiftRight_eq_div_pow]
  omega

theorem le_four (hx : x < 2 ^ 32) :
    x % 256 ||| (x >>> 8 % 256) <<< 8 ||| (x >>> 16 % 256) <<< 16 ||| (x >>> 24 % 256) <<< 24 = x := by
  have hlow : x % 256 ||| (x >>> 8 % 256) <<< 8 ||| (x >>> 16 % 256) <<< 16 = x % 2 ^ 24 := by
    have hbytes := le_three (mod_lt x (show 0 < 2 ^ 24 by decide))
    simp only [shiftRight_eq_div_pow] at hbytes ⊢
    have h0 : x % 2 ^ 24 % 256 = x % 256 := by omega
    have h1 : x % 2 ^ 24 / 2 ^ 8 % 256 = x / 2 ^ 8 % 256 := by omega
    have h2 : x % 2 ^ 24 / 2 ^ 16 % 256 = x / 2 ^ 16 % 256 := by omega
    rwa [h0, h1, h2] at hbytes
  rw [hlow, or_shiftLeft (by omega), shiftRight_eq_div_pow]
  omega

theorem shiftRight_two {k : ℕ} (hk : k < 4) (n : ℕ) : (n * 4 + k) >>> 2 = n := by
  rw [shiftRight_eq_div_pow]
  omega

/-- The head of a payload of so many bytes. -/
def header (n : ℕ) : Bytes :=
  if n ≤ 0x3F then [ofNat (n * 4)]
  else if n ≤ 0x3FFF then u16Le (n * 4 + 1)
  else if n ≤ 0x3FFFFF then u16Le ((n * 4 + 2) % 2 ^ 16) ++ [ofNat ((n * 4 + 2) >>> 16)]
  else u32Le (n * 4 + 3)

/-- The largest payload. -/
def maxPayload : ℕ := 0x3FFFFFFF

variable {c : BytesCodec} {n : ℕ}

theorem encode_eq (hraw : c.raw = false) {data : Bytes} (hlength : data.length ≤ maxPayload) (buf : Bytes) :
    c.encode data buf = .ok (buf ++ header data.length ++ data) := by
  have hmax : data.length ≤ 0x3FFFFFFF := hlength
  have hmask : ∀ h, h &&& 0xFFFF = h % 2 ^ 16 := fun h => and_two_pow_sub_one_eq_mod h 16
  rw [encode, header, hraw, if_neg Bool.false_ne_true]
  by_cases h1 : data.length ≤ 0x3F
  · rw [if_pos h1, if_pos h1, shiftLeft_eq]
  · rw [if_neg h1, if_neg h1]
    by_cases h2 : data.length ≤ 0x3FFF
    · have hfits : data.length <<< 2 % 2 ^ 16 = data.length <<< 2 := mod_eq_of_lt (by rw [shiftLeft_eq]; omega)
      rw [if_pos h2, if_pos h2, hfits, shiftLeft_two_or (by decide)]
    · have hfits : data.length <<< 2 % 2 ^ 32 = data.length <<< 2 := mod_eq_of_lt (by rw [shiftLeft_eq]; omega)
      rw [if_neg h2, if_neg h2, hfits]
      by_cases h3 : data.length ≤ 0x3FFFFF
      · simp only [if_pos h3, shiftLeft_two_or (show 2 < 2 ^ 2 by decide), hmask, append_assoc]
      · rw [if_neg h3, if_neg h3, if_pos hmax, shiftLeft_two_or (by decide)]

theorem header_ne_nil (n : ℕ) : header n ≠ [] := by
  unfold header u16Le u32Le
  split
  · nofun
  · split
    · nofun
    · split <;> nofun

/-- A head that is all there is read back. -/
theorem decodeHead_header (hlength : n ≤ maxPayload) (hmax : n ≤ c.maxPacketLength) (rest : Bytes) :
    c.decodeHead (header n ++ rest) = .ok (some (n, rest)) := by
  have hlength : n ≤ 0x3FFFFFFF := hlength
  have hfits : ¬ c.maxPacketLength < n := by omega
  rw [decodeHead, if_neg (by simp [header_ne_nil]), header]
  by_cases h1 : n ≤ 0x3F
  · have hbyte : n * 4 % 256 = n * 4 := by omega
    have hlow : n * 4 % 4 = 0 := by omega
    have hvalue : (n * 4) >>> 2 = n := shiftRight_two (by decide : 0 < 4) n
    simp [h1, toNat_ofNat', hbyte, and_three, hlow, hvalue, hfits]
  · by_cases h2 : n ≤ 0x3FFF
    · have hlow : (n * 4 + 1) % 256 % 4 = 1 := by omega
      have hlong : ¬ rest.length + 1 + 1 < 2 := by omega
      have hvalue : ((n * 4 + 1) % 256 ||| ((n * 4 + 1) >>> 8 % 256) <<< 8) >>> 2 = n := by
        rw [le_two (by omega), shiftRight_two (by decide)]
      simp [h1, h2, u16Le, toNat_ofNat', and_three, hlow, hlong, hvalue, hfits]
    · by_cases h3 : n ≤ 0x3FFFFF
      · have hsecond : ((n * 4 + 2) % 65536) >>> 8 % 256 = (n * 4 + 2) >>> 8 % 256 := by
          rw [shiftRight_eq_div_pow, shiftRight_eq_div_pow]
          omega
        have hlong : ¬ rest.length + 1 + 1 + 1 < 3 := by omega
        have hvalue : ((n * 4 + 2) % 256 ||| ((n * 4 + 2) >>> 8 % 256) <<< 8 ||| ((n * 4 + 2) >>> 16 % 256) <<< 16) >>> 2 =
            n := by
          rw [le_three (by omega), shiftRight_two (by decide)]
        simp [h1, h2, h3, u16Le, toNat_ofNat', and_three, hsecond, hlong, hvalue, hfits]
      · have hlong : ¬ rest.length + 1 + 1 + 1 + 1 < 4 := by omega
        have hvalue : ((n * 4 + 3) % 256 ||| ((n * 4 + 3) >>> 8 % 256) <<< 8 ||| ((n * 4 + 3) >>> 16 % 256) <<< 16 |||
            ((n * 4 + 3) >>> 24 % 256) <<< 24) >>> 2 = n := by
          rw [le_four (by omega), shiftRight_two (by decide)]
        simp [h1, h2, h3, u32Le, toNat_ofNat', and_three, hlong, hvalue, hfits]

end Head

section Framed

variable {maxPacketLength n : ℕ} {src rest : Bytes} {c : BytesCodec} {payloads : List Bytes}

/-- How long the head is, by its first byte. -/
def headLen (src : Bytes) : ℕ := ((src.getD 0 0).toNat &&& 3) + 1

/-- What the head announces. -/
def payloadLen (src : Bytes) : ℕ :=
  let n := (src.getD 0 0).toNat
  let n := if headLen src > 1 then n ||| (src.getD 1 0).toNat <<< 8 else n
  let n := if headLen src > 2 then n ||| (src.getD 2 0).toNat <<< 16 else n
  let n := if headLen src > 3 then n ||| (src.getD 3 0).toNat <<< 24 else n
  n >>> 2

theorem decodeHead_eq (c : BytesCodec) (src : Bytes) : c.decodeHead src =
      if src = [] ∨ src.length < headLen src then .ok none
      else if payloadLen src > c.maxPacketLength then .error .tooBigPacket
      else .ok (some (payloadLen src, src.drop (headLen src))) := by
  have heq : c.decodeHead src = if src = [] then .ok none
      else if src.length < headLen src then .ok none
      else if payloadLen src > c.maxPacketLength then .error .tooBigPacket
      else .ok (some (payloadLen src, src.drop (headLen src))) := rfl
  rw [heq]
  by_cases hnil : src = []
  · rw [if_pos hnil, if_pos (.inl hnil)]
  · by_cases hshort : src.length < headLen src
    · rw [if_neg hnil, if_pos hshort, if_pos (.inr hshort)]
    · rw [if_neg hnil, if_neg hshort, if_neg (not_or.mpr ⟨hnil, hshort⟩)]

theorem headLen_append (hnil : src ≠ []) (more : Bytes) : headLen (src ++ more) = headLen src := by
  unfold headLen
  rw [getD_append _ _ _ _ (length_pos_iff.mpr hnil)]

theorem payloadLen_append (hnil : src ≠ []) (hwhole : headLen src ≤ src.length) (more : Bytes) :
    payloadLen (src ++ more) = payloadLen src := by
  have hbyte : ∀ i, i < headLen src → (src ++ more).getD i 0 = src.getD i 0 := fun i hi =>
    getD_append _ _ _ _ (by omega)
  unfold payloadLen
  rw [headLen_append hnil, hbyte 0 (succ_pos _)]
  by_cases h1 : headLen src > 1
  · rw [hbyte 1 h1]
    by_cases h2 : headLen src > 2
    · rw [hbyte 2 h2]
      by_cases h3 : headLen src > 3
      · rw [hbyte 3 h3]
      · simp only [if_neg h3]
    · have h3 : ¬ headLen src > 3 := by omega
      simp only [if_neg h2, if_neg h3]
  · have h2 : ¬ headLen src > 2 := by omega
    have h3 : ¬ headLen src > 3 := by omega
    simp only [if_neg h1, if_neg h2, if_neg h3]

/-- A whole head stays one when the buffer grows. -/
theorem decodeHead_append (h : c.decodeHead src ≠ .ok none) (more : Bytes) :
    c.decodeHead (src ++ more) = (c.decodeHead src).map (Option.map fun found => (found.1, found.2 ++ more)) := by
  rw [decodeHead_eq] at h
  by_cases hshort : src = [] ∨ src.length < headLen src
  · exact absurd (if_pos hshort) h
  · obtain ⟨hnil, hwhole⟩ := not_or.mp hshort
    have hgrown : ¬ (src ++ more = [] ∨ (src ++ more).length < headLen (src ++ more)) := by
      rw [headLen_append hnil, length_append]
      exact not_or.mpr ⟨fun hempty => hnil (append_eq_nil_iff.mp hempty).1, by omega⟩
    rw [decodeHead_eq, decodeHead_eq, if_neg hshort, if_neg hgrown, payloadLen_append hnil (by omega),
      headLen_append hnil, drop_append_of_le_length (by omega)]
    split <;> rfl

/-- A head takes at least one byte. -/
theorem length_lt_of_decodeHead (h : c.decodeHead src = .ok (some (n, rest))) : rest.length < src.length := by
  rw [decodeHead_eq] at h
  by_cases hshort : src = [] ∨ src.length < headLen src
  · rw [if_pos hshort] at h
    exact nomatch h
  · rw [if_neg hshort] at h
    by_cases hbig : payloadLen src > c.maxPacketLength
    · rw [if_pos hbig] at h
      exact nomatch h
    · rw [if_neg hbig] at h
      obtain ⟨-, rfl⟩ := Prod.mk.inj (Option.some.inj (ok.inj h))
      have hpos : 0 < src.length := length_pos_iff.mpr (not_or.mp hshort).1
      have hhead : 0 < headLen src := Nat.succ_pos _
      rw [length_drop]
      omega

/-- The head is not all there, or it announces a payload, or too large a one, and more bytes do not change
that. -/
theorem decodeHead_cases (c : BytesCodec) (src : Bytes) : c.decodeHead src = .ok none ∨
    (∃ n rest, c.decodeHead src = .ok (some (n, rest)) ∧
      ∀ more, c.decodeHead (src ++ more) = .ok (some (n, rest ++ more))) ∨
    ∃ e, c.decodeHead src = .error e ∧ ∀ more, c.decodeHead (src ++ more) = .error e := by
  cases hhead : c.decodeHead src with
  | error e =>
    refine .inr (.inr ⟨e, rfl, fun more => ?_⟩)
    rw [decodeHead_append (by rw [hhead]; nofun) more, hhead]
    rfl
  | ok found =>
    cases found with
    | none => exact .inl rfl
    | some found =>
      obtain ⟨n, rest⟩ := found
      refine .inr (.inl ⟨n, rest, rfl, fun more => ?_⟩)
      rw [decodeHead_append (by rw [hhead]; nofun) more, hhead]
      rfl

/-- One call of a codec that is not raw. -/
def decodeFrame (maxPacketLength : ℕ) (state : DecodeState) (src : Bytes) :
    Except CodecError (Option Bytes × DecodeState × Bytes) :=
  (decode ⟨state, false, maxPacketLength⟩ src).map fun (data, c, rest) => (data, c.state, rest)

theorem decodeFrame_data (n : ℕ) (src : Bytes) : decodeFrame maxPacketLength (.data n) src =
      if src.length < n then .ok (none, .data n, src) else .ok (some (src.take n), .head, src.drop n) := by
  simp only [decodeFrame, decode, decodeData, Bool.false_eq_true, if_false]
  by_cases hshort : src.length < n
  · rw [if_pos hshort, if_pos hshort]
    rfl
  · rw [if_neg hshort, if_neg hshort]
    rfl

theorem decodeFrame_head (src : Bytes) : decodeFrame maxPacketLength .head src =
      match decodeHead ⟨.head, false, maxPacketLength⟩ src with
      | .error e => .error e
      | .ok none => .ok (none, .head, src)
      | .ok (some (n, rest)) => decodeFrame maxPacketLength (.data n) rest := by
  simp only [decodeFrame, decode, Bool.false_eq_true, if_false]
  cases decodeHead ⟨.head, false, maxPacketLength⟩ src with
  | error e => rfl
  | ok found =>
    cases found with
    | none => rfl
    | some found => rfl

theorem decodeFrame_data_append {o : Bytes} {state : DecodeState} (more : Bytes)
    (h : decodeFrame maxPacketLength (.data n) src = .ok (some o, state, rest)) :
    decodeFrame maxPacketLength (.data n) (src ++ more) = .ok (some o, state, rest ++ more) := by
  rw [decodeFrame_data] at h ⊢
  by_cases hshort : src.length < n
  · rw [if_pos hshort] at h
    exact nomatch h
  · rw [if_neg hshort] at h
    obtain ⟨hitem, heq⟩ := Prod.mk.inj (ok.inj h)
    obtain ⟨rfl, rfl⟩ := Prod.mk.inj heq
    have hwhole : ¬ (src ++ more).length < n := by
      rw [length_append]
      omega
    rw [if_neg hwhole, take_append_of_le_length (by omega), hitem, drop_append_of_le_length (by omega)]

/-- The codec between calls, as long as it is not raw. -/
def framed (maxPacketLength : ℕ) : IncrementalDecoder UInt8 DecodeState Bytes CodecError where
  decode := decodeFrame maxPacketLength
  room state src :=
    match state with
    | .head => 2 * src.length
    | .data _ => 2 * src.length + 1
  room_lt {state src o state' rest} h := by
    have hdata : ∀ {n src}, decodeFrame maxPacketLength (.data n) src = .ok (some o, state', rest) →
        state' = .head ∧ rest.length ≤ src.length := fun {n src} h => by
      rw [decodeFrame_data] at h
      split at h
      · exact nomatch h
      · obtain ⟨-, heq⟩ := Prod.mk.inj (ok.inj h)
        obtain ⟨rfl, rfl⟩ := Prod.mk.inj heq
        exact ⟨rfl, by rw [List.length_drop]; omega⟩
    cases state with
    | data n =>
      obtain ⟨rfl, hlength⟩ := hdata h
      dsimp only
      omega
    | head =>
      rw [decodeFrame_head] at h
      obtain hhead | ⟨n, after, hhead, -⟩ | ⟨e, hhead, -⟩ := decodeHead_cases ⟨.head, false, maxPacketLength⟩ src
      · rw [hhead] at h
        exact nomatch h
      · rw [hhead] at h
        obtain ⟨rfl, hlength⟩ := hdata h
        have hlt := length_lt_of_decodeHead hhead
        dsimp only
        omega
      · rw [hhead] at h
        exact nomatch h
  decode_append_of_item {state src o state' rest} more h := by
    cases state with
    | data n => exact decodeFrame_data_append more h
    | head =>
      rw [decodeFrame_head] at h ⊢
      obtain hhead | ⟨n, after, hhead, hgrown⟩ | ⟨e, hhead, -⟩ :=
        decodeHead_cases ⟨.head, false, maxPacketLength⟩ src
      · rw [hhead] at h
        exact nomatch h
      · rw [hhead] at h
        rw [hgrown more]
        exact decodeFrame_data_append more h
      · rw [hhead] at h
        exact nomatch h
  decode_append_of_none {state src state' rest} more h := by
    have hdata : ∀ {n src}, decodeFrame maxPacketLength (.data n) src = .ok (none, state', rest) →
        state' = .data n ∧ rest = src := fun {n src} h => by
      rw [decodeFrame_data] at h
      split at h
      · obtain ⟨-, heq⟩ := Prod.mk.inj (ok.inj h)
        obtain ⟨rfl, rfl⟩ := Prod.mk.inj heq
        exact ⟨rfl, rfl⟩
      · exact nomatch h
    cases state with
    | data n =>
      obtain ⟨rfl, rfl⟩ := hdata h
      rfl
    | head =>
      rw [decodeFrame_head] at h
      obtain hhead | ⟨n, after, hhead, hgrown⟩ | ⟨e, hhead, -⟩ :=
        decodeHead_cases ⟨.head, false, maxPacketLength⟩ src
      · rw [hhead] at h
        obtain ⟨-, heq⟩ := Prod.mk.inj (ok.inj h)
        obtain ⟨rfl, rfl⟩ := Prod.mk.inj heq
        rfl
      · rw [hhead] at h
        obtain ⟨rfl, rfl⟩ := hdata h
        rw [decodeFrame_head, hgrown more]
      · rw [hhead] at h
        exact nomatch h
  decode_append_of_error {state src e} more h := by
    cases state with
    | data n =>
      rw [decodeFrame_data] at h
      split at h <;> exact nomatch h
    | head =>
      rw [decodeFrame_head] at h ⊢
      obtain hhead | ⟨n, after, hhead, -⟩ | ⟨e', hhead, hgrown⟩ :=
        decodeHead_cases ⟨.head, false, maxPacketLength⟩ src
      · rw [hhead] at h
        exact nomatch h
      · rw [hhead] at h
        dsimp only at h
        rw [decodeFrame_data] at h
        split at h <;> exact nomatch h
      · rw [hhead] at h
        rw [hgrown more, error.inj h]

/-- Decoding changes the state of the codec only. -/
theorem codec_of_decode {c c' : BytesCodec} {data : Option Bytes} (h : c.decode src = .ok (data, c', rest)) :
    c' = { c with state := c'.state } := by
  unfold decode at h
  by_cases hraw : c.raw = true
  · rw [if_pos hraw] at h
    split at h
    · obtain ⟨-, heq⟩ := Prod.mk.inj (ok.inj h)
      rw [← (Prod.mk.inj heq).1]
    · obtain ⟨-, heq⟩ := Prod.mk.inj (ok.inj h)
      rw [← (Prod.mk.inj heq).1]
  · rw [if_neg hraw] at h
    extract_lets announced at h
    clear_value announced
    split at h
    · exact nomatch h
    · obtain ⟨-, heq⟩ := Prod.mk.inj (ok.inj h)
      rw [← (Prod.mk.inj heq).1]
    · split at h
      · obtain ⟨-, heq⟩ := Prod.mk.inj (ok.inj h)
        rw [← (Prod.mk.inj heq).1]
      · obtain ⟨-, heq⟩ := Prod.mk.inj (ok.inj h)
        rw [← (Prod.mk.inj heq).1]

/-- A codec that is not raw decodes as the incremental decoder does. -/
theorem decode_of_framed (hraw : c.raw = false) (src : Bytes) : (framed c.maxPacketLength).decode c.state src =
      (c.decode src).map fun (data, c, rest) => (data, c.state, rest) := by
  obtain ⟨state, raw, maxPacketLength⟩ := c
  obtain rfl : raw = false := hraw
  rfl

/-- A frame in front of the buffer is one item. -/
theorem decodeFrame_header {payload : Bytes} (hlength : payload.length ≤ maxPayload)
    (hmax : payload.length ≤ maxPacketLength) (more : Bytes) :
    decodeFrame maxPacketLength .head (header payload.length ++ payload ++ more) = .ok (some payload, .head, more) := by
  have hwhole : ¬ (payload ++ more).length < payload.length := by
    rw [length_append]
    omega
  rw [decodeFrame_head, append_assoc, decodeHead_header hlength hmax]
  dsimp only
  rw [decodeFrame_data, if_neg hwhole, take_left, drop_left]

/-- The frames of a list of payloads, one behind the other. -/
def frames (payloads : List Bytes) : Bytes := payloads.flatMap fun payload => header payload.length ++ payload

theorem drain_frames
    (hpayloads : ∀ payload ∈ payloads, payload.length ≤ maxPayload ∧ payload.length ≤ maxPacketLength) :
    (framed maxPacketLength).drain .head (frames payloads) = (payloads, .ok (.head, [])) := by
  induction payloads with
  | nil => exact drain_of_none rfl
  | cons payload payloads ih =>
    obtain ⟨hlength, hmax⟩ := hpayloads payload mem_cons_self
    have hframe : (framed maxPacketLength).decode .head (frames (payload :: payloads)) =
        .ok (some payload, .head, frames payloads) := decodeFrame_header hlength hmax (frames payloads)
    rw [drain_of_item hframe, ih fun p hp => hpayloads p (mem_cons_of_mem payload hp)]

/-- The buffer behind which the frames of all payloads were written. -/
def encodeAll (c : BytesCodec) (payloads : List Bytes) (buf : Bytes) : Except CodecError Bytes :=
  payloads.foldlM (fun buf payload => c.encode payload buf) buf

theorem encodeAll_eq (hraw : c.raw = false)
    (hpayloads : ∀ payload ∈ payloads, payload.length ≤ maxPayload) (buf : Bytes) :
    c.encodeAll payloads buf = .ok (buf ++ frames payloads) := by
  induction payloads generalizing buf with
  | nil => exact congrArg ok (append_nil buf).symm
  | cons payload payloads ih =>
    have hencode := encode_eq hraw (hpayloads payload mem_cons_self) buf
    have hrest := ih (fun p hp => hpayloads p (mem_cons_of_mem payload hp)) (buf ++ header payload.length ++ payload)
    rw [encodeAll, foldlM_cons, hencode]
    have hframes : frames (payload :: payloads) = header payload.length ++ payload ++ frames payloads := rfl
    rw [hframes, ← append_assoc, ← append_assoc]
    exact hrest

end Framed

end BytesCodec

/-- What is encoded is decoded: however the frames of the payloads are cut into chunks, the decoder, called
until it asks for more after each chunk, returns the payloads and waits for a head on an empty buffer. -/
theorem codec_round_trip (maxPacketLength : ℕ) (payloads : List Bytes)
    (hpayloads : ∀ payload ∈ payloads, payload.length ≤ 0x3FFFFFFF ∧ payload.length ≤ maxPacketLength) :
    ∃ bytes, ({ maxPacketLength } : BytesCodec).encodeAll payloads [] = .ok bytes ∧
      ∀ chunks : List Bytes, chunks.flatten = bytes →
        (BytesCodec.framed maxPacketLength).feed .head [] chunks = (payloads, .ok (.head, [])) := by
  refine ⟨BytesCodec.frames payloads, ?_, ?_⟩
  · exact BytesCodec.encodeAll_eq rfl (fun payload h => (hpayloads payload h).1) []
  · intro chunks hchunks
    have hsettled : (BytesCodec.framed maxPacketLength).drain .head [] = ([], .ok (.head, [])) :=
      IncrementalDecoder.drain_of_none rfl
    rw [IncrementalDecoder.feed_eq_drain hsettled, List.nil_append, hchunks]
    exact BytesCodec.drain_frames hpayloads

/-- An empty payload and one of two bytes, one byte at a time. -/
theorem codec_round_trip_bytewise :
    (BytesCodec.framed 2).feed .head [] [[0], [8], [1], [2]] = ([[], [1, 2]], .ok (.head, [])) := by
  obtain ⟨bytes, hbytes, hfeed⟩ := codec_round_trip 2 [[], [1, 2]] (by decide)
  have hchunks : [[0], [8], [1], [2]].flatten = bytes := by
    have hencoded : ({ maxPacketLength := 2 } : BytesCodec).encodeAll [[], [1, 2]] [] = .ok [0, 8, 1, 2] := by
      decide
    exact ok.inj (hencoded.symm.trans hbytes)
  exact hfeed _ hchunks

end UnyDesk
