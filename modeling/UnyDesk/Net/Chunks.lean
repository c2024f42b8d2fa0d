import UnyDesk.Net.BytesCodec

/-!
# Frames in chunks

The bytes of a connection come in chunks of any size, and whatever they are, it does not matter to the codec how
they were cut. The accesses of the codec to its buffer are those of a program that stops when an index lies
outside of the buffer; none of them does.
-/

namespace UnyDesk

open Lib List Option IncrementalDecoder

section

variable (src : Bytes)

/-- `src[i]`; `none` for a panic. -/
def indexAt (i : ℕ) : Option ℕ := src[i]?.map (·.toNat)

/-- `BytesMut::advance`; `none` for a panic. -/
def advance (count : ℕ) : Option Bytes := if count ≤ src.length then some (src.drop count) else none

/-- `BytesMut::split_to`; `none` for a panic. -/
def splitTo (count : ℕ) : Option (Bytes × Bytes) :=
  if count ≤ src.length then some (src.take count, src.drop count) else none

/-- `BytesMut::reserve`; `none` for a panic at a capacity that does not fit. -/
def reserve (additional : ℕ) : Option Unit :=
  if additional = 0 ∨ src.length + additional < 2 ^ 64 then some () else none

end

def maxPreallocatedPayloadLen : ℕ := 256 * 1024

namespace BytesCodec

/-- The byte of a head that is long enough to have it, above the lower ones. -/
def orByte (src : Bytes) (headLen i n : ℕ) : Option ℕ :=
  if headLen > i then (indexAt src i).map fun byte => n ||| byte <<< (8 * i) else some n

/-- `decode_head` with its panics. -/
def decodeHeadChecked (c : BytesCodec) (src : Bytes) : Option (Except CodecError (Option (ℕ × Bytes))) :=
  if src = [] then some (.ok none)
  else do
    let headLen := ((← indexAt src 0) &&& 3) + 1
    if src.length < headLen then some (.ok none)
    else
      let n ← indexAt src 0
      let n ← orByte src headLen 1 n
      let n ← orByte src headLen 2 n
      let n ← orByte src headLen 3 n
      let n := n >>> 2
      if n > c.maxPacketLength then some (.error .tooBigPacket)
      else do
        let src ← advance src headLen
        reserve src (min (n - src.length) maxPreallocatedPayloadLen)
        some (.ok (some (n, src)))

/-- `decode_data` with its panics. -/
def decodeDataChecked (n : ℕ) (src : Bytes) : Option (Option (Bytes × Bytes)) :=
  if src.length < n then some none else (splitTo src n).map some

/-- `decode` with its panics. -/
def decodeChecked (c : BytesCodec) (src : Bytes) : Option (Except CodecError (Option Bytes × BytesCodec × Bytes)) :=
  if c.raw then
    if src ≠ [] then (splitTo src src.length).map fun (data, rest) => .ok (some data, c, rest)
    else some (.ok (none, c, src))
  else
    let announced : Option (Except CodecError (Option (ℕ × Bytes))) :=
      match c.state with
      | .head => c.decodeHeadChecked src
      | .data n => some (.ok (some (n, src)))
    announced.bind fun
      | .error e => some (.error e)
      | .ok none => some (.ok (none, c, src))
      | .ok (some (n, src)) =>
        (decodeDataChecked n src).map fun
          | some (data, rest) => .ok (some data, { c with state := .head }, rest)
          | none => .ok (none, { c with state := .data n }, src)

section Checked

variable {c : BytesCodec} {src : Bytes} {i n : ℕ}

theorem indexAt_of_lt (h : i < src.length) : indexAt src i = some (src.getD i 0).toNat := by
  rw [indexAt, getElem?_eq_getElem h, getD_eq_getElem _ _ h]
  rfl

theorem splitTo_of_le (h : n ≤ src.length) : splitTo src n = some (src.take n, src.drop n) := if_pos h

/-- A byte above the lower ones. -/
theorem or_shiftLeft_lt {x k : ℕ} (hx : x < 2 ^ k) (p : Prop) [Decidable p] (byte : UInt8) :
    (if p then x ||| byte.toNat <<< k else x) < 2 ^ (k + 8) := by
  have hbelow : x < 2 ^ (k + 8) := Nat.lt_of_lt_of_le hx (Nat.pow_le_pow_right (by decide) (by omega))
  split
  · have hmoved : byte.toNat <<< k < 2 ^ (k + 8) := by
      rw [Nat.shiftLeft_eq, Nat.pow_add, Nat.mul_comm]
      exact Nat.mul_lt_mul_of_pos_left byte.toNat_lt (Nat.two_pow_pos k)
    exact Nat.or_lt_two_pow hbelow hmoved
  · exact hbelow

/-- Four bytes, less the two bits for the length of the head, announce less than 2³⁰. -/
theorem payloadLen_lt (src : Bytes) : payloadLen src < 2 ^ 30 := by
  have h1 := or_shiftLeft_lt (src.getD 0 0).toNat_lt (headLen src > 1) (src.getD 1 0)
  have h2 := or_shiftLeft_lt h1 (headLen src > 2) (src.getD 2 0)
  have h3 := or_shiftLeft_lt h2 (headLen src > 3) (src.getD 3 0)
  unfold payloadLen
  dsimp only
  rw [Nat.shiftRight_eq_div_pow]
  exact Nat.div_lt_of_lt_mul h3

/-- The buffer that is reserved always fits. -/
theorem reserve_eq (hn : n < 2 ^ 30) : reserve src (min (n - src.length) maxPreallocatedPayloadLen) = some () := by
  refine if_pos ?_
  have hmin := Nat.min_le_left (n - src.length) maxPreallocatedPayloadLen
  omega

theorem decodeHeadChecked_eq (c : BytesCodec) (src : Bytes) : c.decodeHeadChecked src = some (c.decodeHead src) := by
  by_cases hnil : src = []
  · rw [decodeHeadChecked, decodeHead, if_pos hnil, if_pos hnil]
  · have hfirst := indexAt_of_lt (length_pos_iff.mpr hnil)
    rw [decodeHead_eq, decodeHeadChecked, if_neg hnil, hfirst]
    simp only [bind_eq_bind, bind_some]
    change (if src.length < headLen src then _ else _) = _
    by_cases hshort : src.length < headLen src
    · rw [if_pos hshort, if_pos (.inr hshort)]
    · rw [if_neg hshort, if_neg (not_or.mpr ⟨hnil, hshort⟩)]
      have hbyte : ∀ i x, orByte src (headLen src) i x =
          some (if headLen src > i then x ||| (src.getD i 0).toNat <<< (8 * i) else x) := by
        intro i x
        rw [orByte]
        by_cases hi : headLen src > i
        · rw [if_pos hi, if_pos hi, indexAt_of_lt (by omega), map_some]
        · rw [if_neg hi, if_neg hi]
      have hlen : ((src.getD 0 0).toNat &&& 3) + 1 = headLen src := rfl
      simp only [hlen, hbyte, bind_some]
      change (if payloadLen src > c.maxPacketLength then _ else _) = _
      split
      · rfl
      · have hadvance : advance src (headLen src) = some (src.drop (headLen src)) := if_pos (by omega)
        rw [hadvance, bind_some]
        change (reserve _ (min (payloadLen src - _) _)).bind _ = _
        rw [reserve_eq (payloadLen_lt src)]
        rfl

theorem decodeChecked_eq (c : BytesCodec) (src : Bytes) : c.decodeChecked src = some (c.decode src) := by
  have hdata : ∀ n (src : Bytes), decodeDataChecked n src = some (decodeData n src) := by
    intro n src
    rw [decodeDataChecked, decodeData]
    by_cases hshort : src.length < n
    · rw [if_pos hshort, if_pos hshort]
    · rw [if_neg hshort, if_neg hshort, splitTo_of_le (by omega), map_some]
  rw [decodeChecked, decode]
  by_cases hraw : c.raw = true
  · rw [if_pos hraw, if_pos hraw, splitTo_of_le (Nat.le_refl _), take_length, drop_length]
    split <;> rfl
  · rw [if_neg hraw, if_neg hraw]
    cases hstate : c.state with
    | head =>
      simp only [decodeHeadChecked_eq, bind_some]
      cases c.decodeHead src with
      | error e => rfl
      | ok found =>
        cases found with
        | none => rfl
        | some found =>
          dsimp only
          rewrite [hdata, map_some]
          cases decodeData found.1 found.2 <;> rfl
    | data n =>
      rewrite [bind_some]
      dsimp only
      rewrite [hdata, map_some]
      cases decodeData n src <;> rfl

end Checked

end BytesCodec

/-- Whatever bytes come and however they are cut, the codec, called until it asks for more or fails after each
chunk, yields the same frames and comes to the same end: the same error, or the same state on the same rest of
the buffer. No call panics, on any buffer in any state. -/
theorem decode_any_chunks (maxPacketLength : ℕ) (chunks chunks' : List Bytes) (h : chunks.flatten = chunks'.flatten) :
    (BytesCodec.framed maxPacketLength).feed .head [] chunks = (BytesCodec.framed maxPacketLength).feed .head [] chunks' ∧
      ∀ (c : BytesCodec) (src : Bytes), c.decodeChecked src = some (c.decode src) := by
  have hsettled : (BytesCodec.framed maxPacketLength).drain .head [] = ([], .ok (.head, [])) :=
    drain_of_none rfl
  refine ⟨?_, BytesCodec.decodeChecked_eq⟩
  rw [feed_eq_drain hsettled, feed_eq_drain hsettled, h]

/-- An empty frame and the head of one that is too large, as a whole and byte by byte. -/
theorem decode_any_chunks_bytewise :
    (BytesCodec.framed 2).feed .head [] [[0, 12, 1]] = (BytesCodec.framed 2).feed .head [] [[0], [12], [1]] :=
  (decode_any_chunks 2 [[0, 12, 1]] [[0], [12], [1]] (by decide)).1

end UnyDesk
