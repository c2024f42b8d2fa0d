import UnyDesk.Net.BytesCodec
import UnyDesk.Net.Encrypt

/-!
# Framed streams

A stream writes each message as one frame, sealed once a key has been set, and reads frames from what has
arrived. A stream that has become raw has neither frames nor a key.
-/

namespace UnyDesk

open Lib BytesCodec IncrementalDecoder List Encrypt

inductive StreamError
  | codec (e : CodecError)
  | decryption

/-- `FramedStream`, with the bytes that were read from the socket and not yet decoded. -/
structure FramedStream where
  codec : BytesCodec := {}
  readBuf : Bytes := []
  encrypt : Option Encrypt := none

namespace FramedStream

variable (box : SecretBox)

section

variable (s : FramedStream)

def setKey (key : Key32) : FramedStream := { s with encrypt := some (.new key) }

/-- What is written to the socket. -/
def sendBytes (bytes : Bytes) : Except CodecError Bytes := s.codec.encode bytes []

def sendRaw (msg : Bytes) : FramedStream × Except CodecError Bytes :=
  match s.encrypt with
  | some key =>
    let (key, msg) := key.enc box msg
    ({ s with encrypt := some key }, s.sendBytes msg)
  | none => (s, s.sendBytes msg)

/-- The next message or an error; nothing when more bytes are needed. -/
def next : FramedStream × Option (Except StreamError Bytes) :=
  match s.codec.decode s.readBuf with
  | .error e => (s, some (.error (.codec e)))
  | .ok (none, codec, readBuf) => ({ s with codec, readBuf }, none)
  | .ok (some bytes, codec, readBuf) =>
    match s.encrypt with
    | none => ({ s with codec, readBuf }, some (.ok bytes))
    | some key =>
      match key.dec box bytes with
      | (key, some msg) => ({ codec, readBuf, encrypt := some key }, some (.ok msg))
      | (key, none) => ({ codec, readBuf, encrypt := some key }, some (.error .decryption))

/-- Bytes arrive from the socket. -/
def arrive (bytes : Bytes) : FramedStream := { s with readBuf := s.readBuf ++ bytes }

end

end FramedStream

/-- One end of a connection, the bytes on their way to it and its record. -/
structure StreamEnd where
  stream : FramedStream
  wire : Bytes := []
  sent : List Bytes := []
  received : List Bytes := []
  error : Option StreamError := none

inductive StreamEvent
  | sendRaw (msg : Bytes)
  /-- The socket yields up to so many bytes. -/
  | read (n : ℕ)
  | next

namespace StreamEnd

variable (box : SecretBox)

/-- The end after an event and the bytes that it writes. -/
def act (e : StreamEnd) : StreamEvent → StreamEnd × Bytes
  | .sendRaw msg =>
    match e.stream.sendRaw box msg with
    | (stream, .ok bytes) => ({ e with stream, sent := e.sent ++ [msg] }, bytes)
    | (stream, .error err) => ({ e with stream, error := some (.codec err) }, [])
  | .read n => ({ e with stream := e.stream.arrive (e.wire.take n), wire := e.wire.drop n }, [])
  | .next =>
    match e.stream.next box with
    | (stream, none) => ({ e with stream }, [])
    | (stream, some (.ok msg)) => ({ e with stream, received := e.received ++ [msg] }, [])
    | (stream, some (.error err)) => ({ e with stream, error := some err }, [])

def deliver (e : StreamEnd) (bytes : Bytes) : StreamEnd := { e with wire := e.wire ++ bytes }

/-- The stream has nothing more to yield. -/
def Drained (e : StreamEnd) : Prop := e.wire = [] ∧ (e.stream.next box).2 = none

end StreamEnd

structure StreamPair where
  left : StreamEnd
  right : StreamEnd

namespace StreamPair

variable (box : SecretBox)

/-- Two streams that share a key with fresh counters. -/
def start (key : Key32) : StreamPair :=
  ⟨{ stream := ({} : FramedStream).setKey key }, { stream := ({} : FramedStream).setKey key }⟩

def step (p : StreamPair) : StreamEvent ⊕ StreamEvent → StreamPair
  | .inl event => { left := (p.left.act box event).1, right := p.right.deliver (p.left.act box event).2 }
  | .inr event => { left := p.left.deliver (p.right.act box event).2, right := (p.right.act box event).1 }

def run (p : StreamPair) (events : List (StreamEvent ⊕ StreamEvent)) : StreamPair := runEvents (step box) p events

end StreamPair

section RoundTrip

variable {box : SecretBox} {key : Key32} {sent : List Bytes}

/-- The messages of a stream as its end seals them. -/
def sealedAll (box : SecretBox) (key : Key32) (messages : List Bytes) : List Bytes :=
  messages.mapIdx fun i msg => box.sealBox key.1 (getNonce (i + 1)) msg

theorem sealedAll_append (messages : List Bytes) (msg : Bytes) : sealedAll box key (messages ++ [msg]) =
      sealedAll box key messages ++ [box.sealBox key.1 (getNonce (messages.length + 1)) msg] := by
  simp [sealedAll, mapIdx_append]

@[simp] theorem length_sealedAll (messages : List Bytes) :
    (sealedAll box key messages).length = messages.length := by
  simp [sealedAll]

namespace StreamEnd

/-- An end that can seal: its stream has the key and has counted its messages. -/
structure Sealing (key : Key32) (e : StreamEnd) : Prop where
  framed : e.stream.codec.raw = false
  encrypt : ∃ received, e.stream.encrypt = some ⟨key, e.sent.length, received⟩

/-- What the other end has sealed and this end has not read is in its buffer and on the way to it. -/
structure Reading (box : SecretBox) (key : Key32) (sent : List Bytes) (e : StreamEnd) : Prop where
  framed : e.stream.codec.raw = false
  received : e.received <+: sent
  encrypt : ∃ sentCount, e.stream.encrypt = some ⟨key, sentCount, e.received.length⟩
  pending : (BytesCodec.framed e.stream.codec.maxPacketLength).drain e.stream.codec.state
    (e.stream.readBuf ++ e.wire) = ((sealedAll box key sent).drop e.received.length, .ok (.head, []))
  fits : BytesCodec.maxPayload ≤ e.stream.codec.maxPacketLength

variable {e : StreamEnd} {sent : List Bytes} {msg : Bytes}

/-- The bytes of a message as the end seals it next. -/
def nextFrame (box : SecretBox) (key : Key32) (sent : List Bytes) (msg : Bytes) : Bytes :=
  BytesCodec.header (msg.length + macBytes) ++ box.sealBox key.1 (getNonce (sent.length + 1)) msg

variable (box) in
theorem Sealing.act_sendRaw (h : e.Sealing key) (hlength : msg.length + macBytes ≤ maxPayload) :
    ∃ received, e.act box (.sendRaw msg) = ({ e with
          stream := { e.stream with encrypt := some ⟨key, e.sent.length + 1, received⟩ }
          sent := e.sent ++ [msg] }, nextFrame box key e.sent msg) := by
  obtain ⟨received, hencrypt⟩ := h.encrypt
  have hsealed : (box.sealBox key.1 (getNonce (e.sent.length + 1)) msg).length = msg.length + macBytes :=
    box.length_sealBox _ _ _
  have hencode := encode_eq h.framed (Nat.le_trans (Nat.le_of_eq hsealed) hlength) []
  refine ⟨received, ?_⟩
  simp only [act, FramedStream.sendRaw, hencrypt, enc, FramedStream.sendBytes, hencode]
  rw [hsealed, nil_append]
  rfl

theorem Sealing.act_sendRaw_sealing (h : e.Sealing key) (hlength : msg.length + macBytes ≤ maxPayload) :
    (e.act box (.sendRaw msg)).1.Sealing key := by
  obtain ⟨received, hact⟩ := h.act_sendRaw box hlength
  rw [hact]
  exact ⟨h.framed, received, by simp⟩

section

variable (h : e.Reading box key sent)
include h

/-- A frame that is written joins what is to be read. -/
theorem Reading.deliver (hlength : msg.length + macBytes ≤ maxPayload) :
    (e.deliver (nextFrame box key sent msg)).Reading box key (sent ++ [msg]) := by
  have hsealed : (box.sealBox key.1 (getNonce (sent.length + 1)) msg).length = msg.length + macBytes :=
    box.length_sealBox _ _ _
  refine ⟨h.framed, h.received.trans (prefix_append _ _), h.encrypt, ?_, h.fits⟩
  have hframe : (BytesCodec.framed e.stream.codec.maxPacketLength).decode .head (nextFrame box key sent msg) =
      .ok (some (box.sealBox key.1 (getNonce (sent.length + 1)) msg), .head, []) := by
    have hsmall := Nat.le_trans (Nat.le_of_eq hsealed) hlength
    have hdecode := BytesCodec.decodeFrame_header hsmall (Nat.le_trans hsmall h.fits) []
    rwa [append_nil, hsealed] at hdecode
  have hdone : (BytesCodec.framed e.stream.codec.maxPacketLength).drain .head [] = ([], .ok (.head, [])) :=
    IncrementalDecoder.drain_of_none rfl
  have hread : e.received.length ≤ (sealedAll box key sent).length := by
    rw [length_sealedAll]
    exact h.received.length_le
  change (BytesCodec.framed e.stream.codec.maxPacketLength).drain e.stream.codec.state
    (e.stream.readBuf ++ (e.wire ++ nextFrame box key sent msg)) =
      ((sealedAll box key (sent ++ [msg])).drop e.received.length, .ok (.head, []))
  rw [← append_assoc, IncrementalDecoder.drain_append, h.pending]
  dsimp only
  rw [nil_append, IncrementalDecoder.drain_of_item hframe, hdone, sealedAll_append, drop_append_of_le_length hread]

theorem Reading.read (n : ℕ) : (e.act box (.read n)).1.Reading box key sent := by
  refine ⟨h.framed, h.received, h.encrypt, ?_, h.fits⟩
  have hpending := h.pending
  rw [← take_append_drop n e.wire, ← append_assoc] at hpending
  exact hpending

/-- The next item is the next message, and it opens for the count of the messages read. -/
theorem Reading.next :
    (e.act box .next).1.Reading box key sent ∧ (e.act box .next).1.error = e.error := by
  obtain ⟨sentCount, hencrypt⟩ := h.encrypt
  have hdecode := decode_of_framed h.framed e.stream.readBuf
  cases hstep : e.stream.codec.decode e.stream.readBuf with
  | error err =>
    rw [hstep] at hdecode
    have hpending := h.pending
    rw [drain_of_error (decode_append_of_error _ e.wire hdecode)] at hpending
    exact nomatch congrArg Prod.snd hpending
  | ok found =>
    obtain ⟨data, codec, rest⟩ := found
    rw [hstep] at hdecode
    have hcodec := codec_of_decode hstep
    cases data with
    | none =>
      have hact : (e.act box .next).1 = { e with stream := { e.stream with codec, readBuf := rest } } := by
        simp only [act, FramedStream.next, hstep]
      rw [hact]
      have hpending := h.pending
      rw [drain_congr (decode_append_of_none _ e.wire hdecode)] at hpending
      refine ⟨⟨?_, h.received, ⟨sentCount, hencrypt⟩, ?_, ?_⟩, rfl⟩
      · rw [hcodec]
        exact h.framed
      · rw [hcodec]
        exact hpending
      · rw [hcodec]
        exact h.fits
    | some bytes =>
      have hpending := h.pending
      rw [drain_of_item (decode_append_of_item _ e.wire hdecode)] at hpending
      obtain ⟨hitems, hstop⟩ := Prod.mk.inj hpending
      have hmore : e.received.length < (sealedAll box key sent).length := by
        by_contra hend
        rw [drop_of_length_le (Nat.le_of_not_lt hend)] at hitems
        exact nomatch hitems
      rw [drop_eq_getElem_cons hmore] at hitems
      obtain ⟨hbytes, hrest⟩ := cons.inj hitems
      have hsent : e.received.length < sent.length := by rwa [length_sealedAll] at hmore
      have hopen : box.openBox key.1 (getNonce (e.received.length + 1)) bytes = some sent[e.received.length] := by
        rw [hbytes]
        simp only [sealedAll, getElem_mapIdx]
        exact box.openBox_sealBox _ _ _
      have hlong : ¬ bytes.length ≤ 1 := by
        have hlength := box.length_of_openBox _ _ _ _ hopen
        unfold macBytes at hlength
        omega
      have hact : (e.act box .next).1 = { e with
            stream := ⟨codec, rest, some ⟨key, sentCount, e.received.length + 1⟩⟩
            received := e.received ++ [sent[e.received.length]] } := by
        simp only [act, FramedStream.next, hstep, hencrypt, dec, if_neg hlong, hopen]
      rw [hact]
      refine ⟨⟨?_, ?_, ⟨sentCount, ?_⟩, ?_, ?_⟩, rfl⟩
      · rw [hcodec]
        exact h.framed
      · obtain ⟨tail, htail⟩ := h.received
        refine ⟨tail.drop 1, ?_⟩
        have htake : sent[e.received.length] :: tail.drop 1 = tail := by
          simp only [← htail] at hsent ⊢
          cases tail with
          | nil => simp at hsent
          | cons next tail => simp
        dsimp only
        rw [append_assoc, singleton_append, htake, htail]
      · rw [length_append, length_singleton]
      · rw [length_append, length_singleton, hcodec]
        exact Prod.ext hrest hstop
      · rw [hcodec]
        exact h.fits

end

theorem next_codec_raw (s : FramedStream) : (s.next box).1.codec.raw = s.codec.raw := by
  unfold FramedStream.next
  split
  · rfl
  next hdecode => rw [codec_of_decode hdecode]
  next hdecode =>
    rw [codec_of_decode hdecode]
    split
    · rfl
    · split <;> rfl

/-- Reading does not touch the key or the count of what was sealed. -/
theorem next_encrypt {s : FramedStream} {sentCount received : ℕ} (h : s.encrypt = some ⟨key, sentCount, received⟩) :
    ∃ received', (s.next box).1.encrypt = some ⟨key, sentCount, received'⟩ := by
  have hdec : ∀ bytes, ∃ received', (dec box ⟨key, sentCount, received⟩ bytes).1 =
      ⟨key, sentCount, received'⟩ := fun bytes => by
    unfold dec
    split
    · exact ⟨received, rfl⟩
    · exact ⟨received + 1, rfl⟩
  unfold FramedStream.next
  split
  · exact ⟨received, h⟩
  · exact ⟨received, h⟩
  next bytes codec readBuf _ =>
    obtain ⟨received', hkey⟩ := hdec bytes
    rw [h]
    dsimp only
    split
    next heq => exact ⟨received', by rw [← hkey, heq]⟩
    next heq => exact ⟨received', by rw [← hkey, heq]⟩

theorem Sealing.act_read (h : e.Sealing key) (n : ℕ) : (e.act box (.read n)).1.Sealing key := ⟨h.framed, h.encrypt⟩

theorem Sealing.deliver (h : e.Sealing key) (bytes : Bytes) : (e.deliver bytes).Sealing key := ⟨h.framed, h.encrypt⟩

variable (box) in
theorem act_next_sent (e : StreamEnd) : (e.act box .next).1.sent = e.sent ∧ (e.act box .next).2 = [] ∧
    (e.act box .next).1.stream = (e.stream.next box).1 := by
  unfold act
  dsimp only
  split
  next heq => exact ⟨rfl, rfl, by rw [heq]⟩
  next heq => exact ⟨rfl, rfl, by rw [heq]⟩
  next heq => exact ⟨rfl, rfl, by rw [heq]⟩

theorem Sealing.act_next (h : e.Sealing key) : (e.act box .next).1.Sealing key := by
  obtain ⟨hsent, -, hstream⟩ := act_next_sent box e
  obtain ⟨received, hencrypt⟩ := h.encrypt
  refine ⟨?_, ?_⟩
  · rw [hstream, next_codec_raw]
    exact h.framed
  · rw [hstream, hsent]
    exact next_encrypt hencrypt

/-- Sealing does not touch what is to be read. -/
theorem Reading.act_sendRaw (h : e.Reading box key sent) : (e.act box (.sendRaw msg)).1.Reading box key sent := by
  obtain ⟨sentCount, hencrypt⟩ := h.encrypt
  have hsend : (e.stream.sendRaw box msg).1 =
      { e.stream with encrypt := some ⟨key, sentCount + 1, e.received.length⟩ } := by
    simp only [FramedStream.sendRaw, hencrypt, enc]
  unfold act
  dsimp only
  split
  next heq =>
    rw [heq] at hsend
    dsimp only at hsend
    rw [hsend]
    exact ⟨h.framed, h.received, ⟨sentCount + 1, rfl⟩, h.pending, h.fits⟩
  next heq =>
    rw [heq] at hsend
    dsimp only at hsend
    rw [hsend]
    exact ⟨h.framed, h.received, ⟨sentCount + 1, rfl⟩, h.pending, h.fits⟩

end StreamEnd

/-- Both ends can seal, and each reads what the other has sealed. -/
structure StreamPair.Joined (box : SecretBox) (key : Key32) (p : StreamPair) : Prop where
  leftSealing : p.left.Sealing key
  rightSealing : p.right.Sealing key
  leftReading : p.left.Reading box key p.right.sent
  rightReading : p.right.Reading box key p.left.sent
  leftError : p.left.error = none
  rightError : p.right.error = none

/-- A message fits into a frame when it is sealed. -/
def StreamEvent.Fits : StreamEvent → Prop
  | .sendRaw msg => msg.length + macBytes ≤ 0x3FFFFFFF
  | _ => True

theorem StreamEnd.Reading.deliver_nil {e : StreamEnd} (h : e.Reading box key sent) :
    (e.deliver []).Reading box key sent := by
  have heq : e.deliver [] = e := by rw [StreamEnd.deliver, append_nil]
  rw [heq]
  exact h

/-- What an event at one end does to both. -/
theorem joined_act {e other : StreamEnd} (hsealing : e.Sealing key) (hreading : e.Reading box key other.sent)
    (hother : other.Reading box key e.sent) (herror : e.error = none) {event : StreamEvent} (hfits : event.Fits) :
    (e.act box event).1.Sealing key ∧ (e.act box event).1.Reading box key other.sent ∧
      (other.deliver (e.act box event).2).Reading box key (e.act box event).1.sent ∧
      (e.act box event).1.error = none := by
  cases event with
  | sendRaw msg =>
    have hlength : msg.length + macBytes ≤ maxPayload := hfits
    obtain ⟨received, hact⟩ := hsealing.act_sendRaw box hlength
    refine ⟨hsealing.act_sendRaw_sealing hlength, hreading.act_sendRaw, ?_, ?_⟩
    · rw [hact]
      exact hother.deliver hlength
    · rw [hact]
      exact herror
  | read n => exact ⟨hsealing.act_read n, hreading.read n, hother.deliver_nil, herror⟩
  | next =>
    obtain ⟨hsent, hout, -⟩ := StreamEnd.act_next_sent box e
    refine ⟨hsealing.act_next, hreading.next.1, ?_, hreading.next.2.trans herror⟩
    rw [hsent, hout]
    exact hother.deliver_nil

theorem StreamPair.Joined.step {p : StreamPair} (h : p.Joined box key) {event : StreamEvent ⊕ StreamEvent}
    (hfits : event.elim StreamEvent.Fits StreamEvent.Fits) : (p.step box event).Joined box key := by
  cases event with
  | inl event =>
    obtain ⟨hsealing, hreading, hother, herror⟩ := joined_act h.leftSealing h.leftReading h.rightReading h.leftError hfits
    exact ⟨hsealing, h.rightSealing.deliver _, hreading, hother, herror, h.rightError⟩
  | inr event =>
    obtain ⟨hsealing, hreading, hother, herror⟩ :=
      joined_act h.rightSealing h.rightReading h.leftReading h.rightError hfits
    exact ⟨h.leftSealing.deliver _, hsealing, hother, hreading, h.leftError, herror⟩

theorem StreamPair.joined_start (box : SecretBox) (key : Key32) : (start key).Joined box key := by
  have hfits : 0x3FFFFFFF ≤ 2 ^ 64 - 1 := by decide
  have hreading : ({ stream := ({} : FramedStream).setKey key } : StreamEnd).Reading box key [] :=
    ⟨rfl, prefix_refl _, ⟨0, rfl⟩, drain_of_none rfl, hfits⟩
  exact ⟨⟨rfl, 0, rfl⟩, ⟨rfl, 0, rfl⟩, hreading, hreading, rfl, rfl⟩

/-- A drained stream has yielded everything. -/
theorem StreamEnd.Reading.drained {e : StreamEnd} (h : e.Reading box key sent)
    (hdrained : e.Drained box) : e.received = sent := by
  obtain ⟨hwire, hnext⟩ := hdrained
  have hdecode := decode_of_framed h.framed e.stream.readBuf
  have hpending := h.pending
  rw [hwire, append_nil] at hpending
  cases hstep : e.stream.codec.decode e.stream.readBuf with
  | error err => simp [FramedStream.next, hstep] at hnext
  | ok found =>
    obtain ⟨data, codec, rest⟩ := found
    rw [hstep] at hdecode
    cases data with
    | none =>
      rw [drain_of_none hdecode] at hpending
      have hall : (sealedAll box key sent).length ≤ e.received.length :=
        drop_eq_nil_iff.mp (congrArg Prod.fst hpending).symm
      rw [length_sealedAll] at hall
      exact h.received.eq_of_length_le hall
    | some bytes =>
      unfold FramedStream.next at hnext
      rw [hstep] at hnext
      dsimp only at hnext
      split at hnext
      · exact nomatch hnext
      · split at hnext <;> exact nomatch hnext

/-- Whatever the interleaving of the two ends and the cutting of the byte streams, neither end meets an error,
each yields the messages of the other in order, and all of them once its stream is drained. -/
theorem secured_round_trip (box : SecretBox) (key : Key32) (events : List (StreamEvent ⊕ StreamEvent))
    (hfits : ∀ event ∈ events, event.elim StreamEvent.Fits StreamEvent.Fits) :
    let p := (StreamPair.start key).run box events
    p.left.error = none ∧ p.right.error = none ∧ p.left.received <+: p.right.sent ∧ p.right.received <+: p.left.sent ∧
      (p.left.Drained box → p.left.received = p.right.sent) ∧
      (p.right.Drained box → p.right.received = p.left.sent) := by
  intro p
  have h : p.Joined box key := runEvents_invariant (fun _ _ h hok => h.step hok) (StreamPair.joined_start box key)
    (runMeets_of_forall hfits _)
  exact ⟨h.leftError, h.rightError, h.leftReading.received, h.rightReading.received, h.leftReading.drained,
    h.rightReading.drained⟩

/-- A message and an empty one cross in pieces. -/
theorem secured_round_trip_pieces :
    let p := (StreamPair.start ⟨List.replicate 32 1, rfl⟩).run tagBox
      [.inl (.sendRaw [1, 2]), .inl (.sendRaw []), .inr (.read 5), .inr .next, .inr (.read 40), .inr .next,
        .inr .next, .inr .next]
    p.right.Drained tagBox ∧ p.right.received = p.left.sent ∧ p.left.sent = [[1, 2], []] := by
  intro p
  have h := secured_round_trip tagBox ⟨List.replicate 32 1, rfl⟩
    [.inl (.sendRaw [1, 2]), .inl (.sendRaw []), .inr (.read 5), .inr .next, .inr (.read 40), .inr .next,
      .inr .next, .inr .next] (by simp [StreamEvent.Fits, macBytes])
  have hdrained : p.right.Drained tagBox := ⟨by decide, by decide⟩
  exact ⟨hdrained, h.2.2.2.2.2 hdrained, by decide⟩

end RoundTrip

end UnyDesk
