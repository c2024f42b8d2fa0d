import UnyDesk.Lib.LittleEndian
import UnyDesk.Lib.Reads
import UnyDesk.Proto.Message

/-!
# The terminal helper and its input pipe

The helper runs the shell of another user. What the service wants written to the terminal and the sizes that it wants the
terminal to have come as messages through one pipe, which may hand them out in any pieces. The input thread reads a head
and then as much as the head announces, into buffers that it uses again for every message.
-/

namespace UnyDesk

open Lib Lib.LittleEndian List Nat

namespace TerminalHelper

variable {reads : Reads UInt8} {stream buf : Bytes}

def msgTypeData : UInt8 := 0x01

def msgTypeResize : UInt8 := 0x02

def msgHeaderSize : ℕ := 5

def maxPayloadSize : ℕ := 16 * 1024 * 1024

def encodeHelperMessage (msgType : UInt8) (payload : Bytes) : Bytes :=
  msgType :: put 4 (payload.length % 2 ^ 32) ++ payload

def encodeResizeMessage (rows cols : UInt16) : Bytes :=
  encodeHelperMessage msgTypeResize (put 2 rows.toNat ++ put 2 cols.toNat)

/-- What the input thread does to the terminal. -/
inductive PtyEffect
  | write (data : Bytes)
  | resize (rows cols : UInt16)

/-- How the terminal takes what is written. -/
inductive PtyAnswer
  | written
  | writeFailed
  | flushFailed

/-- What one round of the loop meets: whether the shell has exited, and how the terminal answers. -/
structure Round where
  exiting : Bool := false
  pty : PtyAnswer := .written

structure InputThread where
  reads : Reads UInt8
  headerBuf : Bytes := List.replicate msgHeaderSize 0
  payloadBuf : Bytes := List.replicate 4096 0
  effects : List PtyEffect := []

/-- Some bytes of a buffer are replaced. -/
def overwrite (buf : Bytes) (pos : ℕ) (piece : Bytes) : Bytes :=
  buf.take pos ++ piece ++ buf.drop (pos + piece.length)

/-- The buffer is filled from a position up to a length. -/
def readExactOrEof (reads : Reads UInt8) (buf : Bytes) (pos length : ℕ) : Except ReadError Bool × Reads UInt8 × Bytes :=
  if pos < length then
    match hread : reads.read (length - pos) with
    | (.ok [], reads) => (.ok false, reads, buf)
    | (.ok (b :: piece), reads) =>
      readExactOrEof reads (overwrite buf pos (b :: piece)) (pos + (piece.length + 1)) length
    | (.error .interrupted, reads) => readExactOrEof reads buf pos length
    | (.error e, reads) => (.error e, reads, buf)
  else (.ok true, reads, buf)
termination_by reads.length + (length - pos)
decreasing_by
  · have hreads := Reads.length_le_of_read hread
    omega
  · have hreads := Reads.length_lt_of_read_error hread
    omega

namespace InputThread

def push (s : InputThread) (effect : PtyEffect) : InputThread := { s with effects := s.effects ++ [effect] }

/-- What is done with a message that was read. The loop goes on if the first component says so. How much of a payload a
failed write has written is not known, and the result of a resize is not looked at. -/
def handleMessage (pty : PtyAnswer) (msgType : UInt8) (payloadLen : ℕ) (s : InputThread) : Bool × InputThread :=
  if msgType = msgTypeData then
    match pty with
    | .writeFailed => (false, s)
    | .flushFailed => (false, s.push (.write (s.payloadBuf.take payloadLen)))
    | .written => (true, s.push (.write (s.payloadBuf.take payloadLen)))
  else if msgType = msgTypeResize then
    if 4 ≤ payloadLen then
      let rows := UInt16.ofNat (value (s.payloadBuf.take 2))
      let cols := UInt16.ofNat (value ((s.payloadBuf.drop 2).take 2))
      (true, s.push (.resize rows cols))
    else (true, s)
  else (false, s)

/-- One round of the loop. -/
def round (r : Round) (s : InputThread) : Bool × InputThread :=
  if r.exiting then (false, s)
  else
    match readExactOrEof s.reads s.headerBuf 0 msgHeaderSize with
    | (.ok true, reads, headerBuf) =>
      let msgType := headerBuf.headD 0
      let payloadLen := value ((headerBuf.drop 1).take 4)
      if maxPayloadSize < payloadLen then (false, { s with reads, headerBuf })
      else
        let payloadBuf := s.payloadBuf ++ List.replicate (payloadLen - s.payloadBuf.length) 0
        if 0 < payloadLen then
          match readExactOrEof reads payloadBuf 0 payloadLen with
          | (.ok true, reads, payloadBuf) => handleMessage r.pty msgType payloadLen { s with reads, headerBuf, payloadBuf }
          | (_, reads, payloadBuf) => (false, { s with reads, headerBuf, payloadBuf })
        else handleMessage r.pty msgType payloadLen { s with reads, headerBuf, payloadBuf }
    | (_, reads, headerBuf) => (false, { s with reads, headerBuf })

/-- The loop, for at most so many rounds. -/
def loop : ℕ → (ℕ → Round) → InputThread → Option InputThread
  | 0, _, _ => none
  | fuel + 1, rounds, s =>
    match s.round (rounds 0) with
    | (true, s) => loop fuel (fun i => rounds (i + 1)) s
    | (false, s) => some s

end InputThread

/-- A message of the service. -/
inductive HelperMessage
  | data (payload : Bytes)
  | resize (rows cols : UInt16)

namespace HelperMessage

def encode : HelperMessage → Bytes
  | .data payload => encodeHelperMessage msgTypeData payload
  | .resize rows cols => encodeResizeMessage rows cols

def msgType : HelperMessage → UInt8
  | .data _ => msgTypeData
  | .resize _ _ => msgTypeResize

def payload : HelperMessage → Bytes
  | .data payload => payload
  | .resize rows cols => put 2 rows.toNat ++ put 2 cols.toNat

/-- What the message asks for. -/
def effect : HelperMessage → PtyEffect
  | .data payload => .write payload
  | .resize rows cols => .resize rows cols

/-- The payload is one that the helper accepts. -/
def Fits : HelperMessage → Prop
  | .data payload => payload.length ≤ maxPayloadSize
  | .resize _ _ => True

end HelperMessage

section Buffers

variable {buf piece : Bytes} {pos n : ℕ}

section

variable (h : pos + piece.length ≤ buf.length)
include h

theorem take_overwrite : (overwrite buf pos piece).take (pos + piece.length) = buf.take pos ++ piece := by
  refine take_left' ?_
  rw [length_append, length_take, min_eq_left (by omega)]

/-- Behind the new bytes a buffer is as it was. -/
theorem drop_overwrite (hn : pos + piece.length ≤ n) : (overwrite buf pos piece).drop n = buf.drop n := by
  have hfront : (buf.take pos ++ piece).length = pos + piece.length := by
    rw [length_append, length_take, Nat.min_eq_left (by omega)]
  obtain ⟨k, rfl⟩ := Nat.exists_eq_add_of_le hn
  rw [overwrite, ← hfront, drop_length_add_append, drop_drop]

theorem length_overwrite : (overwrite buf pos piece).length = buf.length := by
  rw [overwrite, length_append, length_append, length_take, length_drop]
  omega

end

end Buffers

/-- A buffer is filled with the next bytes of the stream, or its end is found before. -/
theorem readExactOrEof_spec {pos length : ℕ} (h : reads.Delivers stream)
    (hpos : pos ≤ length) (hlength : length ≤ buf.length) :
    (length - pos ≤ stream.length ∧ ∃ reads', reads'.Delivers (stream.drop (length - pos)) ∧
      readExactOrEof reads buf pos length =
        (.ok true, reads', buf.take pos ++ stream.take (length - pos) ++ buf.drop length)) ∨
    (stream.length < length - pos ∧ ∃ reads' buf', readExactOrEof reads buf pos length = (.ok false, reads', buf')) := by
  fun_induction readExactOrEof reads buf pos length generalizing stream with
  | case1 reads buf pos hlt reads' hread =>
    obtain rfl := h.of_end (Nat.sub_pos_of_lt hlt) hread
    exact .inr ⟨Nat.sub_pos_of_lt hlt, reads', buf, rfl⟩
  | case2 reads buf pos hlt b piece reads' hread ih =>
    obtain ⟨rest, rfl, hfits, hrest⟩ := h.of_piece hread (cons_ne_nil b piece)
    rw [← length_cons (a := b)] at ih ⊢
    generalize b :: piece = piece at hfits ih ⊢
    have hroom : pos + piece.length ≤ buf.length := by omega
    have hnext := ih hrest (by omega) (by rwa [length_overwrite hroom])
    rw [Nat.sub_add_eq, take_overwrite hroom, drop_overwrite hroom (by omega)] at hnext
    rw [take_append, take_of_length_le hfits, drop_append, drop_eq_nil_of_le hfits, nil_append,
      length_append, ← append_assoc]
    refine hnext.imp ?_ ?_
    · rintro ⟨hle, hgot⟩
      exact ⟨by omega, hgot⟩
    · rintro ⟨hgt, hgot⟩
      exact ⟨by omega, hgot⟩
  | case3 reads buf pos hlt reads' hread ih => exact ih (h.of_error hread).2 hpos hlength
  | case4 reads buf pos hlt e reads' hother hread => exact (hother (h.of_error hread).1).elim
  | case5 reads buf pos hge =>
    have hend : pos = length := by omega
    subst hend
    left
    rw [Nat.sub_self]
    refine ⟨Nat.zero_le _, reads, h, ?_⟩
    rw [take_zero, append_nil, take_append_drop]

theorem readExactOrEof_front {front back buf : Bytes} (h : reads.Delivers (front ++ back))
    (hlength : front.length ≤ buf.length) : ∃ reads', reads'.Delivers back ∧
      readExactOrEof reads buf 0 front.length = (.ok true, reads', front ++ buf.drop front.length) := by
  have hspec := readExactOrEof_spec h (Nat.zero_le front.length) hlength
  rw [Nat.sub_zero, drop_left, take_left, take_zero, nil_append, length_append] at hspec
  rcases hspec with ⟨-, hgot⟩ | ⟨hshort, -⟩
  · exact hgot
  · omega

theorem readExactOrEof_short {length : ℕ} (h : reads.Delivers stream)
    (hshort : stream.length < length) (hlength : length ≤ buf.length) :
    ∃ reads' buf', readExactOrEof reads buf 0 length = (.ok false, reads', buf') := by
  rcases readExactOrEof_spec h (zero_le length) hlength with ⟨hle, -⟩ | ⟨-, hend⟩
  · omega
  · exact hend

section Rounds

variable {s : InputThread} {r : Round} {msgType : UInt8} {payload rest cut missing : Bytes}

/-- The head of a message. -/
def header (msgType : UInt8) (payload : Bytes) : Bytes := msgType :: put 4 (payload.length % 2 ^ 32)

theorem encodeHelperMessage_eq (msgType : UInt8) (payload : Bytes) :
    encodeHelperMessage msgType payload = header msgType payload ++ payload := rfl

theorem length_header (msgType : UInt8) (payload : Bytes) : (header msgType payload).length = msgHeaderSize := by
  rw [header, length_cons, length_put]
  rfl

/-- The length that the head announces. -/
theorem value_header (hfits : payload.length ≤ maxPayloadSize) :
    value (((header msgType payload).drop 1).take 4) = payload.length := by
  have hsmall : payload.length < 2 ^ 32 := lt_of_le_of_lt hfits (by decide)
  have htake : (put 4 (payload.length % 2 ^ 32)).take 4 = put 4 (payload.length % 2 ^ 32) :=
    take_of_length_le (le_of_eq (length_put 4 _))
  rw [header, drop_one, tail_cons, htake, value_put, mod_eq_of_lt hsmall]
  exact mod_eq_of_lt hsmall

namespace InputThread

/-- The rest of a round, for the head of a message that fits. -/
theorem round_header (hrun : r.exiting = false) (h : s.reads.Delivers (header msgType payload ++ rest))
    (hheader : s.headerBuf.length = msgHeaderSize) (hfits : payload.length ≤ maxPayloadSize) :
    ∃ reads, reads.Delivers rest ∧ s.round r =
        let payloadBuf := s.payloadBuf ++ replicate (payload.length - s.payloadBuf.length) 0
        let headerBuf := header msgType payload
        if 0 < payload.length then
          match readExactOrEof reads payloadBuf 0 payload.length with
          | (.ok true, reads, payloadBuf) =>
            handleMessage r.pty msgType payload.length { s with reads, headerBuf, payloadBuf }
          | (_, reads, payloadBuf) => (false, { s with reads, headerBuf, payloadBuf })
        else handleMessage r.pty msgType payload.length { s with reads, headerBuf, payloadBuf } := by
  have hlength := length_header msgType payload
  obtain ⟨reads, hrest, hread⟩ := readExactOrEof_front h (le_of_eq (hlength.trans hheader.symm))
  have hdrop : s.headerBuf.drop (header msgType payload).length = [] := by
    rw [hlength, ← hheader, drop_length]
  rw [hdrop, append_nil, hlength] at hread
  refine ⟨reads, hrest, ?_⟩
  rw [round, hrun, if_neg Bool.false_ne_true, hread]
  dsimp only
  rw [value_header hfits, if_neg (not_lt.mpr hfits)]
  rfl

/-- A message that is there as a whole is handled, whatever the buffers held before. -/
theorem round_message (hrun : r.exiting = false) (h : s.reads.Delivers (encodeHelperMessage msgType payload ++ rest))
    (hheader : s.headerBuf.length = msgHeaderSize) (hfits : payload.length ≤ maxPayloadSize) :
    ∃ reads headerBuf payloadBuf, reads.Delivers rest ∧ headerBuf.length = msgHeaderSize ∧
      payloadBuf.take payload.length = payload ∧
      s.round r = handleMessage r.pty msgType payload.length { s with reads, headerBuf, payloadBuf } := by
  rw [encodeHelperMessage_eq, append_assoc] at h
  obtain ⟨reads, hpayload, hround⟩ := round_header hrun h hheader hfits
  rw [hround]
  dsimp only
  by_cases hempty : payload.length = 0
  · rw [if_neg (Nat.not_lt.mpr (Nat.le_of_eq hempty))]
    obtain rfl := length_eq_zero_iff.mp hempty
    exact ⟨reads, _, _, hpayload, length_header msgType [], rfl, rfl⟩
  · have hroom : payload.length ≤ (s.payloadBuf ++ replicate (payload.length - s.payloadBuf.length) 0).length := by
      rw [length_append, length_replicate]
      omega
    obtain ⟨reads', hrest, hread⟩ := readExactOrEof_front hpayload hroom
    rw [if_pos (Nat.pos_of_ne_zero hempty), hread]
    exact ⟨reads', _, _, hrest, length_header msgType payload, take_left, rfl⟩

/-- A message that is cut off ends the loop and does nothing. -/
theorem round_cut (h : s.reads.Delivers cut) (hcut : cut ++ missing = encodeHelperMessage msgType payload)
    (hmissing : missing ≠ []) (hheader : s.headerBuf.length = msgHeaderSize) (hfits : payload.length ≤ maxPayloadSize) :
    ∃ s', s.round r = (false, s') ∧ s'.effects = s.effects := by
  cases hrun : r.exiting with
  | true => exact ⟨s, by rw [round, hrun, if_pos rfl], rfl⟩
  | false =>
    by_cases hshort : cut.length < msgHeaderSize
    · obtain ⟨reads, headerBuf, hread⟩ := readExactOrEof_short h hshort (le_of_eq hheader.symm)
      refine ⟨{ s with reads, headerBuf }, ?_, rfl⟩
      rw [round, hrun, if_neg Bool.false_ne_true, hread]
    · have hlength := length_header msgType payload
      obtain ⟨part, rfl, hpart⟩ : ∃ part, cut = header msgType payload ++ part ∧ part ++ missing = payload := by
        rw [encodeHelperMessage_eq] at hcut
        rcases append_eq_append_iff.mp hcut with ⟨more, hmore, hpayload⟩ | ⟨part, hpart, hpayload⟩
        · have hnil : more = [] := by
            have := congrArg length hmore
            rw [length_append] at this
            exact length_eq_zero_iff.mp (by omega)
          subst hnil
          exact ⟨[], by simpa using hmore.symm, by simpa using hpayload⟩
        · exact ⟨part, hpart, hpayload.symm⟩
      obtain ⟨reads, hpayload, hround⟩ := round_header hrun h hheader hfits
      have hpos := length_pos_iff.mpr hmissing
      have hlong : part.length < payload.length := by
        rw [← hpart, length_append]
        omega
      have hroom : payload.length ≤ (s.payloadBuf ++ replicate (payload.length - s.payloadBuf.length) 0).length := by
        rw [length_append, length_replicate]
        omega
      obtain ⟨reads', payloadBuf, hread⟩ := readExactOrEof_short hpayload hlong hroom
      rw [hround]
      dsimp only
      rw [if_pos (by omega), hread]
      exact ⟨_, rfl, rfl⟩

end InputThread

end Rounds

section Messages

variable {m : HelperMessage} {messages : List HelperMessage} {cut : Bytes}

namespace HelperMessage

theorem encode_eq (m : HelperMessage) : m.encode = encodeHelperMessage m.msgType m.payload := by
  cases m <;> rfl

theorem Fits.length_payload (h : m.Fits) : m.payload.length ≤ maxPayloadSize := by
  cases m with
  | data payload => exact h
  | resize rows cols =>
    rw [payload, length_append, length_put, length_put]
    decide

end HelperMessage

theorem ofNat_value_put (n : UInt16) : UInt16.ofNat (value (put 2 n.toNat)) = n := by
  have hlt : n.toNat < 256 ^ 2 := n.toNat_lt
  rw [value_put, mod_eq_of_lt hlt, UInt16.ofNat_toNat]

namespace InputThread

variable {s : InputThread}

/-- A message that is in the buffer does what it asks for. -/
theorem handleMessage_written (s : InputThread) (h : s.payloadBuf.take m.payload.length = m.payload) :
    handleMessage .written m.msgType m.payload.length s = (true, s.push m.effect) := by
  cases m with
  | data payload =>
    change s.payloadBuf.take payload.length = payload at h
    change (true, s.push (.write (s.payloadBuf.take payload.length))) = _
    rw [h]
    rfl
  | resize rows cols =>
    have hrows : s.payloadBuf.take 2 = put 2 rows.toNat := by
      have htake := congrArg (take 2) h
      rw [take_take, HelperMessage.payload, length_append, length_put, length_put, take_left' (length_put 2 _)] at htake
      exact htake
    have hcols : (s.payloadBuf.drop 2).take 2 = put 2 cols.toNat := by
      have hdrop := congrArg (drop 2) h
      rw [drop_take, HelperMessage.payload, length_append, length_put, length_put, drop_left' (length_put 2 _)] at hdrop
      exact hdrop
    change (true, s.push (.resize (UInt16.ofNat (value (s.payloadBuf.take 2)))
      (UInt16.ofNat (value ((s.payloadBuf.drop 2).take 2))))) = _
    rw [hrows, hcols, ofNat_value_put, ofNat_value_put]
    rfl

/-- If the terminal does not take it, the message does that or nothing, and the loop may end. -/
theorem handleMessage_cases (s : InputThread) (pty : PtyAnswer) (h : s.payloadBuf.take m.payload.length = m.payload) :
    (∃ goesOn, handleMessage pty m.msgType m.payload.length s = (goesOn, s.push m.effect)) ∨
      handleMessage pty m.msgType m.payload.length s = (false, s) := by
  have hwritten := handleMessage_written s h
  cases m with
  | data payload =>
    cases pty with
    | written => exact .inl ⟨true, hwritten⟩
    | writeFailed => exact .inr rfl
    | flushFailed => exact .inl ⟨false, Prod.ext rfl (Prod.mk.inj hwritten).2⟩
  | resize rows cols => exact .inl ⟨true, hwritten⟩

/-- A round with a whole message before it does what it asks for, or ends the loop without doing anything. -/
theorem round_encoded {rest : Bytes} (r : Round) (h : s.reads.Delivers (m.encode ++ rest))
    (hheader : s.headerBuf.length = msgHeaderSize) (hm : m.Fits) :
    ∃ goesOn s', s.round r = (goesOn, s') ∧
      (s'.effects = s.effects ++ [m.effect] ∨ goesOn = false ∧ s'.effects = s.effects) ∧
      (goesOn = true → s'.reads.Delivers rest ∧ s'.headerBuf.length = msgHeaderSize) ∧ (r = {} → goesOn = true) := by
  cases hrun : r.exiting with
  | true =>
    refine ⟨false, s, by rw [round, hrun, if_pos rfl], .inr ⟨rfl, rfl⟩, fun hgoes => absurd hgoes Bool.false_ne_true, ?_⟩
    intro hround
    rw [hround] at hrun
    cases hrun
  | false =>
    rw [m.encode_eq] at h
    obtain ⟨reads, headerBuf, payloadBuf, hrest, hheader', hpayload, hround⟩ :=
      round_message hrun h hheader hm.length_payload
    rw [hround]
    have hwritten := handleMessage_written { s with reads, headerBuf, payloadBuf } hpayload
    have hplain : r = {} → r.pty = .written := fun hr => congrArg Round.pty hr
    obtain ⟨goesOn, hnext⟩ | hnext := handleMessage_cases { s with reads, headerBuf, payloadBuf } r.pty hpayload
    · refine ⟨goesOn, _, hnext, .inl rfl, fun _ => ⟨hrest, hheader'⟩, fun hr => ?_⟩
      rw [hplain hr, hwritten] at hnext
      exact (Prod.mk.inj hnext).1.symm
    · refine ⟨false, _, hnext, .inr ⟨rfl, rfl⟩, fun hgoes => absurd hgoes Bool.false_ne_true, fun hr => ?_⟩
      rw [hplain hr, hwritten] at hnext
      exact (Prod.mk.inj hnext).1.symm

/-- The messages that the stream holds as a whole are handled in order, as long as the loop goes on. -/
theorem loop_messages (hfits : ∀ m ∈ messages, m.Fits)
    (hcut : ∃ m missing, HelperMessage.Fits m ∧ missing ≠ [] ∧ cut ++ missing = m.encode)
    (h : s.reads.Delivers (messages.flatMap HelperMessage.encode ++ cut)) (hheader : s.headerBuf.length = msgHeaderSize)
    (rounds : ℕ → Round) {fuel : ℕ} (hfuel : messages.length < fuel) :
    ∃ s' applied, loop fuel rounds s = some s' ∧ s'.effects = s.effects ++ applied ∧
      applied <+: messages.map HelperMessage.effect ∧
      ((∀ i, rounds i = {}) → applied = messages.map HelperMessage.effect) := by
  induction messages generalizing s rounds fuel with
  | nil =>
    obtain ⟨fuel, rfl⟩ := Nat.exists_eq_succ_of_ne_zero (Nat.ne_of_gt hfuel)
    obtain ⟨m, missing, hm, hmissing, hcut⟩ := hcut
    rw [m.encode_eq] at hcut
    obtain ⟨s', hround, heffects⟩ := round_cut (r := rounds 0) h hcut hmissing hheader hm.length_payload
    refine ⟨s', [], ?_, by rw [heffects, List.append_nil], List.nil_prefix, fun _ => rfl⟩
    rw [loop, hround]
  | cons m messages ih =>
    obtain ⟨fuel, rfl⟩ := Nat.exists_eq_succ_of_ne_zero (Nat.ne_zero_of_lt hfuel)
    obtain ⟨hm, hfits⟩ := List.forall_mem_cons.mp hfits
    rw [List.flatMap_cons, List.append_assoc] at h
    obtain ⟨goesOn, s₁, hround, heffects, hnext, hplain⟩ := round_encoded (rounds 0) h hheader hm
    rw [loop, hround]
    cases goesOn with
    | true =>
      have hdone := heffects.resolve_right fun hstops => Bool.noConfusion hstops.1
      obtain ⟨hrest, hheader'⟩ := hnext rfl
      obtain ⟨s', applied, hloop, happlied, hprefix, hall⟩ :=
        ih hfits hrest hheader' (fun i => rounds (i + 1)) (Nat.lt_of_succ_lt_succ hfuel)
      refine ⟨s', m.effect :: applied, hloop, ?_, List.cons_prefix_cons.mpr ⟨rfl, hprefix⟩, fun hrounds => ?_⟩
      · rw [happlied, hdone, List.append_assoc, List.singleton_append]
      · rw [hall fun i => hrounds (i + 1), List.map_cons]
    | false =>
      have hstops : ¬∀ i, rounds i = {} := fun hrounds => Bool.false_ne_true (hplain (hrounds 0))
      obtain hdone | ⟨-, hnothing⟩ := heffects
      · exact ⟨s₁, [m.effect], rfl, hdone, List.cons_prefix_cons.mpr ⟨rfl, List.nil_prefix⟩, fun h => absurd h hstops⟩
      · refine ⟨s₁, [], rfl, ?_, List.nil_prefix, fun h => absurd h hstops⟩
        rw [hnothing, List.append_nil]

/-- A pipe that hands out messages in any pieces, and perhaps the beginning of another one, makes the input thread do what
the messages ask for, in order and nothing else; it stops before only where the shell exits or the terminal fails. -/
theorem loop_delivers (hfits : ∀ m ∈ messages, m.Fits)
    (hcut : ∃ m missing, HelperMessage.Fits m ∧ missing ≠ [] ∧ cut ++ missing = m.encode) {reads : Reads UInt8}
    (h : reads.Delivers (messages.flatMap HelperMessage.encode ++ cut)) (rounds : ℕ → Round) {fuel : ℕ}
    (hfuel : messages.length < fuel) :
    ∃ s, loop fuel rounds { reads } = some s ∧ s.effects <+: messages.map HelperMessage.effect ∧
      ((∀ i, rounds i = {}) → s.effects = messages.map HelperMessage.effect) := by
  have hheader : ({ reads } : InputThread).headerBuf.length = msgHeaderSize := List.length_replicate
  have hstart : ({ reads } : InputThread).reads.Delivers (messages.flatMap HelperMessage.encode ++ cut) := h
  obtain ⟨s, applied, hloop, heffects, hprefix, hall⟩ := loop_messages hfits hcut hstart hheader rounds hfuel
  have heq : s.effects = applied := heffects
  rw [← heq] at hprefix hall
  exact ⟨s, hloop, hprefix, hall⟩

/-- Two messages and the beginning of a third, with a head that comes in three reads. -/
theorem loop_delivers_pieces :
    ∃ s, loop 3 (fun _ => {}) { reads := [.ok [1], .error .interrupted, .ok [2, 0], .ok [0, 0, 0x6c, 0x73, 2, 4],
        .ok [0, 0, 0, 24, 0, 80, 0, 1, 9]] } = some s ∧ s.effects = [.write [0x6c, 0x73], .resize 24 80] := by
  have hcut : [1, 9] ++ (0 :: 0 :: 0 :: List.replicate 9 0) = (HelperMessage.data (List.replicate 9 0)).encode := by decide
  have hstream : [HelperMessage.data [0x6c, 0x73], .resize 24 80].flatMap HelperMessage.encode ++ [1, 9] =
      [1, 2, 0, 0, 0, 0x6c, 0x73, 2, 4, 0, 0, 0, 24, 0, 80, 0, 1, 9] := by decide
  have hdelivers : Reads.Delivers [.ok [1], .error .interrupted, .ok [2, 0], .ok [0, 0, 0x6c, 0x73, 2, 4],
      .ok [0, 0, 0, 24, 0, 80, 0, 1, 9]]
      ([HelperMessage.data [0x6c, 0x73], .resize 24 80].flatMap HelperMessage.encode ++ [1, 9]) := by
    rw [hstream]
    simp [Reads.Delivers]
  have hfits : ∀ m ∈ [HelperMessage.data [0x6c, 0x73], .resize 24 80], m.Fits := by
    simp [HelperMessage.Fits, maxPayloadSize]
  have hnine : (HelperMessage.data (List.replicate 9 0)).Fits := by
    simp [HelperMessage.Fits, maxPayloadSize]
  obtain ⟨s, hloop, -, hall⟩ := loop_delivers hfits ⟨_, _, hnine, List.cons_ne_nil _ _, hcut⟩ hdelivers (fun _ => {})
    (show 2 < 3 by decide)
  exact ⟨s, hloop, hall fun _ => rfl⟩

end InputThread

end Messages

end TerminalHelper

end UnyDesk
