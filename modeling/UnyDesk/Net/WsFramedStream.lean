import UnyDesk.Lib.Utf8
import UnyDesk.Net.FramedStream

/-!
# WebSocket streams

A WebSocket carries one message in each of its own messages, so there is no length to decode. A stream with a key seals
what it sends into binary messages, and its reader decides by the kind of a message whether it is opened. The library
that speaks the protocol hands out messages and errors in the order in which the network delivers them.
-/

namespace UnyDesk

open Lib List Option Except Nat

/-- The kinds of message of the protocol. -/
inductive WsMessage
  | binary (data : Bytes)
  | text (text : String)
  | ping (data : Bytes)
  | pong (data : Bytes)
  | close
  | frame (data : Bytes)

/-- Messages that `next` passes over. -/
def WsMessage.isControl : WsMessage → Bool
  | .ping _ | .pong _ | .frame _ => true
  | .binary _ | .text _ | .close => false

inductive WsStreamError
  | protocol (e : String)
  | decryption

/-- What the library hands out. -/
abbrev WsItem := Except String WsMessage

/-- `WsFramedStream`, with what is still going to be handed out. -/
structure WsFramedStream where
  incoming : List WsItem
  encrypt : Option Encrypt := none

namespace WsFramedStream

variable (box : SecretBox)

def setKey (s : WsFramedStream) (key : Key32) : WsFramedStream := { s with encrypt := some (.new key) }

def isSecured (s : WsFramedStream) : Bool := s.encrypt.isSome

def sendBytes (bytes : Bytes) : WsMessage := .binary bytes

/-- The stream and the message that it sends. -/
def sendRaw (s : WsFramedStream) (msg : Bytes) : WsFramedStream × WsMessage :=
  match s.encrypt with
  | some key =>
    let (key, msg) := key.enc box msg
    ({ s with encrypt := some key }, sendBytes msg)
  | none => (s, sendBytes msg)

/-- The loop of `next` on what is handed out. -/
def nextOf (encrypt : Option Encrypt) : List WsItem → WsFramedStream × Option (Except WsStreamError Bytes)
  | [] => ({ incoming := [], encrypt }, none)
  | .error e :: incoming => ({ incoming, encrypt }, some (.error (.protocol e)))
  | .ok (.binary data) :: incoming =>
    match encrypt with
    | none => ({ incoming, encrypt }, some (.ok data))
    | some key =>
      match key.dec box data with
      | (key, some msg) => ({ incoming, encrypt := some key }, some (.ok msg))
      | (key, none) => ({ incoming, encrypt := some key }, some (.error .decryption))
  | .ok (.text text) :: incoming => ({ incoming, encrypt }, some (.ok (Utf8.encode text)))
  | .ok .close :: incoming => ({ incoming, encrypt }, none)
  | .ok (.ping _) :: incoming | .ok (.pong _) :: incoming | .ok (.frame _) :: incoming => nextOf encrypt incoming

def next (s : WsFramedStream) : WsFramedStream × Option (Except WsStreamError Bytes) := nextOf box s.encrypt s.incoming

end WsFramedStream

/-- A call of `next`: the stream before it and what it returned. -/
structure WsCall where
  before : WsFramedStream
  result : Option (Except WsStreamError Bytes)

/-- What a caller does with a secured stream. -/
inductive WsEvent
  | setKey (key : Key32)
  | sendRaw (msg : Bytes)
  | next

/-- A stream and the calls of `next` so far, oldest first. -/
structure WsSession where
  stream : WsFramedStream
  calls : List WsCall := []

namespace WsSession

variable (box : SecretBox)

def step (s : WsSession) : WsEvent → WsSession
  | .setKey key => { s with stream := s.stream.setKey key }
  | .sendRaw msg => { s with stream := (s.stream.sendRaw box msg).1 }
  | .next =>
    let (stream, result) := s.stream.next box
    { stream, calls := s.calls ++ [{ before := s.stream, result }] }

/-- The run of a caller that begins with `set_key`. -/
def run (key : Key32) (incoming : List WsItem) (events : List WsEvent) : WsSession :=
  runEvents (step box) { stream := WsFramedStream.setKey { incoming } key } events

end WsSession

/-- The first message that is not passed over is binary, and the installed key has opened it to these bytes. -/
def WsCall.Opened (box : SecretBox) (call : WsCall) (bytes : Bytes) : Prop :=
  ∃ (control : List WsMessage) (data : Bytes) (rest : List WsItem) (key : Encrypt),
    call.before.incoming = control.map .ok ++ .ok (.binary data) :: rest ∧ (∀ m ∈ control, m.isControl = true) ∧
      call.before.encrypt = some key ∧ 1 < data.length ∧
      box.openBox key.key.1 (getNonce (key.received + 1)) data = some bytes

/-- A result of more than one byte has been opened by the key. -/
def WsCall.Authentic (box : SecretBox) (call : WsCall) : Prop :=
  ∀ bytes, call.result = some (.ok bytes) → 1 < bytes.length → call.Opened box bytes

/-- No text of more than one byte is handed out. -/
def ShortTexts (incoming : List WsItem) : Prop :=
  ∀ text, .ok (.text text) ∈ incoming → (Utf8.encode text).length ≤ 1

section Next

variable {box : SecretBox} {key : Encrypt}

/-- A message that was opened is the frame's content, or the frame has at most one byte. -/
theorem Encrypt.dec_eq_some {data bytes : Bytes} (h : (key.dec box data).2 = some bytes) :
    (data.length ≤ 1 ∧ bytes = data) ∨
      (1 < data.length ∧ box.openBox key.key.1 (getNonce (key.received + 1)) data = some bytes) := by
  unfold Encrypt.dec at h
  split at h
  next hshort => exact .inl ⟨hshort, (some.inj h).symm⟩
  next hlong => exact .inr ⟨Nat.lt_of_not_le hlong, h⟩

namespace WsFramedStream

/-- Decryption keeps a key. -/
theorem isSecured_nextOf (incoming : List WsItem) : (nextOf box (some key) incoming).1.isSecured = true := by
  induction incoming with
  | nil => rfl
  | cons item incoming ih =>
    cases item with
    | error e => rfl
    | ok message =>
      cases message with
      | binary data =>
        simp only [nextOf]
        split <;> rfl
      | text | close => rfl
      | ping | pong | frame => exact ih

/-- What is left was there before. -/
theorem incoming_nextOf (encrypt : Option Encrypt) (incoming : List WsItem) :
    (nextOf box encrypt incoming).1.incoming <:+ incoming := by
  induction incoming with
  | nil => exact suffix_refl []
  | cons item incoming ih =>
    cases item with
    | error e => exact suffix_cons _ _
    | ok message =>
      cases message with
      | binary data =>
        simp only [nextOf]
        cases encrypt with
        | none => exact suffix_cons _ _
        | some key =>
          dsimp only
          split <;> exact suffix_cons _ _
      | text | close => exact suffix_cons _ _
      | ping | pong | frame => exact ih.trans (suffix_cons _ _)

/-- The way to a result: messages are passed over, and then comes a binary message or a text. -/
theorem result_nextOf {incoming : List WsItem} {bytes : Bytes}
    (h : (nextOf box (some key) incoming).2 = some (.ok bytes)) :
    ∃ (control : List WsMessage) (rest : List WsItem), (∀ m ∈ control, m.isControl = true) ∧
      ((∃ data, incoming = control.map .ok ++ .ok (.binary data) :: rest ∧ (key.dec box data).2 = some bytes) ∨
        ∃ text, incoming = control.map .ok ++ .ok (.text text) :: rest ∧ bytes = Utf8.encode text) := by
  induction incoming with
  | nil => exact nomatch h
  | cons item incoming ih =>
    cases item with
    | error e => exact nomatch h
    | ok message =>
      have hskip (hcontrol : message.isControl = true) (hnext : (nextOf box (some key) incoming).2 = some (.ok bytes)) :
          ∃ (control : List WsMessage) (rest : List WsItem), (∀ m ∈ control, m.isControl = true) ∧
            ((∃ data, .ok message :: incoming = control.map .ok ++ .ok (.binary data) :: rest ∧
                (key.dec box data).2 = some bytes) ∨
              ∃ text, .ok message :: incoming = control.map .ok ++ .ok (.text text) :: rest ∧
                bytes = Utf8.encode text) := by
        obtain ⟨control, rest, hall, hfound⟩ := ih hnext
        have hall' : ∀ m ∈ message :: control, m.isControl = true := by
          intro m hmem
          obtain rfl | hmem := mem_cons.mp hmem
          · exact hcontrol
          · exact hall m hmem
        refine ⟨message :: control, rest, hall', ?_⟩
        obtain ⟨data, rfl, hdec⟩ | ⟨text, rfl, hbytes⟩ := hfound
        · exact .inl ⟨data, rfl, hdec⟩
        · exact .inr ⟨text, rfl, hbytes⟩
      cases message with
      | binary data =>
        refine ⟨[], incoming, nofun, .inl ⟨data, rfl, ?_⟩⟩
        simp only [nextOf] at h
        split at h
        next key' msg heq =>
          rw [heq]
          exact congrArg some (ok.inj (some.inj h))
        next => exact nomatch h
      | text text => exact ⟨[], incoming, nofun, .inr ⟨text, rfl, (ok.inj (some.inj h)).symm⟩⟩
      | close => exact nomatch h
      | ping | pong | frame => exact hskip rfl h

/-- A call on a secured stream whose texts are short. -/
theorem authentic_next {s : WsFramedStream} (hsecured : s.isSecured = true)
    (hshort : ShortTexts s.incoming) : WsCall.Authentic box { before := s, result := (s.next box).2 } := by
  intro bytes hresult hlong
  obtain ⟨key, hkey⟩ := isSome_iff_exists.mp hsecured
  change (nextOf box s.encrypt s.incoming).2 = some (.ok bytes) at hresult
  rw [hkey] at hresult
  obtain ⟨control, rest, hall, ⟨data, hincoming, hdec⟩ | ⟨text, hincoming, rfl⟩⟩ := result_nextOf hresult
  · obtain ⟨hdata, rfl⟩ | ⟨hdata, hopen⟩ := Encrypt.dec_eq_some hdec
    · exact absurd hlong (Nat.not_lt_of_le hdata)
    · exact ⟨control, data, rest, key, hincoming, hall, hkey, hdata, hopen⟩
  · have hmem : .ok (.text text) ∈ s.incoming := by simp [hincoming]
    exact absurd hlong (Nat.not_lt_of_le (hshort text hmem))

end WsFramedStream

end Next

namespace WsSession

variable {box : SecretBox} {s : WsSession} {incoming : List WsItem}

/-- The stream is secured and what it still hands out has been delivered. -/
structure Secured (incoming : List WsItem) (s : WsSession) : Prop where
  secured : s.stream.isSecured = true
  left : s.stream.incoming <:+ incoming

theorem Secured.step (h : Secured incoming s) (event : WsEvent) : Secured incoming (s.step box event) := by
  obtain ⟨key, hkey⟩ := isSome_iff_exists.mp h.secured
  cases event with
  | setKey key' => exact ⟨rfl, h.left⟩
  | sendRaw msg =>
    have hsend : (s.step box (.sendRaw msg)).stream = { s.stream with encrypt := some (key.enc box msg).1 } := by
      simp only [WsSession.step, WsFramedStream.sendRaw, hkey]
    constructor
    · rw [hsend]
      rfl
    · rw [hsend]
      exact h.left
  | next =>
    have hnext : (s.step box .next).stream = (WsFramedStream.nextOf box (some key) s.stream.incoming).1 := by
      simp only [WsSession.step, WsFramedStream.next, hkey]
    constructor
    · rw [hnext]
      exact WsFramedStream.isSecured_nextOf _
    · rw [hnext]
      exact (WsFramedStream.incoming_nextOf _ _).trans h.left

theorem secured_start (key : Key32) (incoming : List WsItem) :
    Secured incoming { stream := WsFramedStream.setKey { incoming } key } := ⟨rfl, suffix_refl _⟩

/-- A text that is still to come is returned by the next call, or the next call reads something before it. -/
theorem text_of_next (box : SecretBox) (key : Encrypt) {text : String} (htext : .ok (.text text) ∈ incoming) :
    (∃ (control : List WsMessage) (rest : List WsItem), (∀ m ∈ control, m.isControl = true) ∧
        incoming = control.map .ok ++ .ok (.text text) :: rest ∧
        (WsFramedStream.nextOf box (some key) incoming).2 = some (.ok (Utf8.encode text))) ∨
      (.ok (.text text) ∈ (WsFramedStream.nextOf box (some key) incoming).1.incoming ∧
        (WsFramedStream.nextOf box (some key) incoming).1.incoming.length < incoming.length) := by
  induction incoming with
  | nil => exact absurd htext not_mem_nil
  | cons item incoming ih =>
    have hlater (hne : item ≠ .ok (.text text)) : .ok (.text text) ∈ incoming :=
      (mem_cons.mp htext).resolve_left hne.symm
    cases item with
    | error e => exact .inr ⟨hlater nofun, lt_succ_self _⟩
    | ok message =>
      cases message with
      | binary data =>
        refine .inr ?_
        simp only [WsFramedStream.nextOf]
        split
        · exact ⟨hlater nofun, lt_succ_self _⟩
        · exact ⟨hlater nofun, lt_succ_self _⟩
      | text text' =>
        by_cases heq : text' = text
        · subst heq
          exact .inl ⟨[], incoming, nofun, rfl, rfl⟩
        · have hne : (ok (.text text') : WsItem) ≠ .ok (.text text) := by
            intro h
            exact heq (WsMessage.text.inj (ok.inj h))
          exact .inr ⟨hlater hne, lt_succ_self _⟩
      | close => exact .inr ⟨hlater nofun, lt_succ_self _⟩
      | ping data | pong data | frame data =>
        obtain ⟨control, rest, hall, hincoming, hresult⟩ | ⟨hmem, hlt⟩ := ih (hlater nofun)
        · refine .inl ⟨_ :: control, rest, ?_, congrArg _ hincoming, hresult⟩
          exact forall_mem_cons.mpr ⟨rfl, hall⟩
        · exact .inr ⟨hmem, lt_succ_of_lt hlt⟩

/-- The first message that is not passed over. -/
theorem find_of_control {control : List WsMessage} (hall : ∀ m ∈ control, m.isControl = true) {message : WsMessage}
    (hmessage : message.isControl = false) (rest : List WsItem) :
    (control.map .ok ++ .ok message :: rest : List WsItem).find? (fun item => item.toOption.any (! ·.isControl)) =
      some (.ok message) := by
  induction control with
  | nil => simp [Except.toOption, hmessage]
  | cons m control ih =>
    obtain ⟨hm, hall⟩ := forall_mem_cons.mp hall
    rw [map_cons, cons_append, find?_cons_of_neg]
    · exact ih hall
    · simp [Except.toOption, hm]

/-- A long text is returned as it came by one of the calls that read everything. -/
theorem exists_text_call (box : SecretBox) {text : String} (hsecured : s.stream.isSecured = true)
    (htext : .ok (.text text) ∈ s.stream.incoming) :
    ∃ events, ∃ call ∈ (runEvents (WsSession.step box) s events).calls,
      call.result = some (.ok (Utf8.encode text)) ∧ ¬ call.Opened box (Utf8.encode text) := by
  generalize hlength : s.stream.incoming.length = length
  induction length using Nat.strongRecOn generalizing s with
  | ind length ih =>
    obtain ⟨key, hkey⟩ := isSome_iff_exists.mp hsecured
    have hnext : (s.step box .next).stream = (WsFramedStream.nextOf box (some key) s.stream.incoming).1 := by
      simp only [WsSession.step, WsFramedStream.next, hkey]
    obtain ⟨control, rest, hall, hincoming, hresult⟩ | ⟨hmem, hlt⟩ := text_of_next box key htext
    · let call : WsCall := { before := s.stream, result := (s.stream.next box).2 }
      refine ⟨[.next], call, mem_append_right _ (mem_singleton.mpr rfl), ?_, ?_⟩
      · change (WsFramedStream.nextOf box s.stream.encrypt s.stream.incoming).2 = _
        rw [hkey, hresult]
      · -- the first message to be read would be a text and binary
        intro hopened
        obtain ⟨control', data, rest', -, hincoming', hall', -⟩ := hopened
        change s.stream.incoming = _ at hincoming'
        have hfind := find_of_control hall' (show (WsMessage.binary data).isControl = false from rfl) rest'
        rw [← hincoming', hincoming, find_of_control hall rfl rest] at hfind
        exact nomatch hfind
    · rw [← hnext] at hmem hlt
      have hsecured' : (s.step box .next).stream.isSecured = true := by
        rw [hnext]
        exact WsFramedStream.isSecured_nextOf _
      obtain ⟨events, hcall⟩ := ih _ (hlength ▸ hlt) hsecured' hmem rfl
      exact ⟨.next :: events, hcall⟩

/-- Every call so far was authentic, on a stream that stays secured. -/
structure AllAuthentic (box : SecretBox) (incoming : List WsItem) (s : WsSession) : Prop extends Secured incoming s where
  authentic : ∀ call ∈ s.calls, call.Authentic box

theorem AllAuthentic.step (hshort : ShortTexts incoming) (h : AllAuthentic box incoming s) (event : WsEvent) :
    AllAuthentic box incoming (s.step box event) := by
  refine { h.toSecured.step event with authentic := ?_ }
  intro call hmem
  cases event with
  | setKey key => exact h.authentic call hmem
  | sendRaw msg => exact h.authentic call hmem
  | next =>
    obtain hold | hnew := mem_append.mp hmem
    · exact h.authentic call hold
    · rw [mem_singleton.mp hnew]
      have hleft : ShortTexts s.stream.incoming := by
        intro text htext
        exact hshort text (h.left.subset htext)
      exact WsFramedStream.authentic_next h.secured hleft

end WsSession

/-- Whatever a caller does with the secured stream, every result of more than one byte has been opened by its key,
exactly when no text of more than one byte is handed out. -/
theorem ws_results_authentic_iff (box : SecretBox) (key : Key32) (incoming : List WsItem) :
    (∀ events, ∀ call ∈ (WsSession.run box key incoming events).calls, call.Authentic box) ↔ ShortTexts incoming := by
  constructor
  · intro hall text htext
    obtain ⟨events, call, hmem, hresult, hopened⟩ := WsSession.exists_text_call box
      (s := { stream := WsFramedStream.setKey { incoming } key }) rfl htext
    refine Nat.le_of_not_lt fun hlong => hopened ?_
    exact hall events call hmem (Utf8.encode text) hresult hlong
  · intro hshort events
    have hstart : WsSession.AllAuthentic box incoming { stream := WsFramedStream.setKey { incoming } key } :=
      { WsSession.secured_start key incoming with authentic := nofun }
    exact (runEvents_invariant_of_step (fun s event h => h.step hshort event) hstart events).authentic

/-- A text that nobody sealed is returned under a key. -/
theorem text_bypasses_key : ¬ ∀ (box : SecretBox) (key : Key32) (incoming : List WsItem) (events : List WsEvent),
      ∀ call ∈ (WsSession.run box key incoming events).calls, call.Authentic box := by
  intro hall
  have hcall := hall tagBox ⟨List.replicate 32 1, rfl⟩ [.ok (.text "hello")] [.next]
    { before := WsFramedStream.setKey { incoming := [.ok (.text "hello")] } ⟨List.replicate 32 1, rfl⟩,
      result := some (.ok [104, 101, 108, 108, 111]) } (List.mem_singleton.mpr rfl)
  obtain ⟨control, data, rest, key, hincoming, hcontrol, -⟩ := hcall [104, 101, 108, 108, 111] rfl (by decide)
  have hfind := WsSession.find_of_control hcontrol (show (WsMessage.binary data).isControl = false from rfl) rest
  rw [← hincoming] at hfind
  exact nomatch hfind

end UnyDesk
