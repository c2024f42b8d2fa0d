import Mathlib.Data.List.Nodup
import UnyDesk.Net.Encrypt

/-!
# Secured ends on an active network

Two ends with one key seal what they send. The network delivers to either end what it likes, in any order:
frames that an end has sealed, as often as it likes and to whichever end, or frames of its own, which no
ideal box opens. The sequences of what the ends sealed and accepted are recorded.
-/

namespace UnyDesk

open Lib Encrypt List

/-- One end and its record, oldest first. -/
structure SecuredEnd where
  encrypt : Encrypt
  /-- The messages passed to `enc`. -/
  plain : List Bytes := []
  /-- The arguments of `secretbox::seal`. -/
  sealCalls : List (Key32 × Nonce) := []
  frames : List Bytes := []
  /-- The messages that `dec` accepted from frames of more than one byte. -/
  accepted : List Bytes := []
  failed : Bool := false

inductive SecuredEvent
  | send (message : Bytes)
  | deliver (frame : Bytes)

namespace SecuredEnd

variable (box : SecretBox)

/-- A message is sealed, or a frame arrives; nothing is read after a decryption error. -/
def act (e : SecuredEnd) : SecuredEvent → SecuredEnd
  | .send message =>
    let (encrypt, frame) := e.encrypt.enc box message
    { e with
      encrypt
      plain := e.plain ++ [message]
      sealCalls := e.sealCalls ++ [(encrypt.key, getNonce encrypt.sent)]
      frames := e.frames ++ [frame] }
  | .deliver frame =>
    if e.failed then e
    else
      match e.encrypt.dec box frame with
      | (encrypt, none) => { e with encrypt, failed := true }
      | (encrypt, some message) =>
        { e with encrypt, accepted := if frame.length ≤ 1 then e.accepted else e.accepted ++ [message] }

/-- What the end has sealed is what its counter says. -/
structure Sealed (key : Key32) (e : SecuredEnd) : Prop where
  key_eq : e.encrypt.key = key
  sent_eq : e.encrypt.sent = e.plain.length
  sealCalls_eq : e.sealCalls = (List.range e.plain.length).map fun i => (key, getNonce (i + 1))
  frames_eq : e.frames = e.plain.mapIdx fun i message => box.sealBox key.1 (getNonce (i + 1)) message

variable {box} {key : Key32} {e other : SecuredEnd}

theorem Sealed.act (h : e.Sealed box key) (event : SecuredEvent) : (e.act box event).Sealed box key := by
  cases event with
  | send message =>
    refine ⟨h.key_eq, ?_, ?_, ?_⟩
    · simp [SecuredEnd.act, enc, h.sent_eq]
    · simp [SecuredEnd.act, enc, h.key_eq, h.sent_eq, h.sealCalls_eq, range_succ]
    · simp [SecuredEnd.act, enc, h.key_eq, h.sent_eq, h.frames_eq, mapIdx_append]
  | deliver frame =>
    have hdec : (e.encrypt.dec box frame).1.key = key ∧ (e.encrypt.dec box frame).1.sent = e.plain.length := by
      rw [← h.key_eq, ← h.sent_eq]
      unfold dec
      split <;> exact ⟨rfl, rfl⟩
    unfold SecuredEnd.act
    dsimp only
    split
    · exact h
    · split
      next encrypt heq =>
        rw [heq] at hdec
        exact ⟨hdec.1, hdec.2, h.sealCalls_eq, h.frames_eq⟩
      next encrypt message heq =>
        rw [heq] at hdec
        exact ⟨hdec.1, hdec.2, h.sealCalls_eq, h.frames_eq⟩

/-- A frame of the end and the message that it seals. -/
theorem Sealed.mem_frames (h : e.Sealed box key) {frame : Bytes} (hframe : frame ∈ e.frames) :
    ∃ (i : ℕ) (message : Bytes), e.plain[i]? = some message ∧ frame = box.sealBox key.1 (getNonce (i + 1)) message := by
  rw [h.frames_eq, mem_mapIdx] at hframe
  obtain ⟨i, hi, rfl⟩ := hframe
  exact ⟨i, e.plain[i], getElem?_eq_getElem hi, rfl⟩

/-- The nonces that an end used, one for each message. -/
theorem Sealed.sealCall_eq (h : e.Sealed box key) {i : ℕ} (hi : i < e.sealCalls.length) :
    i < e.plain.length ∧ e.sealCalls[i] = (key, getNonce (i + 1)) := by
  have hlength : e.sealCalls.length = e.plain.length := by rw [h.sealCalls_eq, length_map, length_range]
  refine ⟨hlength ▸ hi, ?_⟩
  simp [h.sealCalls_eq]

end SecuredEnd

/-- The two ends of a session. -/
structure SecuredSession where
  left : SecuredEnd
  right : SecuredEnd

namespace SecuredSession

variable (box : SecretBox)

/-- `set_key` at both ends. -/
def start (key : Key32) : SecuredSession := ⟨{ encrypt := .new key }, { encrypt := .new key }⟩

def step (s : SecuredSession) : SecuredEvent ⊕ SecuredEvent → SecuredSession
  | .inl event => { s with left := s.left.act box event }
  | .inr event => { s with right := s.right.act box event }

def run (s : SecuredSession) (events : List (SecuredEvent ⊕ SecuredEvent)) : SecuredSession :=
  runEvents (step box) s events

variable {box}

theorem sealed_run (box : SecretBox) (key : Key32) (events : List (SecuredEvent ⊕ SecuredEvent)) :
    ((start key).run box events).left.Sealed box key ∧ ((start key).run box events).right.Sealed box key := by
  have hstart : ((start key).left.Sealed box key ∧ (start key).right.Sealed box key) :=
    ⟨⟨rfl, rfl, rfl, rfl⟩, ⟨rfl, rfl, rfl, rfl⟩⟩
  refine runEvents_invariant_of_step (I := fun s : SecuredSession => s.left.Sealed box key ∧ s.right.Sealed box key)
    (fun s event h => ?_) hstart events
  cases event with
  | inl event => exact ⟨h.1.act event, h.2⟩
  | inr event => exact ⟨h.1, h.2.act event⟩

end SecuredSession

/-- No end repeats a nonce, but the nth message of one end and the nth of the other share theirs. -/
theorem seal_calls_coincide_iff (box : SecretBox) (key : Key32) (events : List (SecuredEvent ⊕ SecuredEvent)) :
    let s := (SecuredSession.start key).run box events
    s.left.plain.length < 2 ^ 64 → s.right.plain.length < 2 ^ 64 →
      s.left.sealCalls.length = s.left.plain.length ∧ s.right.sealCalls.length = s.right.plain.length ∧
      s.left.sealCalls.Nodup ∧ s.right.sealCalls.Nodup ∧
      ∀ (i j : ℕ) (hi : i < s.left.sealCalls.length) (hj : j < s.right.sealCalls.length),
        s.left.sealCalls[i] = s.right.sealCalls[j] ↔ i = j := by
  intro s hleft hright
  obtain ⟨hl, hr⟩ : s.left.Sealed box key ∧ s.right.Sealed box key := SecuredSession.sealed_run box key events
  have hnodup : ∀ n < 2 ^ 64, ((List.range n).map fun i => (key, getNonce (i + 1))).Nodup := by
    intro n hn
    refine List.Nodup.map_on (fun i hi j hj heq => ?_) List.nodup_range
    have hi : i < n := List.mem_range.mp hi
    have hj : j < n := List.mem_range.mp hj
    have hnonce := getNonce_injective (by omega) (by omega) (Prod.mk.inj heq).2
    omega
  refine ⟨?_, ?_, ?_, ?_, fun i j hi hj => ?_⟩
  · rw [hl.sealCalls_eq, List.length_map, List.length_range]
  · rw [hr.sealCalls_eq, List.length_map, List.length_range]
  · rw [hl.sealCalls_eq]
    exact hnodup _ hleft
  · rw [hr.sealCalls_eq]
    exact hnodup _ hright
  · obtain ⟨hi', hcall⟩ := hl.sealCall_eq hi
    obtain ⟨hj', hcall'⟩ := hr.sealCall_eq hj
    rw [hcall, hcall']
    constructor
    · intro heq
      have hnonce := getNonce_injective (by omega) (by omega) (Prod.mk.inj heq).2
      omega
    · rintro rfl
      rfl

/-- Each end says something once. -/
theorem seal_calls_coincide_iff_once :
    let s := (SecuredSession.start ⟨List.replicate 32 1, rfl⟩).run tagBox [.inl (.send [1]), .inr (.send [2])]
    s.left.sealCalls.Nodup ∧ s.left.sealCalls[0]? = s.right.sealCalls[0]? := by
  intro s
  obtain ⟨hleft, hright, hnodup, -, hiff⟩ :=
    seal_calls_coincide_iff tagBox ⟨List.replicate 32 1, rfl⟩ [.inl (.send [1]), .inr (.send [2])]
      (by decide) (by decide)
  have hi : 0 < s.left.sealCalls.length := by decide
  have hj : 0 < s.right.sealCalls.length := by decide
  refine ⟨hnodup, ?_⟩
  rw [List.getElem?_eq_getElem hi, List.getElem?_eq_getElem hj]
  exact congrArg some ((hiff 0 0 hi hj).mpr rfl)

/-- The first messages of the two ends are sealed with one key and one nonce. -/
theorem first_nonces_coincide :
    let s := (SecuredSession.start ⟨List.replicate 32 1, rfl⟩).run tagBox [.inl (.send [1]), .inr (.send [2])]
    s.left.sealCalls = [(⟨List.replicate 32 1, rfl⟩, getNonce 1)] ∧ s.right.sealCalls = s.left.sealCalls := by
  exact ⟨rfl, rfl⟩

section Network

variable {reflected : Bool} {box : SecretBox}

/-- Ideal boxes under the key: what was sealed for one count opens for no other, and to nothing else. -/
def AuthenticBox (box : SecretBox) (key : Key32) : Prop :=
  ∀ i j message message', i < 2 ^ 64 → j < 2 ^ 64 →
    box.openBox key.1 (getNonce j) (box.sealBox key.1 (getNonce i) message) = some message' → j = i ∧ message' = message

/-- What the ideal network can do to an end, below the range of the counters: it delivers what the other end
has sealed, what the end itself has sealed if frames are reflected, and frames that no nonce opens. -/
def SecuredEnd.Admits (box : SecretBox) (key : Key32) (reflected : Bool) (e other : SecuredEnd) : SecuredEvent → Prop
  | .send _ => e.plain.length + 1 < 2 ^ 64
  | .deliver frame =>
    e.encrypt.received + 1 < 2 ^ 64 ∧
      (frame ∈ other.frames ∨ (reflected = true ∧ frame ∈ e.frames) ∨ box.Rejects key.1 frame)

def SecuredSession.Admits (box : SecretBox) (key : Key32) (reflected : Bool) (s : SecuredSession) :
    SecuredEvent ⊕ SecuredEvent → Prop
  | .inl event => s.left.Admits box key reflected s.right event
  | .inr event => s.right.Admits box key reflected s.left event

namespace SecuredEnd

/-- What the end accepted, it accepted in the order in which it was sealed. -/
structure Heard (reflected : Bool) (e other : SecuredEnd) : Prop where
  few : e.plain.length < 2 ^ 64
  received_eq : e.failed = false → e.encrypt.received = e.accepted.length
  heard : ∀ (n : ℕ) (message : Bytes), e.accepted[n]? = some message →
    other.plain[n]? = some message ∨ (reflected = true ∧ e.plain[n]? = some message)

variable {box : SecretBox} {key : Key32} {reflected : Bool} {e other : SecuredEnd}

theorem plain_act (e : SecuredEnd) (event : SecuredEvent) : e.plain <+: (e.act box event).plain := by
  cases event with
  | send message => exact prefix_append _ _
  | deliver frame =>
    unfold act
    dsimp only
    split
    · exact prefix_refl _
    · split <;> exact prefix_refl _

theorem getElem?_mono {A : Type} {xs ys : List A} (h : xs <+: ys) {n : ℕ} {x : A} (hx : xs[n]? = some x) :
    ys[n]? = some x := by
  obtain ⟨rest, rfl⟩ := h
  obtain ⟨hn, -⟩ := List.getElem?_eq_some_iff.mp hx
  rw [List.getElem?_append_left hn, hx]

theorem Heard.other_act (h : Heard reflected e other) (event : SecuredEvent) :
    Heard reflected e (other.act box event) := by
  refine ⟨h.few, h.received_eq, fun n message hn => ?_⟩
  obtain hother | hself := h.heard n message hn
  · exact .inl (getElem?_mono (plain_act other event) hother)
  · exact .inr hself

/-- A frame that opens for the next count is the next message of the end that sealed it. -/
theorem Sealed.opens (hideal : AuthenticBox box key) (h : other.Sealed box key) (hfew : other.plain.length < 2 ^ 64)
    {frame message : Bytes} (hframe : frame ∈ other.frames) {n : ℕ} (hn : n + 1 < 2 ^ 64)
    (hopen : box.openBox key.1 (getNonce (n + 1)) frame = some message) : other.plain[n]? = some message := by
  obtain ⟨i, message', hi, rfl⟩ := h.mem_frames hframe
  obtain ⟨hlt, -⟩ := List.getElem?_eq_some_iff.mp hi
  obtain ⟨hcount, rfl⟩ := hideal (i + 1) (n + 1) message' message (by omega) hn hopen
  rwa [show n = i by omega]

theorem Heard.act (hideal : AuthenticBox box key) (h : Heard reflected e other) (hself : e.Sealed box key)
    (hother : other.Sealed box key) (hfew : other.plain.length < 2 ^ 64) {event : SecuredEvent}
    (hadmits : e.Admits box key reflected other event) : Heard reflected (e.act box event) other := by
  cases event with
  | send message =>
    have hcount : e.plain.length + 1 < 2 ^ 64 := hadmits
    refine ⟨by simpa [SecuredEnd.act] using hcount, h.received_eq, fun n m hn => ?_⟩
    obtain hheard | ⟨hreflected, hheard⟩ := h.heard n m hn
    · exact .inl hheard
    · exact .inr ⟨hreflected, getElem?_mono (plain_act e (.send message)) hheard⟩
  | deliver frame =>
    obtain ⟨hcount, hframe⟩ := hadmits
    by_cases hfailed : e.failed = true
    · have hact : e.act box (.deliver frame) = e := by simp [SecuredEnd.act, hfailed]
      rw [hact]
      exact h
    · have hrunning : e.failed = false := by simpa using hfailed
      by_cases hshort : frame.length ≤ 1
      · have hact : e.act box (.deliver frame) = e := by
          unfold SecuredEnd.act dec
          dsimp only
          rw [if_neg hfailed, if_pos hshort]
          dsimp only
          rw [if_pos hshort]
        rw [hact]
        exact h
      · have hreceived := h.received_eq hrunning
        cases hopen : box.openBox e.encrypt.key.1 (getNonce (e.encrypt.received + 1)) frame with
        | none =>
          refine ⟨?_, ?_, ?_⟩
          · simpa [SecuredEnd.act, dec, hrunning, hshort, hopen] using h.few
          · simp [SecuredEnd.act, dec, hrunning, hshort, hopen]
          · simpa [SecuredEnd.act, dec, hrunning, hshort, hopen] using h.heard
        | some message =>
          have hact : e.act box (.deliver frame) = { e with
                encrypt := { e.encrypt with received := e.encrypt.received + 1 }
                accepted := e.accepted ++ [message] } := by
            simp [SecuredEnd.act, dec, hrunning, hshort, hopen]
          rw [hself.key_eq, hreceived] at hopen
          rw [hreceived] at hcount
          rw [hact]
          refine ⟨h.few, fun _ => by simp [hreceived], fun n m hn => ?_⟩
          rw [List.getElem?_append] at hn
          split at hn
          · exact h.heard n m hn
          next hlast =>
            obtain ⟨rfl, rfl⟩ : n = e.accepted.length ∧ message = m := by
              obtain ⟨hzero, heq⟩ := List.getElem?_eq_some_iff.mp hn
              have hindex : n - e.accepted.length = 0 := by simpa using hzero
              refine ⟨by omega, ?_⟩
              simpa [hindex] using heq
            obtain hframe | ⟨hreflected, hframe⟩ | hrejects := hframe
            · exact .inl (hother.opens hideal hfew hframe hcount hopen)
            · exact .inr ⟨hreflected, hself.opens hideal h.few hframe hcount hopen⟩
            · exact nomatch (hrejects _).symm.trans hopen

end SecuredEnd

/-- What every run on the ideal network keeps. -/
structure SecuredSession.Heard (box : SecretBox) (key : Key32) (reflected : Bool) (s : SecuredSession) : Prop where
  leftSealed : s.left.Sealed box key
  rightSealed : s.right.Sealed box key
  left : SecuredEnd.Heard reflected s.left s.right
  right : SecuredEnd.Heard reflected s.right s.left

theorem SecuredSession.Heard.step {key : Key32} {s : SecuredSession}
    (hideal : AuthenticBox box key) (h : s.Heard box key reflected) {event : SecuredEvent ⊕ SecuredEvent}
    (hadmits : s.Admits box key reflected event) : (s.step box event).Heard box key reflected := by
  cases event with
  | inl event =>
    exact ⟨h.leftSealed.act event, h.rightSealed,
      h.left.act hideal h.leftSealed h.rightSealed h.right.few hadmits, h.right.other_act event⟩
  | inr event =>
    exact ⟨h.leftSealed, h.rightSealed.act event, h.left.other_act event,
      h.right.act hideal h.rightSealed h.leftSealed h.left.few hadmits⟩

theorem SecuredSession.heard_run {key : Key32} (hideal : AuthenticBox box key)
    {events : List (SecuredEvent ⊕ SecuredEvent)}
    (hadmits : RunMeets (SecuredSession.step box) (SecuredSession.Admits box key reflected) (.start key) events) :
    ((SecuredSession.start key).run box events).Heard box key reflected := by
  have hsilent : SecuredEnd.Heard reflected { encrypt := new key } { encrypt := new key } := by
    refine ⟨Nat.two_pow_pos 64, fun _ => rfl, fun n message hn => ?_⟩
    simp at hn
  have hstart : (SecuredSession.start key).Heard box key reflected :=
    ⟨⟨rfl, rfl, rfl, rfl⟩, ⟨rfl, rfl, rfl, rfl⟩, hsilent, hsilent⟩
  exact runEvents_invariant (fun _ _ h hok => h.step hideal hok) hstart hadmits

/-- On an ideal network, the nth message that an end accepts is the nth that one of the two ends sealed; when
no end is given its own frames, the accepted messages are the first ones that the other end sealed. -/
theorem secured_stream_authentic {box : SecretBox} {key : Key32} (hideal : AuthenticBox box key)
    (events : List (SecuredEvent ⊕ SecuredEvent)) (reflected : Bool)
    (hadmits : RunMeets (SecuredSession.step box) (SecuredSession.Admits box key reflected) (.start key) events) :
    let s := (SecuredSession.start key).run box events
    (∀ (n : ℕ) (message : Bytes), s.left.accepted[n]? = some message →
      s.right.plain[n]? = some message ∨ s.left.plain[n]? = some message) ∧
    (∀ (n : ℕ) (message : Bytes), s.right.accepted[n]? = some message →
      s.left.plain[n]? = some message ∨ s.right.plain[n]? = some message) ∧
    (reflected = false → s.left.accepted <+: s.right.plain ∧ s.right.accepted <+: s.left.plain) := by
  intro s
  have h : s.Heard box key reflected := SecuredSession.heard_run hideal hadmits
  refine ⟨fun n message hn => ?_, fun n message hn => ?_, fun hreflected => ⟨?_, ?_⟩⟩
  · exact (h.left.heard n message hn).imp_right And.right
  · exact (h.right.heard n message hn).imp_right And.right
  · refine List.prefix_iff_getElem?.mpr fun n hn => ?_
    obtain hheard | ⟨htrue, -⟩ := h.left.heard n _ (List.getElem?_eq_getElem hn)
    · exact hheard
    · exact nomatch hreflected.symm.trans htrue
  · refine List.prefix_iff_getElem?.mpr fun n hn => ?_
    obtain hheard | ⟨htrue, -⟩ := h.right.heard n _ (List.getElem?_eq_getElem hn)
    · exact hheard
    · exact nomatch hreflected.symm.trans htrue

section Sample

def countTag (key : Bytes) (nonce : Nonce) : Bytes := (key ++ List.replicate 8 0).take 8 ++ nonce.bytes.take 8

theorem length_countTag (key : Bytes) (nonce : Nonce) : (countTag key nonce).length = macBytes := by
  simp [countTag, nonce.length_eq, nonceBytes, macBytes]

/-- A box whose tag is the start of the key and of the nonce. -/
def countBox : SecretBox where
  sealBox key nonce message := countTag key nonce ++ message
  openBox key nonce box := if box.take macBytes = countTag key nonce then some (box.drop macBytes) else none
  openBox_sealBox := message_of_tag length_countTag
  length_of_openBox := length_of_tag length_countTag

theorem countBox_authentic (key : Key32) : AuthenticBox countBox key := by
  intro i j message message' hi hj hopen
  have htake : (countTag key.1 (getNonce i) ++ message).take macBytes = countTag key.1 (getNonce i) :=
    take_left' (length_countTag _ _)
  have hdrop : (countTag key.1 (getNonce i) ++ message).drop macBytes = message :=
    drop_left' (length_countTag _ _)
  change (if (countTag key.1 (getNonce i) ++ message).take macBytes = countTag key.1 (getNonce j) then
    some ((countTag key.1 (getNonce i) ++ message).drop macBytes) else none) = some message' at hopen
  rw [htake, hdrop] at hopen
  split at hopen
  case isTrue htag =>
    have hnonce : u64ToLeBytes i = u64ToLeBytes j := by
      have htags := append_cancel_left htag
      simpa [getNonce, length_u64ToLeBytes] using htags
    exact ⟨(u64ToLeBytes_injective hi hj hnonce).symm, (Option.some.inj hopen).symm⟩
  case isFalse => cases hopen

def sampleKey : Key32 := ⟨List.replicate 32 1, rfl⟩

/-- The first frame that seals a message under the sample key. -/
def sampleFrame (message : Bytes) : Bytes := countBox.sealBox sampleKey.1 (getNonce 1) message

/-- A message crosses and its answer is delivered twice: the copy ends the stream. -/
theorem secured_stream_authentic_crossing :
    let s := (SecuredSession.start sampleKey).run countBox
      [.inl (.send [1, 2]), .inr (.deliver (sampleFrame [1, 2])), .inr (.send [3]),
        .inl (.deliver (sampleFrame [3])), .inl (.deliver (sampleFrame [3]))]
    s.left.failed = true ∧ s.left.accepted = [[3]] ∧ s.right.accepted = [[1, 2]] ∧
      s.left.accepted <+: s.right.plain ∧ s.right.accepted <+: s.left.plain := by
  intro s
  have hadmits : RunMeets (SecuredSession.step countBox) (SecuredSession.Admits countBox sampleKey false)
      (.start sampleKey) [.inl (.send [1, 2]), .inr (.deliver (sampleFrame [1, 2])), .inr (.send [3]),
        .inl (.deliver (sampleFrame [3])), .inl (.deliver (sampleFrame [3]))] :=
    ⟨Nat.lt_of_sub_eq_succ rfl, ⟨Nat.lt_of_sub_eq_succ rfl, .inl (by decide)⟩, Nat.lt_of_sub_eq_succ rfl,
      ⟨Nat.lt_of_sub_eq_succ rfl, .inl (by decide)⟩, ⟨Nat.lt_of_sub_eq_succ rfl, .inl (by decide)⟩,
      trivial⟩
  have h := secured_stream_authentic (countBox_authentic sampleKey) _ false hadmits
  exact ⟨by decide, by decide, by decide, (h.2.2 rfl).1, (h.2.2 rfl).2⟩

/-- An end that is given its own first frame accepts what the other end never said. -/
theorem reflected_frame_is_accepted :
    let events : List (SecuredEvent ⊕ SecuredEvent) := [.inl (.send [1, 2]), .inl (.deliver (sampleFrame [1, 2]))]
    let s := (SecuredSession.start sampleKey).run countBox events
    AuthenticBox countBox sampleKey ∧
      RunMeets (SecuredSession.step countBox) (SecuredSession.Admits countBox sampleKey true) (.start sampleKey) events ∧
      ¬ s.left.accepted <+: s.right.plain := by
  refine ⟨countBox_authentic sampleKey, ⟨Nat.one_lt_two_pow (by decide), ⟨Nat.one_lt_two_pow (by decide), ?_⟩, trivial⟩, ?_⟩
  · exact .inr (.inl ⟨rfl, by decide⟩)
  · decide

end Sample

end Network

end UnyDesk
