import UnyDesk.Server.Snapshot

/-!
# A video service and its encoders

The thread of a video service makes an encoder for every inner loop and sends each frame that it outputs to the subscribers.
A round of the loop that finds newcomers beside older subscribers ends the loop, so that all start at a new encoder. It does
not look at whether the encoder has output anything: newcomers that find no older subscriber join it as it is.
-/

namespace UnyDesk

open Lib List

/-- Where the service thread is, with what it holds. -/
inductive CapturePhase (M : Type)
  /-- Outside of the inner loop. -/
  | hibernate
  | loop
  /-- A frame was captured, and its round has not looked for newcomers yet. -/
  | captured
  /-- A `ServiceSwap` exists, and has not looked for older subscribers yet. -/
  | swap
  /-- The `ServiceSwap` is dropped next, and a switch follows or not. -/
  | drop (switch : Bool)
  | encode
  /-- The encoder has output a frame, the one with the number. -/
  | output (number : ℕ) (msg : M)

/-- The number of the next frame that the encoder sends, behind those that it has output. -/
def CapturePhase.nextFrame {M : Type} : CapturePhase M → ℕ → Option ℕ
  | .hibernate, _ => none
  | .output number _, _ => some number
  | _, outputs => some outputs

inductive VideoStep (T M : Type)
  | onSubscribe (s : T)
  | onUnsubscribe (id : Int)
  /-- The thread enters the inner loop, and the encoder is made or not. -/
  | enter (made : Bool)
  /-- The test of the loop, and the checks that follow it; a round without a frame leads back here. -/
  | check (switch : Bool)
  /-- The message of `try_broadcast_display_changed` goes to the newcomers in a round of its own, and a switch follows. -/
  | displayChanged
  | snapshot
  | hasSubscribes
  | swapDrop
  /-- The frame is encoded, or fails, with or without a switch. -/
  | encoded (msg : M)
  | failed (switch : Bool)
  | sendVideoFrame

/-- A video service, its encoder, and what its subscribers wait for and have received. -/
structure VideoService (T : Type) {M : Type} [Subscriber T M] where
  inner : ServiceInner T := .new true
  phase : CapturePhase M := .hibernate
  /-- How many frames the encoder has output. -/
  outputs : ℕ := 0
  /-- Who has received no frame since the last `on_subscribe`. -/
  awaiting : List Int := []
  /-- The connections and the numbers of the first frames after an `on_subscribe`. -/
  firsts : List (Int × ℕ) := []

namespace VideoService

variable {T M : Type} [Subscriber T M]

section

variable (v : VideoService T)

/-- The test of the loop; the service stays active. -/
def hasSubscribes : Bool :=
  !v.inner.subscribes.values.isEmpty || !v.inner.newSubscribes.values.isEmpty

def sendVideoFrame (number : ℕ) (msg : M) : VideoService T :=
  let reached := v.inner.subscribes.keys
  { v with
    inner := v.inner.sendShared msg
    phase := .loop
    awaiting := v.awaiting.filter (· ∉ reached)
    firsts := (v.awaiting.filter (· ∈ reached)).map (·, number) ++ v.firsts }

def step : VideoStep T M → VideoService T
  | .onSubscribe s => { v with inner := v.inner.onSubscribe s, awaiting := Subscriber.id s :: v.awaiting }
  | .onUnsubscribe id => { v with inner := v.inner.onUnsubscribe id }
  | .enter made =>
    match v.phase with
    | .hibernate => if v.hasSubscribes && made then { v with phase := .loop, outputs := 0 } else v
    | _ => v
  | .check switch =>
    match v.phase with
    | .loop | .captured => { v with phase := if v.hasSubscribes && !switch then .captured else .hibernate }
    | _ => v
  | .displayChanged =>
    match v.phase with
    | .loop | .captured =>
      { v with phase := if v.inner.newSubscribes.values.isEmpty then .hibernate else .drop true }
    | _ => v
  | .snapshot =>
    match v.phase with
    | .captured => { v with phase := if v.inner.newSubscribes.values.isEmpty then .encode else .swap }
    | _ => v
  | .hasSubscribes =>
    match v.phase with
    | .swap => { v with phase := .drop (!v.inner.subscribes.values.isEmpty) }
    | _ => v
  | .swapDrop =>
    match v.phase with
    | .drop switch => { v with inner := v.inner.swapNewSubscribes, phase := if switch then .hibernate else .encode }
    | _ => v
  | .encoded msg =>
    match v.phase with
    | .encode => { v with phase := .output v.outputs msg, outputs := v.outputs + 1 }
    | _ => v
  | .failed switch =>
    match v.phase with
    | .encode => { v with phase := if switch then .hibernate else .loop }
    | _ => v
  | .sendVideoFrame =>
    match v.phase with
    | .output number msg => v.sendVideoFrame number msg
    | _ => v

end

/-- The number of the next frame that the encoder that runs sends. -/
def nextFrame (v : VideoService T) : Option ℕ := v.phase.nextFrame v.outputs

/-- The first frame that a connection receives after an `on_subscribe` is the first one of its encoder. -/
def StartsFresh (v : VideoService T) : Prop := ∀ first ∈ v.firsts, first.2 = 0

/-- Newcomers that find no older subscriber find an encoder that has output nothing, and nobody subscribes again to an
encoder that runs. -/
def JoinsFresh (v : VideoService T) : VideoStep T M → Prop
  | .swapDrop =>
    match v.phase with
    | .drop false => v.inner.newSubscribes.values.isEmpty = true ∨ v.outputs = 0
    | _ => True
  | .onSubscribe s => Subscriber.id s ∈ v.inner.subscribes.keys → ∀ number ∈ v.nextFrame, number = 0
  | _ => True

instance (v : VideoService T) (e : VideoStep T M) : Decidable (v.JoinsFresh e) := by
  unfold JoinsFresh
  split
  · split <;> infer_instance
  · infer_instance
  · infer_instance

/-- What a run keeps: a subscriber that awaits its first frame is there before the first one of the encoder, or waits for
the next round. -/
structure Fresh (v : VideoService T) : Prop where
  needSnapshot : v.inner.needSnapshot = true
  awaiting : ∀ id ∈ v.awaiting, id ∈ v.inner.subscribes.keys → ∀ number ∈ v.nextFrame, number = 0
  firsts : v.StartsFresh

section Steps

variable {v : VideoService T}

/-- The rule for what changes neither the subscribers nor the encoder. -/
theorem Fresh.phase (h : v.Fresh) {phase : CapturePhase M} {outputs : ℕ}
    (hnext : ∀ number ∈ phase.nextFrame outputs, number ∈ v.phase.nextFrame v.outputs ∨ number = 0) :
    Fresh { v with phase, outputs } where
  needSnapshot := h.needSnapshot
  awaiting id hid hsub number hnumber := by
    rcases hnext number hnumber with hsame | hzero
    · exact h.awaiting id hid hsub number hsame
    · exact hzero
  firsts := h.firsts

theorem Fresh.onSubscribe (h : v.Fresh) {s : T}
    (hjoins : Subscriber.id s ∈ v.inner.subscribes.keys → ∀ number ∈ v.nextFrame, number = 0) :
    (v.step (.onSubscribe s)).Fresh := by
  have hkeys : (v.inner.onSubscribe s).subscribes = v.inner.subscribes ∧
      (v.inner.onSubscribe s).needSnapshot = v.inner.needSnapshot := by
    unfold ServiceInner.onSubscribe
    split_ifs with hmem hneed
    · exact ⟨rfl, rfl⟩
    · exact ⟨rfl, rfl⟩
    · exact absurd h.needSnapshot hneed
  refine ⟨hkeys.2.trans h.needSnapshot, fun id hid hsub => ?_, h.firsts⟩
  have hsub' : id ∈ v.inner.subscribes.keys := by
    rw [← hkeys.1]
    exact hsub
  rcases mem_cons.mp hid with rfl | hold
  · exact hjoins hsub'
  · exact h.awaiting id hold hsub'

theorem Fresh.onUnsubscribe (h : v.Fresh) (id : Int) : (v.step (.onUnsubscribe id)).Fresh := by
  have hkeys : (∀ id' ∈ (v.inner.onUnsubscribe id).subscribes.keys, id' ∈ v.inner.subscribes.keys) ∧
      (v.inner.onUnsubscribe id).needSnapshot = v.inner.needSnapshot := by
    unfold ServiceInner.onUnsubscribe
    split_ifs
    · exact ⟨fun id' hmem => (SubscriberMap.mem_keys_remove.mp hmem).1, rfl⟩
    · exact ⟨fun id' hmem => hmem, rfl⟩
  exact ⟨hkeys.2.trans h.needSnapshot, fun id' hid hsub => h.awaiting id' hid (hkeys.1 id' hsub), h.firsts⟩

theorem mem_keys_swap {inner : ServiceInner T} {id : Int} (hid : id ∈ inner.swapNewSubscribes.subscribes.keys) :
    id ∈ inner.subscribes.keys ∨ inner.newSubscribes.values ≠ [] := by
  by_cases hempty : inner.newSubscribes.values = []
  · unfold ServiceInner.swapNewSubscribes at hid
    rw [hempty] at hid
    exact .inl hid
  · exact .inr hempty

/-- The end of a round moves the newcomers to an encoder that has output nothing, or before the next one. -/
theorem Fresh.swapDrop (h : v.Fresh) {switch : Bool} (hphase : v.phase = .drop switch)
    (hjoins : v.JoinsFresh .swapDrop) : (v.step .swapDrop).Fresh := by
  unfold JoinsFresh at hjoins
  simp only [hphase] at hjoins
  rw [step, hphase]
  dsimp only
  refine ⟨h.needSnapshot, fun id hid hsub number hnumber => ?_, h.firsts⟩
  cases switch with
  | true => exact nomatch hnumber
  | false =>
    obtain rfl : v.outputs = number := Option.some.inj hnumber
    rcases hjoins with hnone | hzero
    · rcases mem_keys_swap hsub with hold | hnew
      · have hnext : v.outputs ∈ v.nextFrame := by
          rw [nextFrame, hphase]
          rfl
        exact h.awaiting id hid hold v.outputs hnext
      · exact absurd (isEmpty_iff.mp hnone) hnew
    · exact hzero

/-- A frame reaches all subscribers, so nobody awaits the next one. -/
theorem Fresh.sendVideoFrame (h : v.Fresh) {number : ℕ} {msg : M} (hphase : v.phase = .output number msg) :
    (v.sendVideoFrame number msg).Fresh := by
  have hnext : number ∈ v.nextFrame := by
    rw [nextFrame, hphase]
    rfl
  refine ⟨h.needSnapshot, fun id hid hsub => ?_, fun first hfirst => ?_⟩
  · have hkeys : (v.sendVideoFrame number msg).inner.subscribes.keys = v.inner.subscribes.keys :=
      SubscriberMap.keys_sendWhere _ msg
    rw [hkeys] at hsub
    have hother : id ∉ v.inner.subscribes.keys := by simpa using (mem_filter.mp hid).2
    exact absurd hsub hother
  · rcases mem_append.mp hfirst with hnew | hold
    · obtain ⟨id, hid, rfl⟩ := mem_map.mp hnew
      obtain ⟨hawaiting, hreached⟩ := mem_filter.mp hid
      exact h.awaiting id hawaiting (of_decide_eq_true hreached) number hnext
    · exact h.firsts first hold

theorem Fresh.step (h : v.Fresh) {e : VideoStep T M} (hjoins : v.JoinsFresh e) : (v.step e).Fresh := by
  cases e with
  | onSubscribe s => exact h.onSubscribe hjoins
  | onUnsubscribe id => exact h.onUnsubscribe id
  | enter made =>
    rw [VideoService.step]
    split
    · split_ifs
      · exact h.phase fun number hnumber => .inr (Option.some.inj hnumber).symm
      · exact h
    · exact h
  | check switch =>
    cases hphase : v.phase with
    | loop | captured =>
      rw [VideoService.step, hphase]
      refine h.phase fun number hnumber => .inl ?_
      rw [hphase]
      split_ifs at hnumber
      · exact hnumber
      · exact nomatch hnumber
    | _ =>
      rw [VideoService.step, hphase]
      exact h
  | displayChanged =>
    cases hphase : v.phase with
    | loop | captured =>
      rw [VideoService.step, hphase]
      refine h.phase fun number hnumber => .inl ?_
      rw [hphase]
      split_ifs at hnumber
      · exact nomatch hnumber
      · exact hnumber
    | _ =>
      rw [VideoService.step, hphase]
      exact h
  | snapshot =>
    rw [VideoService.step]
    split
    next hphase =>
      refine h.phase fun number hnumber => .inl ?_
      rw [hphase]
      split_ifs at hnumber
      · exact hnumber
      · exact hnumber
    next => exact h
  | hasSubscribes =>
    rw [VideoService.step]
    split
    next hphase =>
      refine h.phase fun number hnumber => .inl ?_
      rw [hphase]
      exact hnumber
    next => exact h
  | swapDrop =>
    cases hphase : v.phase with
    | drop switch => exact h.swapDrop hphase hjoins
    | _ =>
      rw [VideoService.step, hphase]
      exact h
  | encoded msg =>
    rw [VideoService.step]
    split
    next hphase =>
      refine h.phase fun number hnumber => .inl ?_
      rw [hphase]
      exact hnumber
    next => exact h
  | failed switch =>
    rw [VideoService.step]
    split
    next hphase =>
      refine h.phase fun number hnumber => .inl ?_
      rw [hphase]
      split_ifs at hnumber
      · exact nomatch hnumber
      · exact hnumber
    next => exact h
  | sendVideoFrame =>
    rw [VideoService.step]
    split
    next hphase => exact h.sendVideoFrame hphase
    next => exact h

end Steps

end VideoService

/-- The first video frame that a connection receives after an `on_subscribe` is the first one of its encoder, in every state
of every run in which nobody joins an encoder that has output a frame. -/
theorem video_starts_fresh {T M : Type} [Subscriber T M] {steps : List (VideoStep T M)}
    (h : RunMeets VideoService.step VideoService.JoinsFresh ({} : VideoService T) steps) :
    (runEvents VideoService.step ({} : VideoService T) steps).StartsFresh := by
  have hstart : ({} : VideoService T).Fresh :=
    { needSnapshot := rfl
      awaiting := fun _ hmem => nomatch hmem
      firsts := fun _ hmem => nomatch hmem }
  exact (runEvents_invariant (I := VideoService.Fresh) (fun _ _ hfresh hjoins => hfresh.step hjoins) hstart h).firsts

/-- A first connection receives the first frame of an encoder. -/
def firstViewer : List (VideoStep (ConnInner String) String) :=
  [.onSubscribe { id := 1 }, .enter true, .check false, .snapshot, .hasSubscribes, .swapDrop, .encoded "key frame",
    .sendVideoFrame]

/-- A second connection comes beside the first one, and both start at a new encoder. -/
def secondViewer : List (VideoStep (ConnInner String) String) :=
  firstViewer ++ [.onSubscribe { id := 2 }, .check false, .snapshot, .hasSubscribes, .swapDrop, .enter true, .check false,
    .snapshot, .encoded "key frame", .sendVideoFrame]

theorem secondViewer_starts_fresh :
    (runEvents VideoService.step ({} : VideoService (ConnInner String)) secondViewer).StartsFresh :=
  video_starts_fresh (by decide)

/-- The second connection comes when the first one has just left. -/
def replacedViewer : List (VideoStep (ConnInner String) String) :=
  firstViewer ++ [.onUnsubscribe 1, .onSubscribe { id := 2 }, .check false, .snapshot, .hasSubscribes, .swapDrop,
    .encoded "delta frame", .sendVideoFrame]

/-- A connection that replaces the only viewer receives a later frame of an encoder that was running. -/
theorem replacedViewer_starts_late :
    ¬ (runEvents VideoService.step ({} : VideoService (ConnInner String)) replacedViewer).StartsFresh := by
  intro h
  exact absurd (h (2, 1) (by decide)) (by decide)

end UnyDesk
