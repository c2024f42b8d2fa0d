import Mathlib.Data.List.Nodup
import UnyDesk.Codec.Format
import UnyDesk.Lib.Machine

/-!
# The way of a display's frames to its decoder

The network loop sends messages with a key frame through an unbounded channel. The others go to a bounded queue, and a
marker in the channel tells the decoder thread to take one from there. A full queue gives up its oldest message for the
new one; then a refresh is asked for and no marker is sent. The two threads take turns in any order.
-/

namespace UnyDesk

open Lib List

/-- `VIDEO_QUEUE_SIZE` -/
def videoQueueSize : ℕ := 120

/-- A `VideoFrame` message of the display, with its place in the order of arrival. -/
structure VideoFrame where
  arrival : ℕ
  union : Option VideoFrameUnion
deriving DecidableEq

/-- `contains_key_frame` -/
def VideoFrame.containsKeyFrame (vf : VideoFrame) : Bool := vf.union.any fun union => union.frames.any (·.key)

/-- `MediaData`, without the kinds for audio. -/
inductive MediaData
  | videoQueue
  | videoFrame (vf : VideoFrame)
  | reset
  | recordScreen (start : Bool)
deriving DecidableEq

/-- Where the network loop is with a message: `force_push` has returned, with a replaced message or without. -/
inductive NetworkLoop
  | idle
  | pushed (replaced : Bool)
deriving DecidableEq

/-- Where the decoder thread is. -/
inductive DecoderLoop
  | receiving
  /-- It has received a key frame. -/
  | keyFrame (vf : VideoFrame)
  /-- It has received a marker. -/
  | marker
  /-- It has taken a message from the queue. -/
  | popped (vf : VideoFrame)
deriving DecidableEq

inductive VideoEvent
  /-- A message of the peer. -/
  | arrive (union : Option VideoFrameUnion)
  /-- The network loop goes on behind `force_push`. -/
  | follow
  /-- A refresh request, of the user or of either thread. -/
  | refresh
  | reset
  | recordScreen (start : Bool)
  /-- The decoder thread goes on. -/
  | decode
deriving DecidableEq

/-- `ArrayQueue::force_push`: the queue and the element that was replaced. -/
def forcePush {A : Type} (capacity : ℕ) (queue : List A) (a : A) : List A × Option A :=
  if queue.length < capacity then (queue ++ [a], none) else (queue.tail ++ [a], queue.head?)

/-- `VideoThread`, with both loops and the messages so far, oldest first. -/
structure VideoThread where
  videoQueue : List VideoFrame := []
  /-- What is on its way from `video_sender`. -/
  channel : List MediaData := []
  discardQueue : Bool := false
  network : NetworkLoop := .idle
  decoder : DecoderLoop := .receiving
  arrived : List VideoFrame := []
  /-- The arguments of `handle_frame`. -/
  handled : List VideoFrame := []

namespace VideoThread

section

variable (s : VideoThread)

def send (media : MediaData) : VideoThread := { s with channel := s.channel ++ [media] }

/-- The part of `handle_msg_from_peer` for a video frame, up to `force_push`. -/
def arrive (union : Option VideoFrameUnion) : VideoThread :=
  let vf : VideoFrame := { arrival := s.arrived.length, union }
  let s := { s with arrived := s.arrived ++ [vf] }
  if vf.containsKeyFrame then s.send (.videoFrame vf)
  else
    let (videoQueue, replaced) := forcePush videoQueueSize s.videoQueue vf
    { s with videoQueue, network := .pushed replaced.isSome }

/-- A stretch of the decoder thread between two operations on what the loops share. -/
def decode : VideoThread :=
  match s.decoder with
  | .receiving =>
    match s.channel with
    | [] => s
    | .videoFrame vf :: channel => { s with channel, decoder := .keyFrame vf }
    | .videoQueue :: channel => { s with channel, decoder := .marker }
    | .reset :: channel | .recordScreen _ :: channel => { s with channel }
  | .keyFrame vf => { s with discardQueue := false, decoder := .receiving, handled := s.handled ++ [vf] }
  | .marker =>
    match s.videoQueue with
    | [] => { s with decoder := .receiving }
    | vf :: videoQueue => { s with videoQueue, decoder := .popped vf }
  | .popped vf =>
    if s.discardQueue then { s with decoder := .receiving }
    else { s with decoder := .receiving, handled := s.handled ++ [vf] }

def step (event : VideoEvent) : VideoThread :=
  match s.network, event with
  | _, .decode => s.decode
  | .idle, .arrive union => s.arrive union
  | .idle, .refresh => { s with discardQueue := true }
  | .idle, .reset => s.send .reset
  | .idle, .recordScreen start => s.send (.recordScreen start)
  | .pushed false, .follow => send { s with network := .idle } .videoQueue
  -- `refresh_video` puts a request into the queue of the session, which the loop reads later
  | .pushed true, .follow => { s with network := .idle }
  | _, _ => s

end

def run (events : List VideoEvent) : VideoThread := runEvents step {} events

end VideoThread

def MediaData.isVideoFrame : MediaData → Bool
  | .videoFrame _ => true
  | _ => false

/-- No key frame comes behind a marker. -/
def KeysFirst : List MediaData → Prop
  | [] => True
  | .videoQueue :: channel => ∀ media ∈ channel, media.isVideoFrame = false
  | _ :: channel => KeysFirst channel

instance decidableKeysFirst : ∀ channel, Decidable (KeysFirst channel)
  | [] => .isTrue trivial
  | .videoQueue :: channel => inferInstanceAs (Decidable (∀ media ∈ channel, media.isVideoFrame = false))
  | .videoFrame _ :: channel | .reset :: channel | .recordScreen _ :: channel => decidableKeysFirst channel

/-- How many messages of the queue the markers stand for. -/
def markers (channel : List MediaData) : ℕ := channel.count .videoQueue

/-- The messages in the order in which the decoder would get them: a key frame where it is in the channel, and for
every marker the next message of the queue. -/
def pendingFrames : List MediaData → List VideoFrame → List VideoFrame
  | [], queue => queue
  | .videoFrame vf :: channel, queue => vf :: pendingFrames channel queue
  | .videoQueue :: channel, [] => pendingFrames channel []
  | .videoQueue :: channel, vf :: queue => vf :: pendingFrames channel queue
  | .reset :: channel, queue => pendingFrames channel queue
  | .recordScreen _ :: channel, queue => pendingFrames channel queue

section Pending

variable {channel : List MediaData} {queue : List VideoFrame}

theorem pendingFrames_of_noKey (h : ∀ media ∈ channel, media.isVideoFrame = false) (queue : List VideoFrame) :
    pendingFrames channel queue = queue := by
  induction channel generalizing queue with
  | nil => rfl
  | cons media channel ih =>
    have hrest : ∀ media ∈ channel, media.isVideoFrame = false := fun m hm => h m (mem_cons_of_mem _ hm)
    cases media with
    | videoQueue =>
      cases queue with
      | nil => exact ih hrest []
      | cons vf queue => exact congrArg (vf :: ·) (ih hrest queue)
    | videoFrame vf => exact nomatch h _ mem_cons_self
    | reset => exact ih hrest queue
    | recordScreen start => exact ih hrest queue

/-- A key frame comes behind everything when each message of the queue has its marker. -/
theorem pendingFrames_append_key (h : markers channel = queue.length) (vf : VideoFrame) :
    pendingFrames (channel ++ [.videoFrame vf]) queue = pendingFrames channel queue ++ [vf] := by
  induction channel generalizing queue with
  | nil =>
    obtain rfl := eq_nil_of_length_eq_zero h.symm
    rfl
  | cons media channel ih =>
    cases media with
    | videoQueue =>
      cases queue with
      | nil => simp [markers] at h
      | cons old queue =>
        have hrest : markers channel = queue.length := by simpa [markers] using h
        exact congrArg (old :: ·) (ih hrest)
    | videoFrame key =>
      have hrest : markers channel = queue.length := by simpa [markers] using h
      exact congrArg (key :: ·) (ih hrest)
    | reset | recordScreen =>
      have hrest : markers channel = queue.length := by simpa [markers] using h
      exact ih hrest

/-- Anything else at the end of the channel leaves the order. -/
theorem pendingFrames_append {media : MediaData} (h : media.isVideoFrame = false) (channel : List MediaData)
    (queue : List VideoFrame) : pendingFrames (channel ++ [media]) queue = pendingFrames channel queue := by
  induction channel generalizing queue with
  | nil => exact pendingFrames_of_noKey (by simpa using h) queue
  | cons first channel ih =>
    cases first with
    | videoQueue =>
      cases queue with
      | nil => exact ih []
      | cons vf queue => exact congrArg (vf :: ·) (ih queue)
    | videoFrame vf => exact congrArg (vf :: ·) (ih queue)
    | reset => exact ih queue
    | recordScreen start => exact ih queue

/-- A message that is put into the queue comes last. -/
theorem pendingFrames_push (h : markers channel ≤ queue.length) (vf : VideoFrame) :
    pendingFrames channel (queue ++ [vf]) = pendingFrames channel queue ++ [vf] := by
  induction channel generalizing queue with
  | nil => rfl
  | cons media channel ih =>
    cases media with
    | videoQueue =>
      cases queue with
      | nil => simp [markers] at h
      | cons old queue =>
        have hrest : markers channel ≤ queue.length := by simpa [markers] using h
        exact congrArg (old :: ·) (ih hrest)
    | videoFrame key =>
      have hrest : markers channel ≤ queue.length := by simpa [markers] using h
      exact congrArg (key :: ·) (ih hrest)
    | reset | recordScreen =>
      have hrest : markers channel ≤ queue.length := by simpa [markers] using h
      exact ih hrest

/-- A message that replaces the oldest one of the queue comes last while no key frame is behind a marker. -/
theorem pendingFrames_replace (h : KeysFirst channel) (queue : List VideoFrame) (vf : VideoFrame) :
    (pendingFrames channel (queue.tail ++ [vf])).Sublist (pendingFrames channel queue ++ [vf]) := by
  induction channel with
  | nil => exact (tail_sublist queue).append_right [vf]
  | cons media channel ih =>
    cases media with
    | videoQueue =>
      have hnoKey : ∀ media ∈ MediaData.videoQueue :: channel, media.isVideoFrame = false := by
        intro media hmem
        obtain rfl | hmem := mem_cons.mp hmem
        · rfl
        · exact h media hmem
      rw [pendingFrames_of_noKey hnoKey, pendingFrames_of_noKey hnoKey]
      exact (tail_sublist queue).append_right [vf]
    | videoFrame key => exact (ih h).cons_cons key
    | reset => exact ih h
    | recordScreen start => exact ih h

end Pending

namespace VideoThread

section

variable (s : VideoThread)

/-- The channel with the marker that the decoder has received. -/
def announced : List MediaData :=
  if s.decoder = .marker then .videoQueue :: s.channel else s.channel

/-- The message that the decoder has and that is not handled yet. -/
def held : List VideoFrame :=
  match s.decoder with
  | .keyFrame vf | .popped vf => [vf]
  | .receiving | .marker => []

/-- The message whose marker is still to be sent. -/
def unmarked : ℕ := if s.network = .pushed false then 1 else 0

/-- The condition on an event: a full queue takes a delta frame only while no key frame waits behind a marker. -/
def Meets (event : VideoEvent) : Prop :=
  match s.network, event with
  | .idle, .arrive union =>
    VideoFrame.containsKeyFrame { arrival := s.arrived.length, union } = true ∨
      s.videoQueue.length < videoQueueSize ∨ KeysFirst s.announced
  | _, _ => True

end

/-- What has been handled and what is going to be are in the order of arrival. -/
structure InOrder (s : VideoThread) : Prop where
  marked : markers s.announced + s.unmarked = s.videoQueue.length
  ordered : (s.handled ++ s.held ++ pendingFrames s.announced s.videoQueue).Sublist s.arrived

section Steps

variable {s : VideoThread}

theorem announced_eq_append (s : VideoThread) :
    ∃ before, s.announced = before ++ s.channel ∧ ∀ channel, announced { s with channel } = before ++ channel := by
  unfold announced
  by_cases hdecoder : s.decoder = .marker
  · exact ⟨[.videoQueue], by simp [hdecoder], by simp [hdecoder]⟩
  · exact ⟨[], by simp [hdecoder], by simp [hdecoder]⟩

theorem announced_send (s : VideoThread) (media : MediaData) : (s.send media).announced = s.announced ++ [media] := by
  obtain ⟨before, hsame, hsend⟩ := announced_eq_append s
  rw [send, hsend, hsame, append_assoc]

theorem markers_announced_send (s : VideoThread) (media : MediaData) :
    markers (s.send media).announced = markers s.announced + if media = .videoQueue then 1 else 0 := by
  rw [announced_send, markers, count_append, count_singleton]
  by_cases hmarker : media = .videoQueue <;> simp [markers, hmarker]

section

variable (h : InOrder s)
include h

/-- A message other than a key frame or a marker is sent. -/
theorem InOrder.send (media : MediaData) (hframe : media.isVideoFrame = false)
    (hmarker : media ≠ .videoQueue) : InOrder (s.send media) := by
  constructor
  · rw [markers_announced_send, if_neg hmarker]
    exact h.marked
  · rw [announced_send, pendingFrames_append hframe]
    exact h.ordered

theorem InOrder.arrive (hidle : s.network = .idle) {union : Option VideoFrameUnion}
    (hmeets : VideoFrame.containsKeyFrame { arrival := s.arrived.length, union } = true ∨
      s.videoQueue.length < videoQueueSize ∨ KeysFirst s.announced) : InOrder (s.arrive union) := by
  have hmarked : markers s.announced = s.videoQueue.length := by simpa [unmarked, hidle] using h.marked
  have hlonger (vf : VideoFrame) : (s.handled ++ s.held ++ (pendingFrames s.announced s.videoQueue ++ [vf])).Sublist
      (s.arrived ++ [vf]) := by
    rw [← append_assoc]
    exact h.ordered.append_right [vf]
  unfold VideoThread.arrive
  extract_lets vf s'
  split
  case isTrue =>
    constructor
    · rw [markers_announced_send, if_neg nofun]
      exact h.marked
    · rw [announced_send]
      change (s.handled ++ s.held ++ pendingFrames (s.announced ++ [.videoFrame vf]) s.videoQueue).Sublist _
      rw [pendingFrames_append_key hmarked]
      exact hlonger vf
  case isFalse hdelta =>
    by_cases hroom : s.videoQueue.length < videoQueueSize
    · have hpush : forcePush videoQueueSize s'.videoQueue vf = (s.videoQueue ++ [vf], none) := if_pos hroom
      rw [hpush]
      constructor
      · change markers s.announced + 1 = (s.videoQueue ++ [vf]).length
        rw [hmarked, length_append, length_singleton]
      · change (s.handled ++ s.held ++ pendingFrames s.announced (s.videoQueue ++ [vf])).Sublist (s.arrived ++ [vf])
        rw [pendingFrames_push (Nat.le_of_eq hmarked)]
        exact hlonger vf
    · -- The oldest message leaves the queue and its marker now stands for the next one.
      have hpush : forcePush videoQueueSize s'.videoQueue vf = (s.videoQueue.tail ++ [vf], s.videoQueue.head?) :=
        if_neg hroom
      have hfull : 0 < s.videoQueue.length := Nat.lt_of_lt_of_le (by decide) (Nat.le_of_not_lt hroom)
      have hreplaced : s.videoQueue.head?.isSome = true := by
        rw [isSome_head?]
        exact length_pos_iff.mp hfull
      rw [hpush]
      constructor
      · change markers s.announced + (if NetworkLoop.pushed s.videoQueue.head?.isSome = .pushed false then 1 else 0) = _
        rw [hreplaced, if_neg nofun, hmarked, length_append, length_tail, length_singleton]
        omega
      · have hkeys := (hmeets.resolve_left hdelta).resolve_left hroom
        exact ((pendingFrames_replace hkeys s.videoQueue vf).append_left _).trans (hlonger vf)

theorem InOrder.follow {replaced : Bool} (hpushed : s.network = .pushed replaced) :
    InOrder (s.step .follow) := by
  cases replaced with
  | true =>
    have hstep : s.step .follow = { s with network := .idle } := by simp [step, hpushed]
    rw [hstep]
    have hmarked : markers s.announced = s.videoQueue.length := by simpa [unmarked, hpushed] using h.marked
    exact ⟨hmarked, h.ordered⟩
  | false =>
    have hstep : s.step .follow = VideoThread.send { s with network := .idle } .videoQueue := by simp [step, hpushed]
    have hmarked : markers s.announced + 1 = s.videoQueue.length := by simpa [unmarked, hpushed] using h.marked
    rw [hstep]
    constructor
    · rw [markers_announced_send, if_pos rfl]
      exact hmarked
    · rw [announced_send, pendingFrames_append rfl]
      exact h.ordered

theorem InOrder.decode : InOrder s.decode := by
  obtain ⟨hmarked, hordered⟩ := h
  unfold VideoThread.decode
  cases hdecoder : s.decoder with
  | receiving =>
    have hannounced : s.announced = s.channel := by simp [announced, hdecoder]
    have hheld : s.held = [] := by simp [held, hdecoder]
    rw [hannounced] at hmarked
    rw [hannounced, hheld, append_nil] at hordered
    dsimp only
    split
    next => exact ⟨by rwa [hannounced], by rwa [hannounced, hheld, append_nil]⟩
    next vf channel hchannel =>
      rw [hchannel] at hmarked hordered
      exact ⟨hmarked, by simpa [announced, held, pendingFrames] using hordered⟩
    next channel hchannel =>
      rw [hchannel] at hmarked hordered
      exact ⟨hmarked, by simpa [announced, held] using hordered⟩
    next channel hchannel =>
      rw [hchannel] at hmarked hordered
      exact ⟨hmarked, by simpa [announced, held, pendingFrames] using hordered⟩
    next start channel hchannel =>
      rw [hchannel] at hmarked hordered
      exact ⟨hmarked, by simpa [announced, held, pendingFrames] using hordered⟩
  | keyFrame vf =>
    have hannounced : s.announced = s.channel := by simp [announced, hdecoder]
    have hheld : s.held = [vf] := by simp [held, hdecoder]
    rw [hannounced] at hmarked
    rw [hannounced, hheld] at hordered
    exact ⟨hmarked, by simpa [announced, held] using hordered⟩
  | marker =>
    have hannounced : s.announced = .videoQueue :: s.channel := by simp [announced, hdecoder]
    have hheld : s.held = [] := by simp [held, hdecoder]
    rw [hannounced, markers, count_cons_self] at hmarked
    rw [hannounced, hheld, append_nil] at hordered
    dsimp only
    split
    next hqueue =>
      rw [hqueue, length_nil] at hmarked
      omega
    next vf queue hqueue =>
      rw [hqueue] at hmarked hordered
      refine ⟨?_, by simpa [announced, held, pendingFrames] using hordered⟩
      change s.channel.count .videoQueue + s.unmarked = queue.length
      rw [length_cons] at hmarked
      omega
  | popped vf =>
    have hannounced : s.announced = s.channel := by simp [announced, hdecoder]
    have hheld : s.held = [vf] := by simp [held, hdecoder]
    rw [hannounced] at hmarked
    rw [hannounced, hheld] at hordered
    dsimp only
    split
    · -- the message is thrown away
      have hfewer : (s.handled ++ pendingFrames s.channel s.videoQueue).Sublist
          (s.handled ++ [vf] ++ pendingFrames s.channel s.videoQueue) :=
        (sublist_append_left s.handled [vf]).append_right _
      exact ⟨hmarked, by simpa [announced, held] using hfewer.trans hordered⟩
    · exact ⟨hmarked, by simpa [announced, held] using hordered⟩

theorem InOrder.step {event : VideoEvent} (hmeets : s.Meets event) : InOrder (s.step event) := by
  cases event with
  | decode => simpa [VideoThread.step] using h.decode
  | arrive union =>
    cases hnetwork : s.network with
    | idle =>
      unfold Meets at hmeets
      rw [hnetwork] at hmeets
      simpa [VideoThread.step, hnetwork] using h.arrive hnetwork hmeets
    | pushed replaced => simpa [VideoThread.step, hnetwork] using h
  | follow =>
    cases hnetwork : s.network with
    | idle => simpa [VideoThread.step, hnetwork] using h
    | pushed replaced => exact h.follow hnetwork
  | refresh =>
    cases hnetwork : s.network with
    | idle =>
      have hsame : InOrder { s with discardQueue := true } := ⟨h.marked, h.ordered⟩
      simpa [VideoThread.step, hnetwork] using hsame
    | pushed replaced => simpa [VideoThread.step, hnetwork] using h
  | reset =>
    cases hnetwork : s.network with
    | idle => simpa [VideoThread.step, hnetwork] using h.send .reset rfl nofun
    | pushed replaced => simpa [VideoThread.step, hnetwork] using h
  | recordScreen start =>
    cases hnetwork : s.network with
    | idle => simpa [VideoThread.step, hnetwork] using h.send (.recordScreen start) rfl nofun
    | pushed replaced => simpa [VideoThread.step, hnetwork] using h

end

end Steps

section Runs

variable {s : VideoThread}

theorem arrival_step (h : s.arrived.map (·.arrival) = List.range s.arrived.length) (event : VideoEvent) :
    (s.step event).arrived.map (·.arrival) = List.range (s.step event).arrived.length := by
  have hkept : (s.step event).arrived = s.arrived ∨
      ∃ union, (s.step event).arrived = s.arrived ++ [{ arrival := s.arrived.length, union }] := by
    unfold step
    split
    · left
      unfold decode
      split
      · split <;> rfl
      · rfl
      · split <;> rfl
      · split <;> rfl
    next union _ =>
      right
      refine ⟨union, ?_⟩
      unfold arrive
      extract_lets vf s'
      split <;> rfl
    all_goals exact .inl rfl
  obtain hsame | ⟨union, harrived⟩ := hkept
  · rwa [hsame]
  · rw [harrived, map_append, h, length_append, length_singleton, range_succ]
    rfl

/-- No two messages have one place in the order of arrival. -/
theorem nodup_arrived (events : List VideoEvent) : (run events).arrived.Nodup := by
  have hplaces : (run events).arrived.map (·.arrival) = range (run events).arrived.length :=
    runEvents_invariant_of_step (I := fun s : VideoThread => s.arrived.map (·.arrival) = range s.arrived.length)
      (fun _ event h => arrival_step h event) rfl events
  have hnodup : ((run events).arrived.map (·.arrival)).Nodup := by
    rw [hplaces]
    exact nodup_range
  exact List.Nodup.of_map _ hnodup

instance (s : VideoThread) (event : VideoEvent) : Decidable (s.Meets event) := by
  unfold Meets
  split <;> infer_instance

/-- As long as a full queue takes no delta frame while a key frame waits behind a marker, the decoder handles the messages
in the order of their arrival and none twice. -/
theorem video_decoded_in_order (events : List VideoEvent) (hmeets : RunMeets step Meets {} events) :
    (run events).handled.Sublist (run events).arrived ∧ (run events).handled.Nodup := by
  have hstart : InOrder {} := ⟨rfl, List.Sublist.refl []⟩
  have hrun : InOrder (run events) := runEvents_invariant (fun _ _ h hok => h.step hok) hstart hmeets
  have hsublist : (run events).handled.Sublist (run events).arrived := by
    apply List.Sublist.trans _ hrun.ordered
    rw [List.append_assoc]
    exact List.sublist_append_left _ _
  exact ⟨hsublist, hsublist.nodup (nodup_arrived events)⟩

/-- A message with one frame. -/
def oneFrame (key : Bool) : Option VideoFrameUnion := some (.vp9s [{ key }])

/-- A key frame, a delta frame that is thrown away because of a refresh, and another key frame. -/
theorem video_decoded_in_order_refresh :
    let s := run [.arrive (oneFrame true), .decode, .decode, .arrive (oneFrame false), .refresh, .follow, .refresh,
      .decode, .decode, .decode, .arrive (oneFrame true), .decode, .decode]
    s.handled.map (·.arrival) = [0, 2] ∧ s.handled.Sublist s.arrived := by
  intro s
  exact ⟨by decide, (video_decoded_in_order _ (by decide)).1⟩

/-- The queue is filled, a key frame arrives and then one more delta frame, while the decoder does nothing. -/
def overfilled : List VideoEvent :=
  (List.replicate videoQueueSize [.arrive (oneFrame false), .follow]).flatten ++
    [.arrive (oneFrame true), .arrive (oneFrame false), .follow]

/-- The decoder then gets the last delta frame before the key frame. -/
theorem delta_overtakes_key : ¬ ∀ events, (run events).handled.Sublist (run events).arrived := by
  intro h
  have hrun := h (overfilled ++ List.replicate (3 * videoQueueSize + 2) .decode)
  revert hrun
  decide +kernel

end Runs

end VideoThread

end UnyDesk
