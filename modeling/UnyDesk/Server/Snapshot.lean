import UnyDesk.Server.Service

/-!
# Snapshot rounds

Subscribers come and go between the critical sections of a snapshot round. The two maps stay apart and whoever has
unsubscribed stays away in every interleaving. A subscriber that comes when the round has sent something is moved
with the others all the same, without what it missed; in every other run each subscriber has the whole round before
its first regular message.
-/

namespace UnyDesk

open Lib ServiceInner SubscriberMap List

/-- How a message came to a subscriber. -/
inductive Sent (M : Type)
  | snapshot (msg : M)
  | regular (msg : M)
deriving DecidableEq

/-- The critical sections: of the connections, of the senders and of the snapshot round of the service thread. -/
inductive ServiceStep (T : Type) {M : Type} [Subscriber T M]
  | onSubscribe (s : T)
  | onUnsubscribe (id : Int)
  | sendShared (msg : M)
  | sendTo (msg : M) (id : Int)
  | sendToOthers (msg : M) (id : Int)
  | snapshot
  | swapSend (msg : M)
  | swapDrop

/-- A service, the messages that the round in progress has sent, and what happened to each subscriber. -/
structure WatchedService (T : Type) {M : Type} [Subscriber T M] where
  inner : ServiceInner T
  /-- What the `ServiceSwap` that exists has sent. -/
  round : Option (List M) := none
  /-- What was sent to the subscriber since its subscription began. -/
  received : Int → List (Sent M) := fun _ => []
  /-- What the round that moved the subscriber has sent. -/
  movedBy : Int → List M := fun _ => []
  /-- Whose subscription began when the round in progress had sent something. -/
  late : List Int := []

namespace WatchedService

variable {T M : Type} [Subscriber T M] {id : Int} {w : WatchedService T}

def start (needSnapshot : Bool) : WatchedService T := { inner := .new needSnapshot }

def deliver (w : WatchedService T) (ids : List Int) (sent : Sent M) : Int → List (Sent M) :=
  fun id => if id ∈ ids then w.received id ++ [sent] else w.received id

def roundSent (w : WatchedService T) : List M := w.round.getD []

def onSubscribe (w : WatchedService T) (s : T) : WatchedService T :=
  let id := Subscriber.id s
  { w with
    inner := w.inner.onSubscribe s
    received := if w.inner.isSubed id then w.received else Function.update w.received id []
    late := if w.inner.isSubed id || w.roundSent.isEmpty then w.late else id :: w.late }

/-- A regular send, with the service that it leaves. -/
def sent (w : WatchedService T) (inner : ServiceInner T) (audience : ServiceInner.Audience) (msg : M) : WatchedService T :=
  { w with inner, received := w.deliver (w.inner.subscribes.reached audience.test) (.regular msg) }

def step (w : WatchedService T) : ServiceStep T → WatchedService T
  | .onSubscribe s => w.onSubscribe s
  | .onUnsubscribe id => { w with inner := w.inner.onUnsubscribe id }
  | .sendShared msg => w.sent (w.inner.sendShared msg) .all msg
  | .sendTo msg id => w.sent (w.inner.sendTo msg id) (.only id) msg
  | .sendToOthers msg id => w.sent (w.inner.sendToOthers msg id) (.without id) msg
  | .snapshot =>
    -- one thread takes the snapshots, so a round does not begin inside another
    if w.round.isNone && !w.inner.newSubscribes.values.isEmpty then { w with round := some [] } else w
  | .swapSend msg =>
    match w.round with
    | none => w
    | some msgs =>
      { w with
        inner := w.inner.sendNewSubscribes msg
        round := some (msgs ++ [msg])
        received := w.deliver w.inner.newSubscribes.keys (.snapshot msg) }
  | .swapDrop =>
    match w.round with
    | none => w
    | some msgs =>
      { w with
        inner := w.inner.swapNewSubscribes
        round := none
        movedBy := fun id => if id ∈ w.inner.newSubscribes.keys then msgs else w.movedBy id
        late := [] }

def run (needSnapshot : Bool) (steps : List (ServiceStep T)) : WatchedService T := runEvents step (start needSnapshot) steps

/-- Every message of the round, in order, and then regular messages only. -/
def SnapshotFirst (round : List M) (received : List (Sent M)) : Prop :=
  ∃ rest : List M, received = round.map .snapshot ++ rest.map .regular

section

variable (w : WatchedService T)

/-- The subscribers have all of the round that moved them before anything else. -/
def Served : Prop :=
  ∀ id ∈ w.inner.subscribes.keys, SnapshotFirst (w.movedBy id) (w.received id)

/-- The two maps have no key in common. -/
def Apart : Prop := ∀ id ∈ w.inner.subscribes.keys, id ∉ w.inner.newSubscribes.keys

/-- When a round ends, nobody waits whose subscription began behind the first message of it. -/
def InTime : ServiceStep T → Prop
  | .swapDrop => ∀ id ∈ w.inner.newSubscribes.keys, id ∉ w.late
  | _ => True

end

/-- What holds in every interleaving: whoever waits has received the end of the round from where it came. -/
structure Sound (w : WatchedService T) : Prop where
  needSnapshot : w.inner.needSnapshot = true
  apart : w.Apart
  waiting : ∀ id ∈ w.inner.newSubscribes.keys, ∃ missed ≤ w.roundSent.length,
    w.received id = (w.roundSent.drop missed).map .snapshot ∧ (id ∈ w.late ↔ 0 < missed)
  late_nil : w.roundSent = [] → w.late = []

section Steps

variable {w : WatchedService T} {inner : ServiceInner T} {round : List M} {ids : List Int}

theorem SnapshotFirst.regular {received : List (Sent M)} (h : SnapshotFirst round received) (msg : M) :
    SnapshotFirst round (received ++ [.regular msg]) := by
  obtain ⟨rest, rfl⟩ := h
  exact ⟨rest ++ [msg], by rw [map_append, append_assoc]; rfl⟩

/-- A part of the round without its beginning is not the round. -/
theorem snapshotFirst_drop {missed : ℕ} (hle : missed ≤ round.length) :
    SnapshotFirst round ((round.drop missed).map .snapshot) ↔ missed = 0 := by
  constructor
  · rintro ⟨rest, heq⟩
    have hlen := congrArg length heq
    simp only [length_map, length_drop, length_append] at hlen
    omega
  · rintro rfl
    exact ⟨[], by simp⟩

theorem mem_keys_foldl_insert {values : List T} {map : SubscriberMap T} :
    id ∈ (values.foldl SubscriberMap.insert map).keys ↔ id ∈ values.map Subscriber.id ∨ id ∈ map.keys := by
  induction values generalizing map with
  | nil => simp
  | cons s values ih => rw [foldl_cons, ih, mem_keys_insert, map_cons, mem_cons]; tauto

theorem mem_keys_swapNewSubscribes :
    id ∈ inner.swapNewSubscribes.subscribes.keys ↔ id ∈ inner.newSubscribes.keys ∨ id ∈ inner.subscribes.keys :=
  mem_keys_foldl_insert

theorem deliver_of_mem {sent : Sent M} (hmem : id ∈ ids) :
    w.deliver ids sent id = w.received id ++ [sent] := if_pos hmem

theorem deliver_of_not_mem {sent : Sent M} (hmem : id ∉ ids) : w.deliver ids sent id = w.received id := if_neg hmem

theorem isSubed_iff : inner.isSubed id = true ↔ id ∈ inner.subscribes.keys ∨ id ∈ inner.newSubscribes.keys := by
  simp [isSubed]

namespace Sound

section

variable (h : w.Sound)
include h

/-- A subscriber that is new to the service waits for the rest of the round, and otherwise nothing changes. -/
theorem onSubscribe_cases (s : T) : (w.onSubscribe s).inner.subscribes = w.inner.subscribes ∧
    (∀ id, id ∈ (w.onSubscribe s).inner.newSubscribes.keys ↔
      id ∈ w.inner.newSubscribes.keys ∨ id = Subscriber.id s ∧ id ∉ w.inner.subscribes.keys) ∧
    ∀ id, w.inner.isSubed id = true ∨ id ≠ Subscriber.id s → (w.onSubscribe s).received id = w.received id := by
  refine ⟨?_, fun id => ?_, fun id hid => ?_⟩
  · simp only [onSubscribe, ServiceInner.onSubscribe, h.needSnapshot, if_true]
    split <;> rfl
  · simp only [onSubscribe, ServiceInner.onSubscribe, h.needSnapshot, if_true]
    split
    next hsub =>
      refine ⟨.inl, fun hmem => hmem.resolve_right ?_⟩
      rintro ⟨rfl, hnot⟩
      exact hnot hsub
    next hsub =>
      rw [SubscriberMap.mem_keys_insert, or_comm]
      refine or_congr_right ⟨fun hid => ⟨hid, hid ▸ hsub⟩, And.left⟩
  · simp only [onSubscribe]
    split
    next => rfl
    next hnew =>
      refine Function.update_of_ne ?_ _ _
      rintro rfl
      exact hid.elim hnew fun hne => hne rfl

theorem onSubscribe (s : T) : (w.onSubscribe s).Sound := by
  obtain ⟨hsubs, hnew, hreceived⟩ := h.onSubscribe_cases s
  have hneed : (w.onSubscribe s).inner.needSnapshot = true := by
    simp only [WatchedService.onSubscribe, ServiceInner.onSubscribe, h.needSnapshot, if_true]
    split
    · exact h.needSnapshot
    · rfl
  refine ⟨hneed, fun id hmem => ?_, fun id hmem => ?_, fun hnil => ?_⟩
  · rw [hsubs] at hmem
    rw [hnew]
    rintro (hwaits | ⟨-, hnot⟩)
    · exact h.apart id hmem hwaits
    · exact hnot hmem
  · by_cases hold : id ∈ w.inner.newSubscribes.keys
    · have hsubed : w.inner.isSubed id = true := isSubed_iff.mpr (.inr hold)
      obtain ⟨missed, hle, hsent, hlate⟩ := h.waiting id hold
      refine ⟨missed, hle, (hreceived id (.inl hsubed)).trans hsent, Iff.trans ?_ hlate⟩
      simp only [WatchedService.onSubscribe]
      split
      next => exact Iff.rfl
      next hfresh =>
        have hne : id ≠ Subscriber.id s := by
          rintro rfl
          exact hfresh (by rw [hsubed, Bool.true_or])
        rw [List.mem_cons, or_iff_right hne]
    · obtain ⟨rfl, hnot⟩ := ((hnew id).mp hmem).resolve_left hold
      have hfresh : w.inner.isSubed (Subscriber.id s) = false :=
        Bool.eq_false_iff.mpr fun hsubed => (isSubed_iff.mp hsubed).elim hnot hold
      refine ⟨w.roundSent.length, Nat.le_refl _, ?_, ?_⟩
      · simp [WatchedService.onSubscribe, hfresh, roundSent]
      · simp only [WatchedService.onSubscribe, hfresh, Bool.false_or, List.isEmpty_iff]
        split
        next hnone => simp [h.late_nil hnone, hnone]
        next hsome => simp [List.length_pos_iff.mpr hsome]
  · have hnone : w.roundSent = [] := hnil
    simp [WatchedService.onSubscribe, hnone, h.late_nil hnone]

theorem onUnsubscribe (id : Int) : Sound { w with inner := w.inner.onUnsubscribe id } := by
  unfold ServiceInner.onUnsubscribe
  split
  next =>
    refine ⟨h.needSnapshot, fun id' hmem => ?_, h.waiting, h.late_nil⟩
    exact h.apart id' (SubscriberMap.mem_keys_remove.mp hmem).1
  next =>
    refine ⟨h.needSnapshot, fun id' hmem hwaits => ?_, fun id' hmem => ?_, h.late_nil⟩
    · exact h.apart id' hmem (SubscriberMap.mem_keys_remove.mp hwaits).1
    · exact h.waiting id' (SubscriberMap.mem_keys_remove.mp hmem).1

theorem sent (audience : ServiceInner.Audience) (msg : M) :
    Sound (w.sent (w.inner.sendRegular audience msg) audience msg) := by
  refine ⟨h.needSnapshot, fun id hmem => ?_, fun id hmem => ?_, h.late_nil⟩
  · exact h.apart id ((@keys_sendWhere _ _ _ w.inner.subscribes audience.test msg).subst hmem)
  · obtain ⟨missed, hle, hsent, hlate⟩ := h.waiting id hmem
    refine ⟨missed, hle, Eq.trans (deliver_of_not_mem fun hreached => ?_) hsent, hlate⟩
    exact h.apart id (mem_filter.mp hreached).1 hmem

theorem swapSend {msgs : List M} (hround : w.round = some msgs) (msg : M) : Sound { w with
      inner := w.inner.sendNewSubscribes msg
      round := some (msgs ++ [msg])
      received := w.deliver w.inner.newSubscribes.keys (.snapshot msg) } := by
  have hkeys : (w.inner.sendNewSubscribes msg).newSubscribes.keys = w.inner.newSubscribes.keys :=
    keys_sendWhere _ msg
  have hsent : w.roundSent = msgs := by rw [roundSent, hround]; rfl
  refine ⟨h.needSnapshot, fun id hmem hwaits => ?_, fun id hmem => ?_, fun hnil => ?_⟩
  · exact h.apart id hmem (hkeys.subst hwaits)
  · replace hmem : id ∈ w.inner.newSubscribes.keys := hkeys.subst hmem
    obtain ⟨missed, hle, hreceived, hlate⟩ := h.waiting id hmem
    rw [hsent] at hle hreceived
    refine ⟨missed, ?_, ?_, hlate⟩
    · change missed ≤ (msgs ++ [msg]).length
      rw [length_append]
      exact Nat.le_add_right_of_le hle
    · change w.deliver _ _ id = ((msgs ++ [msg]).drop missed).map .snapshot
      rw [deliver_of_mem hmem, hreceived, drop_append_of_le_length hle, map_append]
      rfl
  · exact absurd hnil (append_ne_nil_of_right_ne_nil _ (cons_ne_nil _ _))

theorem swapDrop (msgs : List M) : Sound { w with
      inner := w.inner.swapNewSubscribes
      round := none
      movedBy := fun id => if id ∈ w.inner.newSubscribes.keys then msgs else w.movedBy id
      late := [] } :=
  ⟨h.needSnapshot, fun _ _ => not_mem_nil, fun _ hmem => absurd hmem not_mem_nil, fun _ => rfl⟩

theorem step (e : ServiceStep T) : (w.step e).Sound := by
  cases e with
  | onSubscribe s => exact h.onSubscribe s
  | onUnsubscribe id => exact h.onUnsubscribe id
  | sendShared msg => exact h.sent .all msg
  | sendTo msg id => exact h.sent (.only id) msg
  | sendToOthers msg id => exact h.sent (.without id) msg
  | snapshot =>
    simp only [WatchedService.step]
    split
    next hbegins =>
      have hnone : w.round = none := Option.isNone_iff_eq_none.mp (Bool.and_eq_true_iff.mp hbegins).1
      have hsent : w.roundSent = [] := by rw [roundSent, hnone]; rfl
      refine ⟨h.needSnapshot, h.apart, fun id hmem => ?_, fun _ => h.late_nil hsent⟩
      have hwaiting := h.waiting id hmem
      rwa [hsent] at hwaiting
    next => exact h
  | swapSend msg =>
    simp only [WatchedService.step]
    split
    next => exact h
    next msgs hround => exact h.swapSend hround msg
  | swapDrop =>
    simp only [WatchedService.step]
    split
    next => exact h
    next msgs hround => exact h.swapDrop msgs

end

end Sound

/-- A regular message goes behind what the subscribers have. -/
theorem Served.sent (hserved : w.Served) (audience : ServiceInner.Audience) (msg : M) :
    Served (w.sent (w.inner.sendRegular audience msg) audience msg) := by
  intro id hmem
  have hold : id ∈ w.inner.subscribes.keys :=
    (@keys_sendWhere _ _ _ w.inner.subscribes audience.test msg).subst hmem
  change SnapshotFirst (w.movedBy id) (w.deliver (w.inner.subscribes.reached audience.test) (.regular msg) id)
  by_cases hreached : id ∈ w.inner.subscribes.reached audience.test
  · rw [deliver_of_mem hreached]
    exact (hserved id hold).regular msg
  · rw [deliver_of_not_mem hreached]
    exact hserved id hold

/-- The end of a round leaves every subscriber served exactly when nobody came late. -/
theorem served_swapDrop (h : w.Sound) (hserved : w.Served) {msgs : List M} (hround : w.round = some msgs) :
    (∀ id ∈ w.inner.swapNewSubscribes.subscribes.keys,
      SnapshotFirst (if id ∈ w.inner.newSubscribes.keys then msgs else w.movedBy id) (w.received id)) ↔
    ∀ id ∈ w.inner.newSubscribes.keys, id ∉ w.late := by
  have hsent : w.roundSent = msgs := by rw [roundSent, hround]; rfl
  have hmoved : ∀ id ∈ w.inner.newSubscribes.keys, SnapshotFirst msgs (w.received id) ↔ id ∉ w.late := by
    intro id hmem
    obtain ⟨missed, hle, hreceived, hlate⟩ := h.waiting id hmem
    rw [hreceived, hsent, snapshotFirst_drop (hsent ▸ hle), hlate]
    omega
  constructor
  · intro hall id hmem
    have hfirst := hall id (mem_keys_swapNewSubscribes.mpr (.inl hmem))
    rw [if_pos hmem] at hfirst
    exact (hmoved id hmem).mp hfirst
  · intro htime id hmem
    by_cases hnew : id ∈ w.inner.newSubscribes.keys
    · rw [if_pos hnew]
      exact (hmoved id hnew).mpr (htime id hnew)
    · rw [if_neg hnew]
      exact hserved id ((mem_keys_swapNewSubscribes.mp hmem).resolve_left hnew)

/-- A step keeps the subscribers served exactly when it is in time. -/
theorem served_step (h : w.Sound) (hserved : w.Served) (e : ServiceStep T) : (w.step e).Served ↔ w.InTime e := by
  cases e with
  | onSubscribe s =>
    refine iff_of_true (fun id hmem => ?_) trivial
    obtain ⟨hsubs, -, hreceived⟩ := h.onSubscribe_cases s
    have hold : id ∈ w.inner.subscribes.keys := hsubs ▸ hmem
    change SnapshotFirst (w.movedBy id) ((w.onSubscribe s).received id)
    rw [hreceived id (.inl (isSubed_iff.mpr (.inl hold)))]
    exact hserved id hold
  | onUnsubscribe id =>
    refine iff_of_true (fun id' hmem => ?_) trivial
    refine hserved id' ?_
    simp only [WatchedService.step, onUnsubscribe] at hmem
    split at hmem
    · exact (mem_keys_remove.mp hmem).1
    · exact hmem
  | sendShared msg => exact iff_of_true (hserved.sent .all msg) trivial
  | sendTo msg id => exact iff_of_true (hserved.sent (.only id) msg) trivial
  | sendToOthers msg id => exact iff_of_true (hserved.sent (.without id) msg) trivial
  | snapshot =>
    refine iff_of_true ?_ trivial
    simp only [WatchedService.step]
    split <;> exact hserved
  | swapSend msg =>
    refine iff_of_true ?_ trivial
    simp only [WatchedService.step]
    split
    next => exact hserved
    next msgs hround =>
      intro id hmem
      refine (congrArg (SnapshotFirst (w.movedBy id)) (deliver_of_not_mem ?_)).mpr (hserved id hmem)
      exact h.apart id hmem
  | swapDrop =>
    simp only [WatchedService.step, InTime]
    split
    next hround =>
      refine iff_of_true hserved fun id _ => ?_
      rw [h.late_nil (by rw [roundSent, hround]; rfl)]
      exact not_mem_nil
    next msgs hround => exact served_swapDrop h hserved hround

end Steps

theorem sound_start : (start true : WatchedService T).Sound :=
  ⟨rfl, fun _ hmem => absurd hmem not_mem_nil, fun _ hmem => absurd hmem not_mem_nil, fun _ => rfl⟩

theorem sound_run (steps : List (ServiceStep T)) : (run true steps).Sound :=
  runEvents_invariant_of_step (fun _ e h => h.step e) sound_start steps

/-- Whether a step subscribes the connection. -/
def Subscribes (id : Int) : ServiceStep T → Prop
  | .onSubscribe s => Subscriber.id s = id
  | _ => False

def Subscribed (w : WatchedService T) (id : Int) : Prop := id ∈ w.inner.subscribes.keys ∨ id ∈ w.inner.newSubscribes.keys

/-- Only a subscription makes a subscriber. -/
theorem subscribed_step (h : w.Sound) {e : ServiceStep T}
    (hsubscribed : (w.step e).Subscribed id) : w.Subscribed id ∨ Subscribes id e := by
  cases e with
  | onSubscribe s =>
    obtain ⟨hsubs, hnew, -⟩ := h.onSubscribe_cases s
    rcases hsubscribed with hsub | hwaits
    · exact .inl (.inl (hsubs ▸ hsub))
    · exact ((hnew id).mp hwaits).imp .inr fun hid => hid.1.symm
  | onUnsubscribe id' =>
    left
    simp only [step, onUnsubscribe] at hsubscribed
    split at hsubscribed
    · exact hsubscribed.imp_left fun hmem => (mem_keys_remove.mp hmem).1
    · exact hsubscribed.imp_right fun hmem => (mem_keys_remove.mp hmem).1
  | sendShared | sendTo | sendToOthers =>
    exact .inl (hsubscribed.imp_left (@keys_sendWhere _ _ _ w.inner.subscribes _ _).subst)
  | snapshot =>
    simp only [step] at hsubscribed
    split at hsubscribed <;> exact .inl hsubscribed
  | swapSend msg =>
    simp only [step] at hsubscribed
    split at hsubscribed
    · exact .inl hsubscribed
    · exact .inl (hsubscribed.imp_right (@keys_sendWhere _ _ _ w.inner.newSubscribes _ _).subst)
  | swapDrop =>
    simp only [step] at hsubscribed
    split at hsubscribed
    · exact .inl hsubscribed
    · rcases hsubscribed with hmem | hmem
      · exact .inl (mem_keys_swapNewSubscribes.mp hmem).symm
      · exact absurd hmem not_mem_nil

/-- Who is in neither map after it unsubscribed: the second map is searched only if the first one has no entry. -/
theorem not_subscribed_onUnsubscribe (h : w.Sound) (id : Int) : ¬ (w.step (.onUnsubscribe id)).Subscribed id := by
  simp only [step, onUnsubscribe, Subscribed]
  split
  next hsub =>
    rintro (hmem | hmem)
    · exact (mem_keys_remove.mp hmem).2 rfl
    · exact h.apart id hsub hmem
  next hnot =>
    rintro (hmem | hmem)
    · exact hnot hmem
    · exact (mem_keys_remove.mp hmem).2 rfl

theorem not_subscribed_run (h : w.Sound) (hnot : ¬ w.Subscribed id)
    {steps : List (ServiceStep T)} (hnone : ∀ e ∈ steps, ¬ Subscribes id e) :
    ¬ (runEvents step w steps).Subscribed id := by
  have hstep : ∀ (w : WatchedService T) e, w.Sound ∧ ¬ w.Subscribed id → ¬ Subscribes id e →
      (step w e).Sound ∧ ¬ (step w e).Subscribed id := fun w e hw he =>
    ⟨hw.1.step e, fun hsub => (subscribed_step hw.1 hsub).elim hw.2 he⟩
  exact (runEvents_invariant hstep ⟨h, hnot⟩ (runMeets_of_forall hnone w)).2

section

variable (steps : List (ServiceStep T))

def KeepsApart : Prop := ∀ done rest, steps = done ++ rest → (run true done).Apart

/-- Who unsubscribed is not subscribed until it subscribes again. -/
def KeepsAway : Prop :=
  ∀ done id since rest, steps = done ++ .onUnsubscribe id :: (since ++ rest) → (∀ e ∈ since, ¬ Subscribes id e) →
    ¬ (run true (done ++ .onUnsubscribe id :: since)).Subscribed id

def KeepsServed : Prop := ∀ done rest, steps = done ++ rest → (run true done).Served

/-- The protocol in every state of a run. -/
structure KeepsProtocol (steps : List (ServiceStep T)) : Prop where
  apart : KeepsApart steps
  away : KeepsAway steps
  served : KeepsServed steps

theorem keepsApart : KeepsApart steps := fun done _ _ => (sound_run done).apart

theorem keepsAway : KeepsAway steps := by
  intro done id since rest _ hnone
  have hdone := sound_run done
  rw [run, runEvents_append]
  exact not_subscribed_run (hdone.step _) (not_subscribed_onUnsubscribe hdone id) hnone

/-- The runs in which every subscriber is served in time are those whose rounds all end in time. -/
theorem keepsServed_iff : KeepsServed steps ↔ RunMeets step InTime (start true) steps :=
  runMeets_iff (I := Sound) (P := Served) (fun _ e h _ _ => h.step e) (fun _ e h hserved => served_step h hserved e)
    sound_start fun _ hmem => absurd hmem not_mem_nil

end

end WatchedService

/-- The snapshot protocol of a service that needs a snapshot: in every interleaving the two maps stay apart and who
unsubscribed stays away, and each subscriber has the round that moved it before its first regular message exactly in
the runs where nobody whose subscription began behind the first message of a round is waiting at its end. -/
theorem snapshot_protocol {T M : Type} [Subscriber T M] (steps : List (ServiceStep T)) :
    WatchedService.KeepsApart steps ∧ WatchedService.KeepsAway steps ∧ (WatchedService.KeepsProtocol steps ↔
        RunMeets WatchedService.step WatchedService.InTime (WatchedService.start true) steps) := by
  have hapart := WatchedService.keepsApart steps
  have haway := WatchedService.keepsAway steps
  refine ⟨hapart, haway, ?_⟩
  rw [← WatchedService.keepsServed_iff]
  exact ⟨fun h => h.served, fun h => ⟨hapart, haway, h⟩⟩

/-- A connection as the services know it, with what it was sent. -/
structure ConnInner (M : Type) where
  id : Int
  tx : List M := []

instance {M : Type} : Subscriber (ConnInner M) M where
  id := ConnInner.id
  send conn msg := { conn with tx := conn.tx ++ [msg] }
  id_send _ _ := rfl

/-- A second connection that subscribes between the audio format and the end of the round. -/
def lateSubscription : List (ServiceStep (ConnInner String)) :=
  [.onSubscribe { id := 1 }, .snapshot, .swapSend "audio format", .onSubscribe { id := 2 }, .swapDrop,
    .sendShared "audio frame"]

/-- The second connection hears the frames without their format. -/
theorem lateSubscription_misses_round : ¬ WatchedService.KeepsProtocol lateSubscription := by
  intro h
  obtain ⟨rest, heq⟩ := h.served lateSubscription [] (List.append_nil _).symm 2 (by decide)
  have hmoved : (WatchedService.run true lateSubscription).movedBy 2 = ["audio format"] := by decide
  have hreceived : (WatchedService.run true lateSubscription).received 2 = [.regular "audio frame"] := by decide
  rw [hmoved, hreceived] at heq
  exact absurd (List.cons.inj heq).1 nofun

end UnyDesk
