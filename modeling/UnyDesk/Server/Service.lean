import Mathlib.Data.List.Nodup
import UnyDesk.Lib.Machine

/-!
# A service and its subscribers

A service keeps two maps of subscribers. Where it needs a snapshot, a new subscriber waits in the second map until a
snapshot round of the service thread has sent it what it needs, and the round ends by moving all that wait to the
first map, which the regular sends go to. Every operation is one critical section of the lock; a round is several.
-/

namespace UnyDesk

open Lib List

/-- What a service needs of a subscriber: the id of its connection and how it takes a message. -/
class Subscriber (T : Type) (M : outParam Type) where
  id : T → Int
  send : T → M → T
  id_send (s : T) (msg : M) : id (send s msg) = id s

section Maps

variable {T M : Type} [Subscriber T M]

/-- A map from connection ids to subscribers, each under its own id. -/
structure SubscriberMap (T : Type) {M : Type} [Subscriber T M] where
  values : List T
  nodup : (values.map Subscriber.id).Nodup

namespace SubscriberMap

def empty : SubscriberMap T := ⟨[], List.nodup_nil⟩

def keys (map : SubscriberMap T) : List Int := map.values.map Subscriber.id

def remove (map : SubscriberMap T) (id : Int) : SubscriberMap T :=
  ⟨map.values.filter (Subscriber.id · ≠ id), map.nodup.sublist (List.filter_sublist.map _)⟩

theorem id_ne_of_mem_remove {map : SubscriberMap T} {id : Int} {s : T} (hmem : s ∈ (map.remove id).values) :
    Subscriber.id s ≠ id := by
  simpa using (mem_filter.mp hmem).2

/-- The subscriber takes the place of another with its id. -/
def insert (map : SubscriberMap T) (s : T) : SubscriberMap T :=
  ⟨s :: (map.remove (Subscriber.id s)).values, by
    refine List.nodup_cons.mpr ⟨fun hmem => ?_, (map.remove (Subscriber.id s)).nodup⟩
    obtain ⟨s', hs', hid⟩ := List.mem_map.mp hmem
    exact id_ne_of_mem_remove hs' hid⟩

/-- Sends to every subscriber whose id passes the test. -/
def sendWhere (map : SubscriberMap T) (test : Int → Bool) (msg : M) : SubscriberMap T :=
  have hid (s : T) : Subscriber.id (if test (Subscriber.id s) then Subscriber.send s msg else s) = Subscriber.id s := by
    split
    · exact Subscriber.id_send s msg
    · rfl
  ⟨map.values.map fun s => if test (Subscriber.id s) then Subscriber.send s msg else s, by
    rw [List.map_map, show Subscriber.id ∘ _ = _ from funext hid]
    exact map.nodup⟩

variable {map : SubscriberMap T} {id id' : Int}

@[simp] theorem mem_keys_remove : id' ∈ (map.remove id).keys ↔ id' ∈ map.keys ∧ id' ≠ id := by
  simp only [keys, remove, mem_map, mem_filter, decide_eq_true_eq]
  constructor
  · rintro ⟨s, ⟨hmem, hne⟩, rfl⟩
    exact ⟨⟨s, hmem, rfl⟩, hne⟩
  · rintro ⟨⟨s, hmem, rfl⟩, hne⟩
    exact ⟨s, ⟨hmem, hne⟩, rfl⟩

@[simp] theorem mem_keys_insert {s : T} : id ∈ (map.insert s).keys ↔ id = Subscriber.id s ∨ id ∈ map.keys := by
  have hkeys : (map.insert s).keys = Subscriber.id s :: (map.remove (Subscriber.id s)).keys := rfl
  rw [hkeys, mem_cons, mem_keys_remove]
  by_cases h : id = Subscriber.id s <;> simp [h]

@[simp] theorem keys_sendWhere (test : Int → Bool) (msg : M) : (map.sendWhere test msg).keys = map.keys := by
  simp only [keys, sendWhere, map_map]
  refine map_congr_left fun s _ => ?_
  simp only [Function.comp_apply]
  split
  · exact Subscriber.id_send s msg
  · rfl

/-- The ids that a message reaches. -/
def reached (map : SubscriberMap T) (test : Int → Bool) : List Int := map.keys.filter test

end SubscriberMap

end Maps

/-- The part of a service under its lock that subscribing and sending use. -/
structure ServiceInner (T : Type) {M : Type} [Subscriber T M] where
  subscribes : SubscriberMap T
  newSubscribes : SubscriberMap T
  needSnapshot : Bool

namespace ServiceInner

variable {T M : Type} [Subscriber T M]

def new (needSnapshot : Bool) : ServiceInner T := { subscribes := .empty, newSubscribes := .empty, needSnapshot }

section

variable (inner : ServiceInner T)

def sendNewSubscribes (msg : M) : ServiceInner T :=
  { inner with newSubscribes := inner.newSubscribes.sendWhere (fun _ => true) msg }

def swapNewSubscribes : ServiceInner T :=
  { inner with
    subscribes := inner.newSubscribes.values.foldl SubscriberMap.insert inner.subscribes
    newSubscribes := .empty }

def isSubed (id : Int) : Bool :=
  decide (id ∈ inner.subscribes.keys) || decide (id ∈ inner.newSubscribes.keys)

def onSubscribe (s : T) : ServiceInner T :=
  if Subscriber.id s ∈ inner.subscribes.keys then inner
  else if inner.needSnapshot then { inner with newSubscribes := inner.newSubscribes.insert s }
  else { inner with subscribes := inner.subscribes.insert s }

def onUnsubscribe (id : Int) : ServiceInner T :=
  if id ∈ inner.subscribes.keys then { inner with subscribes := inner.subscribes.remove id }
  else { inner with newSubscribes := inner.newSubscribes.remove id }

end

/-- Whom a regular send goes to. -/
inductive Audience
  | all
  | only (id : Int)
  | without (id : Int)

def Audience.test : Audience → Int → Bool
  | .all, _ => true
  | .only id, id' => id' == id
  | .without id, id' => id' != id

section

variable (inner : ServiceInner T)

def sendRegular (audience : Audience) (msg : M) : ServiceInner T :=
  { inner with subscribes := inner.subscribes.sendWhere audience.test msg }

def sendShared (msg : M) : ServiceInner T := inner.sendRegular .all msg

def sendTo (msg : M) (id : Int) : ServiceInner T := inner.sendRegular (.only id) msg

def sendToOthers (msg : M) (id : Int) : ServiceInner T := inner.sendRegular (.without id) msg

end

end ServiceInner

end UnyDesk
