import UnyDesk.Keyboard.Translation

/-!
# The keyboard grab

The windows of the client share one keyboard. A window that the pointer enters takes the grab over, one that it leaves gives
the grab up, at once or from a thread of its own after the debounce time. The owner changes under one lock and the grab of
the system under another one, which is taken after the first has been released.

A slot is an activity of the client: a call of `change_grab_status`, a thread that a call has started, or a local key event.
A step of a slot is what it does under one lock. What an event is sent as is translated in a step of its own, before it is
sent to the session that is the current one by then.
-/

namespace UnyDesk.Keyboard

open Lib Function Option

open Injection (KeyEvent)

/-- `MODIFIERS_STATE` has the key. -/
def Key.isModifier : Key → Bool
  | .shiftLeft | .shiftRight | .controlLeft | .controlRight | .alt | .altGr | .metaLeft | .metaRight => true
  | _ => false

inductive GrabState
  | ready
  | run
  | wait
  | exit

structure GrabOwnerState where
  owner : Option ℕ := none
  /-- In nanoseconds. -/
  lastGrab : Option ℕ := none
  deferredPending : Bool := false

/-- In milliseconds. -/
def grabDebounceMs : ℕ := 300

/-- How far `process_event` is with an event. -/
inductive Stage
  | check
  | update
  | record
  | translate
  | send (evt : KeyEvent)

/-- Where a slot is. -/
inductive Place
  | idle
  /-- Before `apply_run_grab_if_owner`. -/
  | apply (session : ℕ) (disableFirst : Bool)
  /-- With `GRAB_OP_LOCK`, for the owner that was found. -/
  | grab (disableFirst : Bool)
  /-- Before `disable_grab_if_released`. -/
  | release (toRelease : List Event)
  /-- With `GRAB_OP_LOCK`, the grab found released. -/
  | ungrab (toRelease : List Event)
  /-- With a local event; or in `release_remote_keys_for_events`, with the events of one key that are left, and the other
  keys. -/
  | keys (events : List Event) (stage : Stage) (toRelease : List Event)
  /-- The thread of a deferred release. -/
  | sleeping (session : ℕ) (snapshot : Option ℕ) (wakeAt : ℕ)

/-- Part of a call or of a thread that has woken up, and not yet among the keys to release. -/
def Place.inCall : Place → Bool
  | .idle | .keys _ _ _ | .sleeping _ _ _ => false
  | _ => true

/-- What was sent to the peer of a session, and for which event. -/
structure Sent where
  session : ℕ
  event : Event
  message : KeyEvent

/-- The keyboard of the client. -/
structure Desk where
  gs : GrabOwnerState := {}
  keyboardHooked : Bool := false
  /-- The grab of the system. -/
  grabbed : Bool := false
  /-- The slot that has `GRAB_OP_LOCK`. -/
  grabOpLock : Option ℕ := none
  modifiersState : Key → Bool := fun _ => false
  /-- The events of `TO_RELEASE`, one for a key. -/
  toRelease : List Event := []
  /-- The session of the latest `Run`. -/
  curSession : Option ℕ := none
  sent : List Sent := []
  places : ℕ → Place := fun _ => .idle
  /-- In nanoseconds. -/
  now : ℕ := 0
  /-- The latest of `Run` and `Wait` of a session. -/
  lastEvent : ℕ → Option GrabState := fun _ => none

namespace Desk

variable (s : Desk)

def setPlace (slot : ℕ) (place : Place) : Desk := { s with places := Function.update s.places slot place }

/-- The grab is given up, and the keys are taken with it. -/
def releaseGrab (slot : ℕ) : Desk :=
  setPlace { s with keyboardHooked := false, gs := {}, toRelease := [] } slot (.release s.toRelease)

/-- The milliseconds since the grab, within the debounce time. -/
def debounced : Option ℕ :=
  s.gs.lastGrab.bind fun t =>
    let elapsed := (s.now - t) / 1000000
    if elapsed < grabDebounceMs then some elapsed else none

/-- `change_grab_status` while it has the lock, on Linux and with the key grab library enabled. -/
def changeGrabStatus (slot : ℕ) (state : GrabState) (session : ℕ) : Desk :=
  match state with
  | .ready | .exit => s
  | .run =>
    if s.gs.owner = some session then
      { s with gs := { s.gs with lastGrab := some s.now, deferredPending := false }, curSession := some session }
    else
      setPlace { s with
        keyboardHooked := true
        gs := { owner := some session, lastGrab := some s.now, deferredPending := false }
        curSession := some session } slot (.apply session s.gs.owner.isSome)
  | .wait =>
    if s.gs.owner ≠ some session then s
    else
      match s.debounced with
      | some elapsed =>
        if s.gs.deferredPending then s
        else
          let remaining := grabDebounceMs - elapsed + 50
          setPlace { s with gs := { s.gs with deferredPending := true } } slot
            (.sleeping session s.gs.lastGrab (s.now + remaining * 1000000))
      | none => s.releaseGrab slot

/-- The thread of a deferred release, once it has slept. -/
def deferredRelease (slot session : ℕ) (snapshot : Option ℕ) : Desk :=
  if s.gs.owner = some session ∧ s.gs.lastGrab = snapshot then s.releaseGrab slot else s.setPlace slot .idle

def isLongPress (event : Event) : Bool := event.isPress && event.key.isModifier && s.modifiersState event.key

def updateModifiersState (event : Event) : Desk :=
  if event.key.isModifier then { s with modifiersState := Function.update s.modifiersState event.key event.isPress } else s

/-- What `event_to_key_events` does to `TO_RELEASE`. -/
def recordEvent (event : Event) : Desk :=
  let others := s.toRelease.filter (·.key ≠ event.key)
  { s with toRelease := if event.isPress then others ++ [event] else others }

def sendKeyEvent (a : Answers) (event : Event) (evt : KeyEvent) : Desk :=
  match s.curSession with
  | some session => { s with sent := s.sent ++ [{ session, event, message := swapModifierKey a evt }] }
  | none => s

/-- A step of `process_event`, with the next stage. -/
def processEvent (a : Answers) (event : Event) : Stage → Desk × Option Stage
  | .check => if s.isLongPress event then (s, none) else (s, some .update)
  | .update => (s.updateModifiersState event, some .record)
  | .record => (s.recordEvent event, some .translate)
  | .translate => (s, (eventToKeyEvents a s.modifiersState event).map .send)
  | .send evt => (s.sendKeyEvent a event evt, none)

end Desk

/-- The events that release a key; a second stroke for one that the controlled side may hold. -/
def releaseEvents (event : Event) : List Event :=
  let release := { event with eventType := .keyRelease event.key }
  if event.key = .alt ∨ event.key = .altGr then [release, { event with eventType := .keyPress event.key }, release]
  else [release]

inductive Action
  | call (slot : ℕ) (state : GrabState) (session : ℕ)
  | wake (slot : ℕ)
  | key (slot : ℕ) (event : Event)
  /-- The slot goes on; the number chooses among the keys to release. -/
  | advance (slot pick : ℕ) (a : Answers)

namespace Desk

variable (s : Desk)

/-- The next step of a slot in the middle of its work. -/
def advance (slot pick : ℕ) (a : Answers) : Desk :=
  match s.places slot with
  | .idle | .sleeping _ _ _ => s
  | .apply session disableFirst =>
    if s.grabOpLock ≠ none then s
    else if s.gs.owner ≠ some session then s.setPlace slot .idle
    else setPlace { s with grabOpLock := some slot } slot (.grab disableFirst)
  | .grab true => setPlace { s with grabbed := false } slot (.grab false)
  | .grab false => setPlace { s with grabbed := true, grabOpLock := none } slot .idle
  | .release toRelease =>
    if s.grabOpLock ≠ none then s
    else if s.gs.owner = none ∧ s.gs.lastGrab = none then
      setPlace { s with grabOpLock := some slot } slot (.ungrab toRelease)
    else s.setPlace slot (.keys [] .check toRelease)
  | .ungrab toRelease =>
    setPlace { s with grabbed := false, grabOpLock := none } slot (.keys [] .check toRelease)
  | .keys [] _ toRelease =>
    match toRelease[pick]? with
    | some event => s.setPlace slot (.keys (releaseEvents event) .check (toRelease.filter (·.key ≠ event.key)))
    | none => if toRelease.isEmpty then s.setPlace slot .idle else s
  | .keys (event :: events) stage toRelease =>
    match s.processEvent a event stage with
    | (s, some stage) => s.setPlace slot (.keys (event :: events) stage toRelease)
    | (s, none) => s.setPlace slot (.keys events .check toRelease)

/-- The call is noted for the session. -/
def noteEvent (state : GrabState) (session : ℕ) : Desk :=
  match state with
  | .ready | .exit => s
  | .run | .wait => { s with lastEvent := Function.update s.lastEvent session (some state) }

def act : Action → Desk
  | .call slot state session =>
    match s.places slot with
    | .idle => (s.noteEvent state session).changeGrabStatus slot state session
    | _ => s
  | .wake slot =>
    match s.places slot with
    | .sleeping session snapshot wakeAt => if wakeAt ≤ s.now then s.deferredRelease slot session snapshot else s
    | _ => s
  | .key slot event =>
    match s.places slot with
    | .idle => s.setPlace slot (.keys [event] .check [])
    | _ => s
  | .advance slot pick a => s.advance slot pick a

/-- An action after some time. The clock is never read twice at the same time. -/
def step (e : Action × ℕ) : Desk := { s with now := s.now + e.2 + 1 }.act e.1

def run (events : List (Action × ℕ)) : Desk := runEvents step {} events

/-- No call and no woken thread is in progress, but for the release of keys. -/
def Quiet : Prop := ∀ slot, (s.places slot).inCall = false

/-- Some slot is at such a place. -/
def Any (p : Place → Bool) : Prop := ∃ slot, p (s.places slot) = true

end Desk

namespace Place

/-- The place has no part in the grab. -/
def neutral : Place → Bool
  | .idle | .keys _ _ _ => true
  | _ => false

def isApply (session : ℕ) : Place → Bool
  | .apply session' _ => session' = session
  | _ => false

def isGrab : Place → Bool
  | .grab _ => true
  | _ => false

def isRelease : Place → Bool
  | .release _ => true
  | _ => false

def isUngrab : Place → Bool
  | .ungrab _ => true
  | _ => false

def isSleeping (session : ℕ) (snapshot : Option ℕ) : Place → Bool
  | .sleeping session' snapshot' _ => session' = session ∧ snapshot' = snapshot
  | _ => false

/-- The place has `GRAB_OP_LOCK`. -/
def hasLock (place : Place) : Bool := place.isGrab || place.isUngrab

/-- The slot enables the grab for the session, if nothing happens before. -/
def enables (session : ℕ) (place : Place) : Bool := place.isApply session || place.isGrab

/-- The slot disables the grab, if nothing happens before. -/
def disables (place : Place) : Bool := place.isRelease || place.isUngrab

end Place

namespace Desk

variable {s : Desk} {slot : ℕ} {place : Place} {p : Place → Bool}

@[simp] theorem places_setPlace_self : (s.setPlace slot place).places slot = place := update_self ..

theorem places_setPlace_ne {slot' : ℕ} (h : slot' ≠ slot) : (s.setPlace slot place).places slot' = s.places slot' :=
  update_of_ne h ..

/-- A slot that goes to such a place. -/
theorem any_setPlace (h : p place = true) : (s.setPlace slot place).Any p := ⟨slot, by rw [places_setPlace_self, h]⟩

/-- A slot that was not at such a place. -/
theorem Any.setPlace (h : s.Any p) (hold : p (s.places slot) = false) : (s.setPlace slot place).Any p := by
  obtain ⟨slot', hslot'⟩ := h
  have hne : slot' ≠ slot := by
    intro heq
    rw [heq, hold] at hslot'
    exact nomatch hslot'
  exact ⟨slot', by rw [places_setPlace_ne hne, hslot']⟩

/-- A slot that goes elsewhere. -/
theorem Any.of_setPlace (h : (s.setPlace slot place).Any p) (hnew : p place = false) : s.Any p := by
  obtain ⟨slot', hslot'⟩ := h
  by_cases heq : slot' = slot
  · rw [heq, places_setPlace_self, hnew] at hslot'
    exact nomatch hslot'
  · exact ⟨slot', by rwa [places_setPlace_ne heq] at hslot'⟩

/-- What the owner, the hook and the grab of the system have to do with each other. Where they disagree, a slot is about to
mend it; the lock keeps another slot from spoiling it again. -/
structure Agreement (s : Desk) : Prop where
  hooked : s.keyboardHooked = s.gs.owner.isSome
  lastGrab : s.gs.owner = none → s.gs.lastGrab = none
  lock : ∀ slot, (s.places slot).hasLock = true → s.grabOpLock = some slot
  enables : ∀ session, s.gs.owner = some session → s.grabbed = false → s.Any (Place.enables session)
  disables : s.gs.owner = none → s.grabbed = true → s.Any Place.disables
  /-- The grab is enabled for a session that has given it up. -/
  late : s.gs.owner = none → s.Any Place.isGrab → s.Any Place.isRelease
  /-- The grab is disabled although a session has taken it over. -/
  early : ∀ session, s.gs.owner = some session → s.Any Place.isUngrab → s.Any (Place.isApply session)
  pending : s.gs.deferredPending = true →
    ∃ session, s.gs.owner = some session ∧ s.Any (Place.isSleeping session s.gs.lastGrab)
  waited : ∀ session, s.gs.owner = some session → s.lastEvent session = some .wait → s.gs.deferredPending = true

theorem neutral_apply (h : place.neutral = true) : place.hasLock = false ∧ place.isGrab = false ∧
    place.isRelease = false ∧ place.isUngrab = false ∧ place.disables = false ∧
    ∀ session, place.isApply session = false ∧ place.enables session = false ∧
      ∀ snapshot, place.isSleeping session snapshot = false := by
  cases place <;> simp_all [Place.neutral, Place.hasLock, Place.isGrab, Place.isUngrab, Place.isRelease, Place.disables,
    Place.enables, Place.isApply, Place.isSleeping]

/-- The slots with the lock, after one has gone to a place without it. -/
theorem lock_setPlace {holder : Option ℕ} (h : ∀ slot', (s.places slot').hasLock = true → holder = some slot')
    (hnew : place.hasLock = false) (slot' : ℕ) (hlock : ((s.setPlace slot place).places slot').hasLock = true) :
    holder = some slot' := by
  by_cases heq : slot' = slot
  · rw [heq, places_setPlace_self, hnew] at hlock
    exact nomatch hlock
  · rw [places_setPlace_ne heq] at hlock
    exact h slot' hlock

/-- A slot that has nothing to do with the grab goes on. -/
theorem Agreement.setPlace (h : Agreement s) (hold : (s.places slot).neutral = true) (hnew : place.neutral = true) :
    Agreement (s.setPlace slot place) := by
  obtain ⟨hlock, hgrab, hrelease, hungrab, hdisables, hsession⟩ := neutral_apply hnew
  obtain ⟨hlock', hgrab', hrelease', hungrab', hdisables', hsession'⟩ := neutral_apply hold
  exact {
    hooked := h.hooked
    lastGrab := h.lastGrab
    lock := lock_setPlace h.lock hlock
    enables := fun session howner hgrabbed => (h.enables session howner hgrabbed).setPlace (hsession' session).2.1
    disables := fun howner hgrabbed => (h.disables howner hgrabbed).setPlace hdisables'
    late := fun howner hany => (h.late howner (hany.of_setPlace hgrab)).setPlace hrelease'
    early := fun session howner hany =>
      (h.early session howner (hany.of_setPlace hungrab)).setPlace (hsession' session).1
    pending := fun hpending => by
      obtain ⟨session, howner, hany⟩ := h.pending hpending
      exact ⟨session, howner, hany.setPlace ((hsession' session).2.2 _)⟩
    waited := h.waited }

/-- What the agreement does not mention may change. -/
theorem Agreement.congr {s' : Desk} (h : Agreement s) (hplaces : s'.places = s.places) (hgs : s'.gs = s.gs)
    (hhooked : s'.keyboardHooked = s.keyboardHooked) (hgrabbed : s'.grabbed = s.grabbed)
    (hlock : s'.grabOpLock = s.grabOpLock) (hlast : s'.lastEvent = s.lastEvent) : Agreement s' := by
  have hany (p : Place → Bool) : s'.Any p ↔ s.Any p := by simp only [Any, hplaces]
  constructor
  · rw [hhooked, hgs]
    exact h.hooked
  · rw [hgs]
    exact h.lastGrab
  · rw [hplaces, hlock]
    exact h.lock
  · simp only [hgs, hgrabbed, hany]
    exact h.enables
  · simp only [hgs, hgrabbed, hany]
    exact h.disables
  · simp only [hgs, hany]
    exact h.late
  · simp only [hgs, hany]
    exact h.early
  · simp only [hgs, hany]
    exact h.pending
  · simp only [hgs, hlast]
    exact h.waited

section Call

variable {session : ℕ}

/-- The owner enters again. -/
theorem Agreement.refresh (h : Agreement s) (howner : s.gs.owner = some session) :
    Agreement { s.noteEvent .run session with
      gs := { s.gs with lastGrab := some s.now, deferredPending := false }, curSession := some session } where
  hooked := h.hooked
  lastGrab hnone := nomatch howner.symm.trans hnone
  lock := h.lock
  enables := h.enables
  disables := h.disables
  late := h.late
  early := h.early
  pending hpending := nomatch hpending
  waited session' howner' hlast := by
    obtain rfl := some.inj (howner.symm.trans howner')
    change update s.lastEvent session (some .run) session = some .wait at hlast
    rw [update_self] at hlast
    exact nomatch hlast

/-- A session takes the grab over. -/
theorem Agreement.takeOver (h : Agreement s) (disableFirst : Bool) :
    Agreement (Desk.setPlace { s.noteEvent .run session with
      keyboardHooked := true
      gs := { owner := some session, lastGrab := some s.now, deferredPending := false }
      curSession := some session } slot (.apply session disableFirst)) where
  hooked := rfl
  lastGrab := nofun
  lock := lock_setPlace h.lock rfl
  enables session' howner _ := by
    obtain rfl := some.inj howner
    exact any_setPlace (by simp [Place.enables, Place.isApply])
  disables := nofun
  late := nofun
  early session' howner _ := by
    obtain rfl := some.inj howner
    exact any_setPlace (by simp [Place.isApply])
  pending hpending := nomatch hpending
  waited session' howner hlast := by
    obtain rfl := some.inj howner
    change update s.lastEvent session (some .run) session = some .wait at hlast
    rw [update_self] at hlast
    exact nomatch hlast

/-- The grab is given up, whatever was agreed upon. -/
theorem agreement_releaseGrab (hlock : ∀ slot, (s.places slot).hasLock = true → s.grabOpLock = some slot) :
    Agreement (s.releaseGrab slot) where
  hooked := rfl
  lastGrab _ := rfl
  lock := lock_setPlace hlock rfl
  enables := nofun
  disables _ _ := any_setPlace rfl
  late _ _ := any_setPlace rfl
  early := nofun
  pending := nofun
  waited := nofun

/-- A call of `Wait` by a session is noted; it need not own the grab. -/
theorem Agreement.noteWait (h : Agreement s) (howner : s.gs.owner ≠ some session) :
    Agreement (s.noteEvent .wait session) :=
  { h with
    waited := fun session' howner' hlast => by
      have hne : session' ≠ session := by
        intro heq
        exact howner (heq ▸ howner')
      change update s.lastEvent session (some .wait) session' = some .wait at hlast
      rw [update_of_ne hne] at hlast
      exact h.waited session' howner' hlast }

/-- The owner leaves within the debounce time. -/
theorem Agreement.defer (h : Agreement s) (hidle : s.places slot = .idle) (howner : s.gs.owner = some session)
    (wakeAt : ℕ) :
    Agreement (Desk.setPlace { s.noteEvent .wait session with gs := { s.gs with deferredPending := true } } slot
      (.sleeping session s.gs.lastGrab wakeAt)) := by
  have hneutral : (s.places slot).neutral = true := by rw [hidle]; rfl
  obtain ⟨-, -, hrelease, -, hdisables, hsession⟩ := neutral_apply hneutral
  exact {
    hooked := h.hooked
    lastGrab := h.lastGrab
    lock := lock_setPlace h.lock rfl
    enables := fun session' howner' hgrabbed =>
      Any.setPlace (s := { s with gs := { s.gs with deferredPending := true } }) (h.enables session' howner' hgrabbed)
        (hsession session').2.1
    disables := fun howner' => nomatch howner.symm.trans howner'
    late := fun howner' => nomatch howner.symm.trans howner'
    early := fun session' howner' hany => by
      have hany' : s.Any Place.isUngrab := Any.of_setPlace (s := s) hany rfl
      exact Any.setPlace (s := s) (h.early session' howner' hany') (hsession session').1
    pending := fun _ => ⟨session, howner, any_setPlace (by simp [Place.isSleeping]; rfl)⟩
    waited := fun _ _ _ => rfl }

/-- The owner leaves again while a thread sleeps. -/
theorem Agreement.stillPending (h : Agreement s)
    (hpending : s.gs.deferredPending = true) : Agreement (s.noteEvent .wait session) :=
  { h with waited := fun _ _ _ => hpending }

end Call

/-- No other slot has the lock. -/
theorem Agreement.unlocked (h : Agreement s) (hold : (s.places slot).hasLock = true) {place : Place}
    (hnew : place.hasLock = false) (slot' : ℕ) : ((s.setPlace slot place).places slot').hasLock = false := by
  rw [Bool.eq_false_iff]
  intro hlock
  have hheld := lock_setPlace h.lock hnew slot' hlock
  obtain rfl := some.inj ((h.lock slot hold).symm.trans hheld)
  rw [places_setPlace_self, hnew] at hlock
  exact nomatch hlock

/-- Nobody has a free lock. -/
theorem Agreement.hasLock_eq_false (h : Agreement s) (hfree : s.grabOpLock = none) (slot : ℕ) :
    (s.places slot).hasLock = false := by
  rw [Bool.eq_false_iff]
  intro hlock
  exact nomatch hfree.symm.trans (h.lock slot hlock)

/-- The slots with the lock, after one has taken the free lock. -/
theorem Agreement.lock_taken (h : Agreement s) (hfree : s.grabOpLock = none) (slot' : ℕ)
    (hlock : ((Desk.setPlace { s with grabOpLock := some slot } slot place).places slot').hasLock = true) :
    some slot = some slot' := by
  by_cases heq : slot' = slot
  · rw [heq]
  · rw [places_setPlace_ne heq] at hlock
    exact nomatch (h.hasLock_eq_false hfree slot').symm.trans hlock

theorem not_any_isGrab (h : ∀ slot, (s.places slot).hasLock = false) : ¬ s.Any Place.isGrab := by
  rintro ⟨slot, hgrab⟩
  have hlock : (s.places slot).hasLock = true := by rw [Place.hasLock, hgrab, Bool.true_or]
  exact nomatch (h slot).symm.trans hlock

theorem not_any_isUngrab (h : ∀ slot, (s.places slot).hasLock = false) : ¬ s.Any Place.isUngrab := by
  rintro ⟨slot, hungrab⟩
  have hlock : (s.places slot).hasLock = true := by rw [Place.hasLock, hungrab, Bool.or_true]
  exact nomatch (h slot).symm.trans hlock

/-- The thread of a pending release is another one. -/
theorem Agreement.pending_setPlace (h : Agreement s) {old : Place} (hplace : s.places slot = old)
    (hold : ∀ session, s.gs.owner = some session → old.isSleeping session s.gs.lastGrab = false)
    (hpending : s.gs.deferredPending = true) :
    ∃ session, s.gs.owner = some session ∧ (s.setPlace slot place).Any (Place.isSleeping session s.gs.lastGrab) := by
  obtain ⟨session, howner, hany⟩ := h.pending hpending
  exact ⟨session, howner, hany.setPlace (hplace ▸ hold session howner)⟩

/-- A thread wakes up after the grab has been refreshed or has changed hands. -/
theorem Agreement.cancelled (h : Agreement s) {session : ℕ} {snapshot : Option ℕ} {wakeAt : ℕ}
    (hplace : s.places slot = .sleeping session snapshot wakeAt)
    (hcancelled : ¬ (s.gs.owner = some session ∧ s.gs.lastGrab = snapshot)) : Agreement (s.setPlace slot .idle) where
  hooked := h.hooked
  lastGrab := h.lastGrab
  lock := lock_setPlace h.lock rfl
  enables session' howner hgrabbed := (h.enables session' howner hgrabbed).setPlace (by rw [hplace]; rfl)
  disables howner hgrabbed := (h.disables howner hgrabbed).setPlace (by rw [hplace]; rfl)
  late howner hany := (h.late howner (hany.of_setPlace rfl)).setPlace (by rw [hplace]; rfl)
  early session' howner hany := (h.early session' howner (hany.of_setPlace rfl)).setPlace (by rw [hplace]; rfl)
  pending := h.pending_setPlace hplace fun session' howner => by
    apply decide_eq_false
    rintro ⟨rfl, hsnapshot⟩
    exact hcancelled ⟨howner, hsnapshot.symm⟩
  waited := h.waited

section Advance

variable {session : ℕ} {toRelease : List Event}

section Agreement

variable (h : Agreement s)
include h

namespace Agreement

/-- `apply_run_grab_if_owner` after the session has lost the grab. -/
theorem notOwner {disableFirst : Bool} (hplace : s.places slot = .apply session disableFirst)
    (howner : s.gs.owner ≠ some session) : Agreement (s.setPlace slot .idle) := by
  have happly (session' : ℕ) (howner' : s.gs.owner = some session') : (s.places slot).isApply session' = false := by
    rw [hplace]
    apply decide_eq_false
    rintro rfl
    exact howner howner'
  exact {
    hooked := h.hooked
    lastGrab := h.lastGrab
    lock := lock_setPlace h.lock rfl
    enables := fun session' howner' hgrabbed => by
      apply (h.enables session' howner' hgrabbed).setPlace
      rw [Place.enables, happly session' howner', hplace]
      rfl
    disables := fun howner' hgrabbed => (h.disables howner' hgrabbed).setPlace (by rw [hplace]; rfl)
    late := fun howner' hany => (h.late howner' (hany.of_setPlace rfl)).setPlace (by rw [hplace]; rfl)
    early := fun session' howner' hany =>
      (h.early session' howner' (hany.of_setPlace rfl)).setPlace (happly session' howner')
    pending := h.pending_setPlace hplace fun _ _ => rfl
    waited := h.waited }

/-- `apply_run_grab_if_owner` takes the lock for the owner. -/
theorem lockForOwner {disableFirst : Bool} (hplace : s.places slot = .apply session disableFirst)
    (hfree : s.grabOpLock = none) (howner : s.gs.owner = some session) :
    Agreement (Desk.setPlace { s with grabOpLock := some slot } slot (.grab disableFirst)) where
  hooked := h.hooked
  lastGrab := h.lastGrab
  lock := h.lock_taken hfree
  enables _ _ _ := any_setPlace (by simp [Place.enables, Place.isGrab])
  disables hnone := nomatch howner.symm.trans hnone
  late hnone := nomatch howner.symm.trans hnone
  early session' _ hany := absurd (Any.of_setPlace (s := s) hany rfl) (not_any_isUngrab (h.hasLock_eq_false hfree))
  pending := h.pending_setPlace hplace fun _ _ => rfl
  waited := h.waited

/-- The grab of the system is disabled before it is enabled for the new owner. -/
theorem disableFirst (hplace : s.places slot = .grab true) :
    Agreement (Desk.setPlace { s with grabbed := false } slot (.grab false)) where
  hooked := h.hooked
  lastGrab := h.lastGrab
  lock slot' hlock := by
    by_cases heq : slot' = slot
    · rw [heq]
      exact h.lock slot (by rw [hplace]; rfl)
    · rw [places_setPlace_ne heq] at hlock
      exact h.lock slot' hlock
  enables _ _ _ := any_setPlace (by simp [Place.enables, Place.isGrab])
  disables := nofun
  late howner _ := Any.setPlace (s := s) (h.late howner ⟨slot, by rw [hplace]; rfl⟩) (by rw [hplace]; rfl)
  early session' howner hany :=
    Any.setPlace (s := s) (h.early session' howner (Any.of_setPlace (s := s) hany rfl)) (by rw [hplace]; rfl)
  pending := h.pending_setPlace hplace fun _ _ => rfl
  waited := h.waited

/-- The grab of the system is enabled. -/
theorem enableGrab (hplace : s.places slot = .grab false) :
    Agreement (Desk.setPlace { s with grabbed := true, grabOpLock := none } slot .idle) := by
  have hlock : (s.places slot).hasLock = true := by
    rw [hplace]
    rfl
  have hunlocked := h.unlocked hlock (show Place.idle.hasLock = false from rfl)
  exact {
    hooked := h.hooked
    lastGrab := h.lastGrab
    lock := fun slot' hlock => nomatch (hunlocked slot').symm.trans hlock
    enables := nofun
    disables := fun howner _ => by
      obtain ⟨slot', hrelease⟩ := h.late howner ⟨slot, by rw [hplace]; rfl⟩
      have hdisables : s.Any Place.disables := ⟨slot', by rw [Place.disables, hrelease, Bool.true_or]⟩
      exact Any.setPlace (s := s) hdisables (by rw [hplace]; rfl)
    late := fun _ hany => absurd hany (not_any_isGrab hunlocked)
    early := fun _ _ hany => absurd hany (not_any_isUngrab hunlocked)
    pending := h.pending_setPlace hplace fun _ _ => rfl
    waited := h.waited }

/-- `disable_grab_if_released` takes the lock while nobody owns the grab. -/
theorem lockReleased (hplace : s.places slot = .release toRelease)
    (hfree : s.grabOpLock = none) (howner : s.gs.owner = none) :
    Agreement (Desk.setPlace { s with grabOpLock := some slot } slot (.ungrab toRelease)) where
  hooked := h.hooked
  lastGrab := h.lastGrab
  lock := h.lock_taken hfree
  enables _ hsome := nomatch howner.symm.trans hsome
  disables _ _ := any_setPlace rfl
  late _ hany := absurd (Any.of_setPlace (s := s) hany rfl) (not_any_isGrab (h.hasLock_eq_false hfree))
  early _ hsome := nomatch howner.symm.trans hsome
  pending := h.pending_setPlace hplace fun _ _ => rfl
  waited := h.waited

/-- `disable_grab_if_released` after another session has taken the grab over. -/
theorem notReleased (hplace : s.places slot = .release toRelease)
    (howner : ¬ (s.gs.owner = none ∧ s.gs.lastGrab = none)) :
    Agreement (s.setPlace slot (.keys [] .check toRelease)) := by
  have hsome : s.gs.owner ≠ none := fun hnone => howner ⟨hnone, h.lastGrab hnone⟩
  exact {
    hooked := h.hooked
    lastGrab := h.lastGrab
    lock := lock_setPlace h.lock rfl
    enables := fun session' howner' hgrabbed => (h.enables session' howner' hgrabbed).setPlace (by rw [hplace]; rfl)
    disables := fun hnone => absurd hnone hsome
    late := fun hnone => absurd hnone hsome
    early := fun session' howner' hany => (h.early session' howner' (hany.of_setPlace rfl)).setPlace (by rw [hplace]; rfl)
    pending := h.pending_setPlace hplace fun _ _ => rfl
    waited := h.waited }

/-- The grab of the system is disabled. -/
theorem disableGrab (hplace : s.places slot = .ungrab toRelease) :
    Agreement (Desk.setPlace { s with grabbed := false, grabOpLock := none } slot (.keys [] .check toRelease)) := by
  have hlock : (s.places slot).hasLock = true := by
    rw [hplace]
    rfl
  have hunlocked := h.unlocked hlock (show (Place.keys [] .check toRelease).hasLock = false from rfl)
  exact {
    hooked := h.hooked
    lastGrab := h.lastGrab
    lock := fun slot' hlock => nomatch (hunlocked slot').symm.trans hlock
    enables := fun session' howner _ => by
      obtain ⟨slot', happly⟩ := h.early session' howner ⟨slot, by rw [hplace]; rfl⟩
      have henables : s.Any (Place.enables session') := ⟨slot', by rw [Place.enables, happly, Bool.true_or]⟩
      exact Any.setPlace (s := s) henables (by rw [hplace]; rfl)
    disables := nofun
    late := fun _ hany => absurd hany (not_any_isGrab hunlocked)
    early := fun _ _ hany => absurd hany (not_any_isUngrab hunlocked)
    pending := h.pending_setPlace hplace fun _ _ => rfl
    waited := h.waited }

/-- A local event, or a release, does not touch the grab. -/
theorem processEvent (a : Answers) (event : Event) (stage : Stage) : Agreement (s.processEvent a event stage).1 := by
  cases stage with
  | check =>
    dsimp only [Desk.processEvent]
    split
    · exact h
    · exact h
  | update =>
    dsimp only [Desk.processEvent, updateModifiersState]
    split
    · exact h.congr rfl rfl rfl rfl rfl rfl
    · exact h
  | record => exact h.congr rfl rfl rfl rfl rfl rfl
  | translate => exact h
  | send evt =>
    dsimp only [Desk.processEvent, sendKeyEvent]
    split
    · exact h.congr rfl rfl rfl rfl rfl rfl
    · exact h

end Agreement

end Agreement

theorem places_processEvent (a : Answers) (event : Event) (stage : Stage) :
    (s.processEvent a event stage).1.places = s.places := by
  cases stage with
  | check =>
    dsimp only [Desk.processEvent]
    split <;> rfl
  | update =>
    dsimp only [Desk.processEvent, updateModifiersState]
    split <;> rfl
  | record | translate => rfl
  | send evt =>
    dsimp only [Desk.processEvent, sendKeyEvent]
    split <;> rfl

theorem Agreement.advance (h : Agreement s) (slot pick : ℕ) (a : Answers) : Agreement (s.advance slot pick a) := by
  unfold Desk.advance
  cases hplace : s.places slot with
  | idle => exact h
  | sleeping session snapshot wakeAt => exact h
  | apply session disableFirst =>
    dsimp only
    split_ifs with hlock howner
    · exact h
    · exact h.notOwner hplace howner
    · exact h.lockForOwner hplace (not_not.mp hlock) (not_not.mp howner)
  | grab disableFirst =>
    cases disableFirst with
    | true => exact h.disableFirst hplace
    | false => exact h.enableGrab hplace
  | release toRelease =>
    dsimp only
    split_ifs with hlock howner
    · exact h
    · exact h.lockReleased hplace (not_not.mp hlock) howner.1
    · exact h.notReleased hplace howner
  | ungrab toRelease => exact h.disableGrab hplace
  | keys events stage toRelease =>
    have hneutral : (s.places slot).neutral = true := by
      rw [hplace]
      rfl
    cases events with
    | nil =>
      dsimp only
      split
      · exact h.setPlace hneutral rfl
      · split_ifs
        · exact h.setPlace hneutral rfl
        · exact h
    | cons event events =>
      have hevent := h.processEvent a event stage
      rw [← places_processEvent a event stage] at hneutral
      dsimp only
      split
      next s' stage' heq =>
        rw [heq] at hevent hneutral
        exact hevent.setPlace hneutral rfl
      next s' heq =>
        rw [heq] at hevent hneutral
        exact hevent.setPlace hneutral rfl

end Advance

theorem Agreement.call (h : Agreement s) (hidle : s.places slot = .idle) (state : GrabState) (session : ℕ) :
    Agreement ((s.noteEvent state session).changeGrabStatus slot state session) := by
  cases state with
  | ready => exact h
  | exit => exact h
  | run =>
    dsimp only [changeGrabStatus]
    split_ifs with howner
    · exact h.refresh howner
    · exact h.takeOver _
  | wait =>
    dsimp only [changeGrabStatus]
    split
    next howner => exact h.noteWait howner
    next howner =>
      split
      · split
        next hpending => exact h.stillPending hpending
        next => exact h.defer hidle (not_not.mp howner) _
      · exact agreement_releaseGrab h.lock

theorem Agreement.act (h : Agreement s) (action : Action) : Agreement (s.act action) := by
  cases action with
  | call slot state session =>
    dsimp only [Desk.act]
    split
    next hidle => exact h.call hidle state session
    next => exact h
  | wake slot =>
    dsimp only [Desk.act]
    split
    next session snapshot wakeAt hplace =>
      dsimp only [deferredRelease]
      split_ifs with hdue hsame
      · exact agreement_releaseGrab h.lock
      · exact h.cancelled hplace hsame
      · exact h
    next => exact h
  | key slot event =>
    dsimp only [Desk.act]
    split
    next hidle => exact h.setPlace (by rw [hidle]; rfl) rfl
    next => exact h
  | advance slot pick a => exact h.advance slot pick a

theorem Agreement.step (h : Agreement s) (e : Action × ℕ) : Agreement (s.step e) := by
  have hlater : Agreement { s with now := s.now + e.2 + 1 } := h.congr rfl rfl rfl rfl rfl rfl
  exact hlater.act e.1

theorem agreement_run (events : List (Action × ℕ)) : Agreement (run events) := by
  refine runEvents_invariant_of_step (I := Agreement) (fun s e h => h.step e) ?_ events
  exact {
    hooked := rfl
    lastGrab := fun _ => rfl
    lock := fun slot hlock => nomatch hlock
    enables := nofun
    disables := nofun
    late := by
      rintro - ⟨slot, hgrab⟩
      exact nomatch hgrab
    early := nofun
    pending := nofun
    waited := nofun }

/-- Where nothing is in progress, the grab of the system agrees with the owner. -/
theorem Agreement.grabbed_iff (h : Agreement s) (hquiet : s.Quiet) : s.grabbed = true ↔ s.gs.owner.isSome = true := by
  have hnone (p : Place → Bool) (hcall : ∀ place, p place = true → place.inCall = true) : ¬ s.Any p := by
    rintro ⟨slot, hslot⟩
    exact nomatch (hquiet slot).symm.trans (hcall _ hslot)
  cases howner : s.gs.owner with
  | none =>
    refine iff_of_false ?_ nofun
    intro hgrabbed
    refine hnone Place.disables ?_ (h.disables howner hgrabbed)
    rintro (_ | _ | _ | _ | _ | _ | _) hplace <;> first | rfl | exact nomatch hplace
  | some session =>
    refine iff_of_true ?_ rfl
    by_contra hgrabbed
    refine hnone (Place.enables session) ?_ (h.enables session howner (Bool.eq_false_iff.mpr hgrabbed))
    rintro (_ | _ | _ | _ | _ | _ | _) hplace <;> first | rfl | exact nomatch hplace

/-- `Wait` of a session that does not own the grab. -/
theorem step_foreign_wait {session : ℕ} (howner : s.gs.owner ≠ some session) (elapsed : ℕ) :
    ∃ lastEvent, s.step (.call slot .wait session, elapsed) = { s with now := s.now + elapsed + 1, lastEvent } := by
  dsimp only [Desk.step, Desk.act]
  split
  · refine ⟨update s.lastEvent session (some .wait), ?_⟩
    dsimp only [changeGrabStatus]
    exact if_pos howner
  · exact ⟨s.lastEvent, rfl⟩

end Desk

open Desk in
/-- In every state of every run: with no call and no woken thread in progress the hook and the grab of the system are there
exactly when the grab has an owner; `Wait` of another session only lets time pass; and without a sleeping thread a session
that came last with `Wait` is not the owner. -/
theorem grab_follows_owner (events : List (Action × ℕ)) :
    let s := run events
    (s.Quiet → (s.keyboardHooked = true ↔ s.gs.owner.isSome = true) ∧ (s.grabbed = true ↔ s.gs.owner.isSome = true)) ∧
      (∀ slot session elapsed, s.gs.owner ≠ some session →
        ∃ lastEvent, s.step (.call slot .wait session, elapsed) = { s with now := s.now + elapsed + 1, lastEvent }) ∧
      ((∀ session snapshot, ¬ s.Any (Place.isSleeping session snapshot)) →
        ∀ session, s.lastEvent session = some .wait → s.gs.owner ≠ some session) := by
  intro s
  have h : Agreement s := agreement_run events
  refine ⟨fun hquiet => ⟨by rw [h.hooked], h.grabbed_iff hquiet⟩, fun slot session elapsed howner => ?_, ?_⟩
  · exact step_foreign_wait howner elapsed
  · intro hawake session hlast howner
    obtain ⟨session', -, hsleeping⟩ := h.pending (h.waited session howner hlast)
    exact hawake session' _ hsleeping

end UnyDesk.Keyboard
