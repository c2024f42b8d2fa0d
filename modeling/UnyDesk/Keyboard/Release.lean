import UnyDesk.Keyboard.Grab

/-!
# Releasing keys

A key that is pressed is noted in one map for all sessions, and who gives up the grab takes the map and releases its keys
after the lock has been dropped. What is sent goes to the session that has entered last. So a key is released where it was
pressed as long as the map stays with one session: another one enters only with no key noted or on its way, keys are pressed
only while the grab has an owner, and no press is sent after the release of its key. And the release of a local key must be
sent as the release of what its press was sent as, for which the keyboard modes and tables may have changed in between.
-/

namespace UnyDesk.Keyboard

open Lib Place EventType List
open Injection (KeyEvent)

variable {session : ℕ} {key : Key}

/-- The message releases what the earlier one has pressed at the same peer. -/
def Sent.releases (release press : Sent) : Bool :=
  release.session = press.session && releasesKey release.message press.message

/-- The presses of keys with no release of the key since. -/
def unreleased : List Sent → List Sent
  | [] => []
  | press :: after =>
    if pressesKey press.message && after.all (!·.releases press) then press :: unreleased after else unreleased after

theorem mem_unreleased_append {sent : List Sent} {last press : Sent} (h : press ∈ unreleased (sent ++ [last])) :
    (press = last ∧ pressesKey last.message = true) ∨ (press ∈ unreleased sent ∧ last.releases press = false) := by
  induction sent with
  | nil =>
    simp only [nil_append, unreleased, all_nil, Bool.and_true] at h
    split at h
    next hpresses => exact .inl ⟨mem_singleton.mp h, hpresses⟩
    next => exact absurd h not_mem_nil
  | cons first sent ih =>
    simp only [cons_append, unreleased, all_append, all_cons, all_nil, Bool.and_true] at h ⊢
    split at h
    next hopen =>
      obtain ⟨hpresses, hsent, hlast⟩ : pressesKey first.message = true ∧ sent.all (!·.releases first) = true ∧
          last.releases first = false := by simpa only [Bool.and_eq_true, Bool.not_eq_true'] using hopen
      rw [if_pos (by rw [hpresses, hsent, Bool.and_self])]
      rcases mem_cons.mp h with rfl | hmem
      · exact .inr ⟨mem_cons_self, hlast⟩
      · exact (ih hmem).imp_right fun hold => ⟨mem_cons_of_mem first hold.1, hold.2⟩
    next =>
      refine (ih h).imp_right fun hold => ⟨?_, hold.2⟩
      split
      · exact mem_cons_of_mem first hold.1
      · exact hold.1

theorem mem_unreleased {before after : List Sent} {press : Sent} (hpresses : pressesKey press.message = true)
    (hafter : ∀ release ∈ after, release.releases press = false) : press ∈ unreleased (before ++ press :: after) := by
  induction before with
  | nil =>
    have hall : after.all (!·.releases press) = true := all_eq_true.mpr fun release hmem => by rw [hafter release hmem]; rfl
    rw [nil_append, unreleased, if_pos (by rw [hpresses, hall, Bool.and_self])]
    exact mem_cons_self
  | cons first before ih =>
    rw [cons_append, unreleased]
    split
    · exact mem_cons_of_mem first ih
    · exact ih

/-- The keys of the events. -/
def keysOf (events : List Event) : List Key := events.map (·.key)

/-- The keys that the events release. -/
def released : List Event → List Key
  | [] => []
  | e :: events => if e.isPress then released events else e.key :: released events

/-- The stage comes before `TO_RELEASE` is changed. -/
def Stage.early : Stage → Bool
  | .check | .update | .record => true
  | .translate | .send _ => false

/-- What is sent for an event is true to it. -/
def Stage.Sound (event : Event) : Stage → Prop
  | .send evt => Faithful event evt
  | _ => True

namespace Place

/-- The slot will still send a release of the key. -/
def willRelease (key : Key) : Place → Bool
  | .release toRelease | .ungrab toRelease => key ∈ keysOf toRelease
  | .keys events _ toRelease => key ∈ released events ∨ key ∈ keysOf toRelease
  | _ => false

/-- The slot will still take the key out of `TO_RELEASE`. -/
def willRemove (key : Key) : Place → Bool
  | .release toRelease | .ungrab toRelease => key ∈ keysOf toRelease
  | .keys [] _ toRelease => key ∈ keysOf toRelease
  | .keys (e :: events) stage toRelease =>
    (e.isPress = false ∧ e.key = key ∧ stage.early) ∨ key ∈ released events ∨ key ∈ keysOf toRelease
  | _ => false

/-- The place has no part in the keys. -/
def keyless : Place → Bool
  | .idle | .apply _ _ | .grab _ | .sleeping _ _ _ => true
  | _ => false

def Sound : Place → Prop
  | .keys (e :: _) stage _ => stage.Sound e
  | _ => True

end Place

theorem mem_released_releaseEvents {event : Event} : key ∈ released (releaseEvents event) ↔ key = event.key := by
  unfold releaseEvents
  split <;> simp [released, Event.isPress, EventType.isPress, Event.key, EventType.key]

namespace Desk

variable {s : Desk} {slot : ℕ} {place : Place} {events toRelease : List Event} {p : Place → Bool} {event : Event}
  {a : Answers} {stage : Stage}

/-- A release is sent as the release of all that its key has pressed. -/
def letsGo (s : Desk) (a : Answers) (event : Event) (evt : Option KeyEvent) : Bool :=
  event.isPress || (unreleased s.sent).all fun press =>
    press.event.key ≠ event.key || evt.any fun evt => releasesKey (swapModifierKey a evt) press.message

theorem exists_of_letsGo {evt : Option KeyEvent} {press : Sent} (h : s.letsGo a event evt = true)
    (hrelease : event.isPress = false) (hmem : press ∈ unreleased s.sent) (hkey : press.event.key = event.key) :
    ∃ evt' ∈ evt, releasesKey (swapModifierKey a evt') press.message = true := by
  rw [letsGo, hrelease, Bool.false_or, all_eq_true] at h
  have hany := h press hmem
  rw [decide_eq_false (not_not.mpr hkey), Bool.false_or] at hany
  obtain ⟨evt', rfl, hreleases⟩ := (Option.any_eq_true ..).mp hany
  exact ⟨evt', rfl, hreleases⟩

/-- The step leaves the keys with the session that has them. -/
def Admits (s : Desk) (e : Action × ℕ) : Prop :=
  match e.1 with
  | .call slot .run session =>
    -- another session takes over with no key noted and none on its way
    s.places slot = .idle → s.curSession = some session ∨ s.curSession = none ∨
      (s.toRelease = [] ∧ ∀ key, ¬ s.Any (Place.willRelease key))
  | .advance slot _ a =>
    match s.places slot with
    | .keys (e :: events) .record toRelease =>
      e.isPress = true → s.gs.owner ≠ none ∨ e.key ∈ released events ∨ e.key ∈ keysOf toRelease
    -- nothing is sent for the event
    | .keys (e :: _) .translate _ => eventToKeyEvents a s.modifiersState e = none → s.letsGo a e none = true
    | .keys (e :: _) (.send evt) _ =>
      (e.isPress = true → e.key ∈ keysOf s.toRelease ∨ s.Any (Place.willRelease e.key)) ∧ s.letsGo a e evt = true
    | _ => True
  | _ => True

/-- A key that is down at a peer is with the current session, and it is noted or on its way. -/
structure KeysKept (s : Desk) : Prop where
  current : ∀ session, s.gs.owner = some session → s.curSession = some session
  pressed : ∀ press ∈ unreleased s.sent, s.curSession = some press.session ∧
    (press.event.key ∈ keysOf s.toRelease ∨ s.Any (Place.willRelease press.event.key))
  free : s.gs.owner = none → ∀ key ∈ keysOf s.toRelease, s.Any (Place.willRemove key)
  sound : ∀ slot, (s.places slot).Sound

/-- A slot that goes on and will still do what it would. -/
theorem Any.mono (h : s.Any p) (hkeep : p (s.places slot) = true → p place = true) : (s.setPlace slot place).Any p := by
  obtain ⟨slot', hslot'⟩ := h
  by_cases heq : slot' = slot
  · rw [heq] at hslot'
    exact any_setPlace (hkeep hslot')
  · exact ⟨slot', by rw [places_setPlace_ne heq, hslot']⟩

theorem sound_setPlace (h : ∀ slot, (s.places slot).Sound) (hnew : place.Sound) (slot' : ℕ) :
    ((s.setPlace slot place).places slot').Sound := by
  by_cases heq : slot' = slot
  · rw [heq, places_setPlace_self]
    exact hnew
  · rw [places_setPlace_ne heq]
    exact h slot'

theorem KeysKept.setPlace (h : KeysKept s)
    (hrelease : ∀ key, (s.places slot).willRelease key = true → place.willRelease key = true)
    (hremove : ∀ key, (s.places slot).willRemove key = true → place.willRemove key = true) (hnew : place.Sound) :
    KeysKept (s.setPlace slot place) where
  current := h.current
  pressed press hpressed := by
    obtain ⟨hcurrent, hkept⟩ := h.pressed press hpressed
    exact ⟨hcurrent, hkept.imp_right fun hany => hany.mono (hrelease press.event.key)⟩
  free howner key hmem := (h.free howner key hmem).mono (hremove key)
  sound := sound_setPlace h.sound hnew

/-- What the keys do not depend on may change. -/
theorem KeysKept.congr {s' : Desk} (h : KeysKept s) (hplaces : s'.places = s.places) (howner : s'.gs.owner = s.gs.owner)
    (hcurrent : s'.curSession = s.curSession) (hrelease : s'.toRelease = s.toRelease) (hsent : s'.sent = s.sent) :
    KeysKept s' := by
  have hany (p : Place → Bool) : s'.Any p ↔ s.Any p := by simp only [Any, hplaces]
  constructor
  · rw [howner, hcurrent]
    exact h.current
  · simp only [hsent, hcurrent, hrelease, hany]
    exact h.pressed
  · simp only [howner, hrelease, hany]
    exact h.free
  · rw [hplaces]
    exact h.sound

theorem willRelease_keys : (Place.keys (event :: events) stage toRelease).willRelease key = true ↔
    (event.isPress = false ∧ event.key = key) ∨ key ∈ released events ∨ key ∈ keysOf toRelease := by
  cases hpress : event.isPress <;> simp [willRelease, released, hpress, or_assoc, @eq_comm _ key]

theorem willRelease_rest : (Place.keys events .check toRelease).willRelease key = true ↔
    key ∈ released events ∨ key ∈ keysOf toRelease := decide_eq_true_iff

theorem willRemove_keys : (Place.keys (event :: events) stage toRelease).willRemove key = true ↔
    (event.isPress = false ∧ event.key = key ∧ stage.early = true) ∨ key ∈ released events ∨ key ∈ keysOf toRelease :=
  decide_eq_true_iff

theorem willRemove_rest : (Place.keys events .check toRelease).willRemove key = true ↔
    key ∈ released events ∨ key ∈ keysOf toRelease := by
  cases events with
  | nil => simp [willRemove, released]
  | cons event events =>
    rw [willRemove_keys]
    cases hpress : event.isPress <;> simp [released, hpress, Stage.early, or_assoc, @eq_comm _ key]

/-- The place of a slot after a step with its first event. -/
def keysPlace (event : Event) (events toRelease : List Event) : Option Stage → Place
  | some stage => .keys (event :: events) stage toRelease
  | none => .keys events .check toRelease

theorem sound_keysPlace {stage : Option Stage} (h : ∀ stage' ∈ stage, stage'.Sound event) :
    (keysPlace event events toRelease stage).Sound := by
  cases stage with
  | none => cases events <;> trivial
  | some stage => exact h stage rfl

section Process

variable {evt : KeyEvent} (h : KeysKept s) (hplace : s.places slot = .keys (event :: events) stage toRelease)
include h hplace

/-- The event goes on to another stage, or ends; what has been pressed for its key must not be forgotten then. -/
theorem KeysKept.goOn {stage' : Option Stage} (hearly : ∀ st ∈ stage', stage.early = true → st.early = true)
    (hremoved : stage' = none → stage.early = true → event.isPress = true)
    (hreleased : stage' = none → event.isPress = false → ∀ press ∈ unreleased s.sent, press.event.key ≠ event.key)
    (hsound : ∀ st ∈ stage', st.Sound event) :
    KeysKept (s.setPlace slot (keysPlace event events toRelease stage')) where
  current := h.current
  pressed press hpressed := by
    obtain ⟨hcurrent, hkept⟩ := h.pressed press hpressed
    refine ⟨hcurrent, hkept.imp_right fun hany => hany.mono fun hkey => ?_⟩
    rw [hplace, willRelease_keys] at hkey
    cases stage' with
    | none =>
      refine willRelease_rest.mpr (hkey.resolve_left fun hrelease => ?_)
      exact hreleased rfl hrelease.1 press hpressed hrelease.2.symm
    | some stage' => exact willRelease_keys.mpr hkey
  free howner key hmem := by
    refine (h.free howner key hmem).mono fun hkey => ?_
    rw [hplace, willRemove_keys] at hkey
    cases stage' with
    | none =>
      refine willRemove_rest.mpr (hkey.resolve_left fun hremove => ?_)
      exact nomatch hremove.1.symm.trans (hremoved rfl hremove.2.2)
    | some stage' =>
      refine willRemove_keys.mpr (hkey.imp_left fun hremove => ?_)
      exact ⟨hremove.1, hremove.2.1, hearly stage' rfl hremove.2.2⟩
  sound := sound_setPlace h.sound (sound_keysPlace hsound)

omit h hplace in
theorem mem_keysOf_recordEvent : key ∈ keysOf (s.recordEvent event).toRelease ↔
    (key ∈ keysOf s.toRelease ∧ key ≠ event.key) ∨ (event.isPress = true ∧ key = event.key) := by
  cases hpress : event.isPress <;> simp [recordEvent, keysOf, hpress] <;> grind

/-- A press is noted: there is an owner who will release it, or the slot will. A release takes its key out of the map, and
is on its way. -/
theorem KeysKept.record (howned : event.isPress = true →
      s.gs.owner ≠ none ∨ event.key ∈ released events ∨ event.key ∈ keysOf toRelease) :
    KeysKept ((s.recordEvent event).setPlace slot (.keys (event :: events) .translate toRelease)) where
  current := h.current
  pressed press hpressed := by
    obtain ⟨hcurrent, hkept⟩ := h.pressed press hpressed
    refine ⟨hcurrent, ?_⟩
    obtain hold | hany := hkept
    · by_cases heq : press.event.key = event.key
      · cases hpress : event.isPress with
        | true => exact .inl (mem_keysOf_recordEvent.mpr (.inr ⟨hpress, heq⟩))
        | false => exact .inr (any_setPlace (willRelease_keys.mpr (.inl ⟨hpress, heq.symm⟩)))
      · exact .inl (mem_keysOf_recordEvent.mpr (.inl ⟨hold, heq⟩))
    · refine .inr (Any.mono (s := s) hany fun hkey => ?_)
      rw [hplace, willRelease_keys] at hkey
      exact willRelease_keys.mpr hkey
  free howner key hmem := by
    obtain ⟨hold, hne⟩ | ⟨hpress, rfl⟩ := mem_keysOf_recordEvent.mp hmem
    · refine Any.mono (s := s) (h.free howner key hold) fun hremove => ?_
      rw [hplace, willRemove_keys] at hremove
      exact willRemove_keys.mpr (.inr (hremove.resolve_left fun heq => hne heq.2.1.symm))
    · have hlater := (howned hpress).resolve_left fun hne => hne howner
      exact any_setPlace (willRemove_keys.mpr (.inr hlater))
  sound := sound_setPlace (s := s) h.sound trivial

/-- The event is sent, a press while its key is noted or on its way, a release for all that its key has pressed. -/
theorem KeysKept.sendEvent (hstage : stage = .send evt) (hfaithful : Faithful event evt)
    (hkept : event.isPress = true → event.key ∈ keysOf s.toRelease ∨ s.Any (willRelease event.key))
    (hletsGo : s.letsGo a event evt = true) :
    KeysKept ((s.sendKeyEvent a event evt).setPlace slot (keysPlace event events toRelease none)) := by
  subst hstage
  cases hcur : s.curSession with
  | none =>
    have hsend : s.sendKeyEvent a event evt = s := by rw [sendKeyEvent, hcur]
    rw [hsend]
    refine h.goOn hplace nofun (fun _ hearly => nomatch hearly) (fun _ _ press hmem => ?_) nofun
    exact nomatch hcur.symm.trans (h.pressed press hmem).1
  | some cur =>
    have hsend : s.sendKeyEvent a event evt =
        { s with sent := s.sent ++ [{ session := cur, event, message := swapModifierKey a evt }] } := by
      rw [sendKeyEvent, hcur]
    rw [hsend]
    -- the slot has nothing more to release than what comes later
    have hany {key : Key} (hnot : ¬ (event.isPress = false ∧ event.key = key)) (hany : s.Any (willRelease key)) :
        (s.setPlace slot (.keys events .check toRelease)).Any (willRelease key) := by
      refine hany.mono fun hkey => ?_
      rw [hplace, willRelease_keys] at hkey
      exact willRelease_rest.mpr (hkey.resolve_left hnot)
    exact {
      current := h.current
      pressed := fun press hpressed => by
        obtain ⟨rfl, hpresses⟩ | ⟨hold, hlast⟩ := mem_unreleased_append hpressed
        · rw [pressesKey_swapModifierKey] at hpresses
          have hpress := hfaithful hpresses
          exact ⟨hcur, (hkept hpress).imp_right (hany fun hrelease => nomatch hrelease.1.symm.trans hpress)⟩
        · obtain ⟨hcurrent, hkept⟩ := h.pressed press hold
          obtain rfl := Option.some.inj (hcur.symm.trans hcurrent)
          refine ⟨hcur, hkept.imp_right (hany fun hrelease => ?_)⟩
          obtain ⟨evt', hevt', hreleases⟩ := exists_of_letsGo hletsGo hrelease.1 hold hrelease.2.symm
          obtain rfl := Option.some.inj hevt'
          simp [Sent.releases, hreleases] at hlast
      free := fun howner key hmem => by
        refine Any.mono (s := s) (h.free howner key hmem) fun hkey => ?_
        rw [hplace, willRemove_keys] at hkey
        exact willRemove_rest.mpr (hkey.resolve_left fun hremove => nomatch hremove.2.2)
      sound := sound_setPlace (s := s) h.sound (sound_keysPlace nofun) }

/-- A step of `process_event`. -/
theorem KeysKept.processEvent {pick elapsed : ℕ} (hadmits : s.Admits (.advance slot pick a, elapsed)) :
    KeysKept ((s.processEvent a event stage).1.setPlace slot
      (keysPlace event events toRelease (s.processEvent a event stage).2)) := by
  have hsound := h.sound slot
  rw [hplace] at hsound
  cases stage with
  | check =>
    dsimp only [Desk.processEvent]
    split
    next hlong =>
      have hpress : event.isPress = true := by
        simp only [isLongPress, Bool.and_eq_true] at hlong
        exact hlong.1.1
      exact h.goOn hplace nofun (fun _ _ => hpress) (fun _ hrelease => nomatch hrelease.symm.trans hpress) nofun
    next => exact h.goOn hplace (fun _ heq _ => by cases heq; rfl) nofun nofun (fun _ heq => by cases heq; trivial)
  | update =>
    have hupdate : KeysKept (s.updateModifiersState event) ∧ (s.updateModifiersState event).places = s.places := by
      unfold updateModifiersState
      split
      · exact ⟨h.congr rfl rfl rfl rfl rfl, rfl⟩
      · exact ⟨h, rfl⟩
    refine hupdate.1.goOn (by rw [hupdate.2, hplace]) (fun _ heq _ => ?_) nofun nofun (fun _ heq => ?_)
    · cases heq
      rfl
    · cases heq
      trivial
  | record =>
    simp only [Admits, hplace] at hadmits
    exact h.record hplace hadmits
  | translate =>
    simp only [Admits, hplace] at hadmits
    dsimp only [Desk.processEvent]
    cases heq : eventToKeyEvents a s.modifiersState event with
    | none =>
      refine h.goOn hplace nofun (fun _ hearly => nomatch hearly) (fun _ hrelease press hmem hkey => ?_) nofun
      obtain ⟨evt, hevt, -⟩ := exists_of_letsGo (hadmits heq) hrelease hmem hkey
      exact nomatch hevt
    | some evt =>
      refine h.goOn hplace (fun _ _ hearly => nomatch hearly) nofun nofun fun stage hstage => ?_
      obtain rfl := Option.some.inj hstage
      exact eventToKeyEvents_faithful heq
  | send evt =>
    simp only [Admits, hplace] at hadmits
    exact h.sendEvent hplace rfl hsound hadmits.1 hadmits.2

end Process

theorem keyless_apply (hkeyless : place.keyless = true) (key : Key) :
    place.willRelease key = false ∧ place.willRemove key = false := by
  cases place <;> first | exact ⟨rfl, rfl⟩ | exact nomatch hkeyless

section KeysKept

variable (h : KeysKept s)
include h

namespace KeysKept

/-- A slot that has no keys goes on without any. -/
theorem setPlace_of_keyless (hold : (s.places slot).keyless = true) (hnew : place.Sound) :
    KeysKept (s.setPlace slot place) :=
  h.setPlace (fun key hkey => nomatch (keyless_apply hold key).1.symm.trans hkey)
    (fun key hkey => nomatch (keyless_apply hold key).2.symm.trans hkey) hnew

/-- The keys are taken by the slot that gives the grab up. -/
theorem releaseGrab (hold : (s.places slot).keyless = true) : KeysKept (s.releaseGrab slot) where
  current := nofun
  pressed press hpressed := by
    obtain ⟨hcurrent, hkept⟩ := h.pressed press hpressed
    refine ⟨hcurrent, .inr ?_⟩
    obtain hmem | hany := hkept
    · exact any_setPlace (decide_eq_true hmem)
    · exact Any.mono (s := s) hany fun hkey => nomatch (keyless_apply hold _).1.symm.trans hkey
  free _ key hmem := nomatch hmem
  sound := sound_setPlace (s := s) h.sound trivial

/-- A session enters; another one only with no key noted and none on its way. -/
theorem enter (hfree : s.curSession = some session ∨ s.curSession = none ∨
      (s.toRelease = [] ∧ ∀ key, ¬ s.Any (willRelease key))) (gs : GrabOwnerState)
    (howner : gs.owner = some session) (hooked : Bool) :
    KeysKept { s with gs, keyboardHooked := hooked, curSession := some session } where
  current session' howner' := by
    obtain rfl := Option.some.inj (howner.symm.trans howner')
    rfl
  pressed press hpressed := by
    obtain ⟨hcurrent, hkept⟩ := h.pressed press hpressed
    obtain hsame | hnone | ⟨hempty, hquiet⟩ := hfree
    · exact ⟨hsame.symm.trans hcurrent, hkept⟩
    · exact nomatch hnone.symm.trans hcurrent
    · obtain hmem | hany := hkept
      · rw [hempty] at hmem
        exact absurd hmem not_mem_nil
      · exact absurd hany (hquiet press.event.key)
  free hnone := nomatch howner.symm.trans hnone
  sound := h.sound

theorem noteEvent (state : GrabState) (session : ℕ) : KeysKept (s.noteEvent state session) := by
  cases state with
  | ready | exit => exact h
  | run | wait => exact h.congr rfl rfl rfl rfl rfl

theorem call (hidle : s.places slot = .idle) {state : GrabState} {session elapsed : ℕ}
    (hadmits : s.Admits (.call slot state session, elapsed)) :
    KeysKept ((s.noteEvent state session).changeGrabStatus slot state session) := by
  have hkeyless : (s.places slot).keyless = true := by
    rw [hidle]
    rfl
  have hnoted := h.noteEvent state session
  cases state with
  | ready => exact h
  | exit => exact h
  | run =>
    have hfree := hadmits hidle
    dsimp only [changeGrabStatus]
    split_ifs with howner
    · let gs : GrabOwnerState := { s.gs with lastGrab := some s.now, deferredPending := false }
      exact hnoted.enter hfree gs howner s.keyboardHooked
    · exact setPlace_of_keyless (hnoted.enter hfree _ rfl _) hkeyless trivial
  | wait =>
    dsimp only [changeGrabStatus]
    split
    next => exact hnoted
    next =>
      split
      · split
        next => exact hnoted
        next => exact setPlace_of_keyless (hnoted.congr rfl rfl rfl rfl rfl) hkeyless trivial
      · exact hnoted.releaseGrab hkeyless

/-- A slot with keys goes on with the same keys. -/
theorem setPlace_of_eq (hrelease : ∀ key, (s.places slot).willRelease key = place.willRelease key)
    (hremove : ∀ key, (s.places slot).willRemove key = place.willRemove key) (hnew : place.Sound) :
    KeysKept (s.setPlace slot place) :=
  h.setPlace (fun key hkey => (hrelease key).symm.trans hkey) (fun key hkey => (hremove key).symm.trans hkey) hnew

theorem advance {pick elapsed : ℕ} (hadmits : s.Admits (.advance slot pick a, elapsed)) :
    KeysKept (s.advance slot pick a) := by
  unfold Desk.advance
  cases hplace : s.places slot with
  | idle => exact h
  | sleeping session snapshot wakeAt => exact h
  | apply session disableFirst =>
    have hkeyless : (s.places slot).keyless = true := by
      rw [hplace]
      rfl
    dsimp only
    split_ifs
    · exact h
    · exact h.setPlace_of_keyless hkeyless trivial
    · have hlocked : KeysKept { s with grabOpLock := some slot } := h.congr rfl rfl rfl rfl rfl
      exact hlocked.setPlace_of_keyless hkeyless trivial
  | grab disableFirst =>
    have hkeyless : (s.places slot).keyless = true := by
      rw [hplace]
      rfl
    have hchanged (grabbed : Bool) (grabOpLock : Option ℕ) : KeysKept { s with grabbed, grabOpLock } :=
      h.congr rfl rfl rfl rfl rfl
    cases disableFirst with
    | true => exact (hchanged false s.grabOpLock).setPlace_of_keyless hkeyless trivial
    | false => exact (hchanged true none).setPlace_of_keyless hkeyless trivial
  | release toRelease =>
    have hlocked : KeysKept { s with grabOpLock := some slot } := h.congr rfl rfl rfl rfl rfl
    dsimp only
    split_ifs
    · exact h
    · exact hlocked.setPlace_of_eq (fun key => by simp [hplace, willRelease]) (fun key => by simp [hplace, willRemove]) trivial
    · exact h.setPlace_of_eq (fun key => by simp [hplace, willRelease, released]) (fun key => by simp [hplace, willRemove])
        trivial
  | ungrab toRelease =>
    have hchanged : KeysKept { s with grabbed := false, grabOpLock := none } := h.congr rfl rfl rfl rfl rfl
    exact hchanged.setPlace_of_eq (fun key => by simp [hplace, willRelease, released])
      (fun key => by simp [hplace, willRemove]) trivial
  | keys events stage toRelease =>
    cases events with
    | nil =>
      dsimp only
      split
      next event hpick =>
        -- the key's own events begin with its release
        have hchosen (key : Key) (hkey : key ∈ keysOf toRelease) :
            key ∈ released (releaseEvents event) ∨ key ∈ keysOf (toRelease.filter (·.key ≠ event.key)) := by
          rw [mem_released_releaseEvents]
          by_cases heq : key = event.key
          · exact .inl heq
          · obtain ⟨event', hmem, rfl⟩ := mem_map.mp hkey
            exact .inr (mem_map_of_mem (mem_filter.mpr ⟨hmem, decide_eq_true heq⟩))
        apply h.setPlace
        · intro key hkey
          rw [hplace] at hkey
          obtain hnil | hmem := of_decide_eq_true hkey
          · exact absurd hnil not_mem_nil
          · exact decide_eq_true (hchosen key hmem)
        · intro key hkey
          rw [hplace] at hkey
          exact willRemove_rest.mpr (hchosen key (of_decide_eq_true hkey))
        · exact show (keysPlace event (releaseEvents event) _ none).Sound from sound_keysPlace nofun
      next hpick =>
        split_ifs with hempty
        · obtain rfl := isEmpty_iff.mp hempty
          exact h.setPlace_of_eq (fun key => by simp [hplace, willRelease, released, keysOf])
            (fun key => by simp [hplace, willRemove, keysOf]) trivial
        · exact h
    | cons event events =>
      have hprocess := h.processEvent hplace hadmits
      dsimp only
      split
      next s' stage' heq =>
        rw [heq] at hprocess
        exact hprocess
      next s' heq =>
        rw [heq] at hprocess
        exact hprocess

theorem act {action : Action} (elapsed : ℕ) (hadmits : s.Admits (action, elapsed)) : KeysKept (s.act action) := by
  cases action with
  | call slot state session =>
    dsimp only [Desk.act]
    split
    next hidle => exact h.call hidle hadmits
    next => exact h
  | wake slot =>
    dsimp only [Desk.act]
    split
    next session snapshot wakeAt hplace =>
      have hkeyless : (s.places slot).keyless = true := by
        rw [hplace]
        rfl
      dsimp only [deferredRelease]
      split_ifs
      · exact h.releaseGrab hkeyless
      · exact h.setPlace_of_keyless hkeyless trivial
      · exact h
    next => exact h
  | key slot event =>
    dsimp only [Desk.act]
    split
    next hidle =>
      have hkeyless : (s.places slot).keyless = true := by
        rw [hidle]
        rfl
      exact h.setPlace_of_keyless hkeyless trivial
    next => exact h
  | advance slot pick a => exact h.advance hadmits

theorem step {e : Action × ℕ} (hadmits : s.Admits e) : KeysKept (s.step e) := by
  have hlater : KeysKept { s with now := s.now + e.2 + 1 } := h.congr rfl rfl rfl rfl rfl
  exact hlater.act e.2 hadmits

end KeysKept

end KeysKept

/-- No local event, no call and no woken thread is in progress. -/
def Settled (s : Desk) : Prop :=
  ∀ slot, s.places slot = .idle ∨ ∃ session snapshot wakeAt, s.places slot = .sleeping session snapshot wakeAt

theorem Settled.not_any (h : s.Settled) (hidle : p .idle = false)
    (hsleeping : ∀ session snapshot wakeAt, p (.sleeping session snapshot wakeAt) = false) : ¬ s.Any p := by
  rintro ⟨slot, hslot⟩
  obtain hplace | ⟨session, snapshot, wakeAt, hplace⟩ := h slot
  · rw [hplace, hidle] at hslot
    exact nomatch hslot
  · rw [hplace, hsleeping] at hslot
    exact nomatch hslot

/-- Where nothing is in progress, the keys that are down are with the owner of the grab. -/
theorem KeysKept.released (h : KeysKept s) (hsettled : s.Settled) (howner : s.gs.owner ≠ some session) (press : Sent)
    (hpressed : press ∈ unreleased s.sent) : press.session ≠ session := by
  rintro rfl
  obtain ⟨hcurrent, hmem | hany⟩ := h.pressed press hpressed
  · cases hnone : s.gs.owner with
    | none => exact hsettled.not_any rfl (fun _ _ _ => rfl) (h.free hnone _ hmem)
    | some owner =>
      obtain rfl := Option.some.inj (hcurrent.symm.trans (h.current owner hnone))
      exact howner hnone
  · exact hsettled.not_any rfl (fun _ _ _ => rfl) hany

end Desk

open Desk in
/-- In every state of every run that leaves the keys with the session that has them and releases the keys of the peer that
were pressed: with nothing in progress, every press of a key that was sent to the peer of a session without the grab has
been followed by a release of the key to the same peer. -/
theorem keys_released_without_grab (events : List (Action × ℕ)) (hadmits : RunMeets Desk.step Desk.Admits {} events) :
    let s := run events
    s.Settled → ∀ session, s.gs.owner ≠ some session → ∀ press before after, s.sent = before ++ press :: after →
      press.session = session → pressesKey press.message = true → ∃ release ∈ after, release.releases press = true := by
  intro s hsettled session howner press before after hsent hsession hpresses
  have hstart : KeysKept {} :=
    ⟨nofun, fun _ hmem => absurd hmem not_mem_nil, fun _ _ hmem => absurd hmem not_mem_nil, fun _ => trivial⟩
  have hkept : KeysKept s := runEvents_invariant (I := KeysKept) (fun s e h he => h.step he) hstart hadmits
  by_contra hafter
  have hmem : press ∈ unreleased s.sent := by
    rw [hsent]
    refine mem_unreleased hpresses fun release hmem => ?_
    exact Bool.eq_false_iff.mpr fun hreleases => hafter ⟨release, hmem, hreleases⟩
  exact hkept.released hsettled howner press hmem hsession

/-- Map mode with a Windows peer, for which the left Alt key has the number 56. -/
def sampleAnswers : Answers :=
  { mode := .map
    peer := "windows"
    isWin := true
    linuxCodeToWinScancode := fun code => if code = 64 then some 56 else none }

/-- The left Alt key. -/
def altPress : Event := { eventType := .keyPress .alt, positionCode := 64, platformCode := 0xFFE9, unicode := none }

/-- A slot goes on so many times. -/
def advances (slot count : ℕ) : List (Action × ℕ) := List.replicate count (.advance slot 0 sampleAnswers, 0)

/-- A session enters, a key is pressed, and the session leaves after the debounce time. -/
def pressAndLeave : List (Action × ℕ) :=
  [(.call 0 .run 1, 0)] ++ advances 0 2 ++ [(.key 1 altPress, 0)] ++ advances 1 6 ++
    [(.call 0 .wait 1, 300000000)] ++ advances 0 19

open Desk in
/-- The second stroke for the key included, all that was pressed is released. -/
theorem keys_released_without_grab_alt :
    let s := run pressAndLeave
    s.Settled ∧ s.gs.owner = none ∧ s.sent.map (·.message.down) = [true, false, true, false] ∧
      ∀ press before after, s.sent = before ++ press :: after → press.session = 1 → pressesKey press.message = true →
        ∃ release ∈ after, release.releases press = true := by
  have hadmits : RunMeets Desk.step Desk.Admits {} pressAndLeave := by
    refine ⟨fun _ => .inr (.inl rfl), trivial, trivial, trivial, ?_⟩
    -- the key is pressed
    refine ⟨trivial, trivial, fun _ => .inl nofun, nofun, ⟨fun _ => .inl (by decide), rfl⟩, trivial, ?_⟩
    refine ⟨trivial, trivial, trivial, trivial, ?_⟩
    -- its release, the second stroke and its release
    refine ⟨trivial, trivial, nofun, nofun, ⟨nofun, rfl⟩, ?_⟩
    refine ⟨trivial, trivial, fun _ => .inr (.inl (by decide)), nofun, ⟨fun _ => .inl (by decide), rfl⟩, ?_⟩
    exact ⟨trivial, trivial, nofun, nofun, ⟨nofun, rfl⟩, trivial, trivial⟩
  have hsettled : (run pressAndLeave).Settled := by
    intro slot
    match slot with
    | 0 | 1 | _ + 2 => exact .inl rfl
  exact ⟨hsettled, rfl, by decide, keys_released_without_grab pressAndLeave hadmits hsettled 1 (by decide)⟩

/-- A session enters, a key is pressed, and another session enters. -/
def pressAndHandOver : List (Action × ℕ) :=
  [(.call 0 .run 1, 0)] ++ advances 0 2 ++ [(.key 1 altPress, 0)] ++ advances 1 6 ++ [(.call 0 .run 2, 0)] ++
    advances 0 3

open Desk in
/-- The key of a session that hands the grab over stays down at its peer. -/
theorem key_stuck_after_hand_over :
    ¬ ∀ events, let s := run events
      s.Settled → ∀ session, s.gs.owner ≠ some session → ∀ press before after, s.sent = before ++ press :: after →
        press.session = session → pressesKey press.message = true →
          ∃ release ∈ after, release.releases press = true := by
  intro hall
  have hsettled : (run pressAndHandOver).Settled := by
    intro slot
    match slot with
    | 0 | 1 | _ + 2 => exact .inl rfl
  obtain ⟨release, hmem, -⟩ := hall pressAndHandOver hsettled 1 (by decide) _ [] [] rfl rfl rfl
  exact absurd hmem not_mem_nil

end UnyDesk.Keyboard
