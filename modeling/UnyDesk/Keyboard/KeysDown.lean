import UnyDesk.Keyboard.Injection

/-!
# The keys that are left when control ends

When control ends the entries of `KEYS_DOWN` are released without a look at their times. A key that is pressed then is
released exactly when an entry stands for it. The paths that press a key write the entry first, but not all of them do,
and a key up event can remove an entry and leave the key pressed.
-/

namespace UnyDesk.Keyboard.Injection

open Lib List KeysDown Option Entries Finset

variable {P : Type*}

section Specification

variable (d : Desktop P)

/-- The key of the keyboard that is released for an entry. -/
def KeysDown.place : KeysDown → Option P
  | .rdevKey rawKey => some (d.place (.rdev (.rawKey rawKey)))
  | .enigoKey key => (recordKeyToKey key).map fun key => d.place (.enigo key)

def Covers (keysDown : List (KeysDown × ℕ)) (p : P) : Prop := ∃ entry ∈ keysDown, entry.1.place d = some p

/-- An entry stands for each key that is pressed, except for some keys. -/
def Covered (keys : List Key) (s : State P) : Prop :=
  ∀ p ∈ s.pressed, Covers d s.keysDown p ∨ ∃ key ∈ keys, d.place (.enigo key) = p

variable [DecidableEq P] (a : Answers P)

/-- The keys that a key event presses without an entry for them and leaves pressed. -/
def unrecordedKeys (evt : KeyEvent) (s : State P) : List SimKey :=
  match evt.mode, evt.union with
  | some .map, _ => if d.platform.isWayland && evt.down then [.enigo (.raw evt.chr.toUInt16)] else []
  | some .translate, some (.chr chr) =>
    if d.platform.isWayland && evt.down then [.enigo (.raw chr.toUInt16)] else []
  | some .translate, some (.win2winHotkey code) =>
    if d.platform = .windows ∧ evt.down ∧ !a.unicodeTyped then
      [.rdev (.rawKey (.scanCode (d.vkToScancode (code >>> 16).toUInt16)))]
    else []
  | some .translate, _ => []
  | _, _ => if isFunctionKey evt then (syncModifiers d a evt s).2.map .enigo else []

/-- The entry that a key up event in legacy mode removes without a release of its key. -/
def removedEntry (evt : KeyEvent) (s : State P) : Option KeysDown :=
  match evt.union with
  | some (.controlKey ck) => if controlKeyValueToKey ck = none then some (.enigoKey (asU64 ck)) else none
  | some (.chr chr) =>
    let entry := KeysDown.enigoKey (chr.toNat + keyCharStart)
    if d.platform = .uinput ∧ !isHotkeyModifierPressed a (shiftReleased d a s) then
      if (charFromU32 chr.toNat).any isAsciiPrintable then none else some entry
    else if d.platform = .windows ∧ !evt.hasHotkeyModifiers then some entry
    else none
  | _ => none

/-- The entry is not the only one for a key that is pressed. -/
def RemovesSpare (evt : KeyEvent) (s : State P) : Prop :=
  ∀ entry ∈ removedEntry d a evt s, ∀ p ∈ s.pressed, entry.place d = some p → Covers d (erase entry s.keysDown) p

/-- What a key event presses without an entry has one already. -/
structure FitsKey (evt : KeyEvent) (s : State P) : Prop where
  pressed : ∀ key ∈ unrecordedKeys d a evt s, Covers d s.keysDown (d.place key)
  removed : evt.mode ≠ some .map → evt.mode ≠ some .translate → evt.down = false → RemovesSpare d a evt s

/-- The condition for a key event is about the state in which the lock keys have been handled. -/
def Fits (s : State P) : Event P → Prop
  | .key evt answers => FitsKey d answers evt (lockModesHandler d answers evt s).2
  | .pointer (.scaleUpdate scale) =>
    d.platform = .windows → scale ≠ 0 → Covers d s.keysDown (d.place (.enigo .control))
  | _ => True

end Specification

section Shrinking

/-- Nothing is pressed that was not pressed before, and the entries are the same. -/
structure Shrinks (s s' : State P) : Prop where
  pressed : s'.pressed ⊆ s.pressed
  keysDown : s'.keysDown = s.keysDown

theorem Shrinks.refl (s : State P) : Shrinks s s := ⟨Finset.Subset.refl _, rfl⟩

theorem Shrinks.trans {s s' s'' : State P} (h : Shrinks s s') (h' : Shrinks s' s'') : Shrinks s s'' :=
  ⟨h'.pressed.trans h.pressed, h'.keysDown.trans h.keysDown⟩

theorem Shrinks.foldl {A : Type*} {f : State P → A → State P} (hf : ∀ s x, Shrinks s (f s x)) (l : List A)
    (s : State P) :
    Shrinks s (l.foldl f s) := by
  induction l generalizing s with
  | nil => exact .refl s
  | cons x l ih => exact (hf s x).trans (ih (f s x))

variable (d : Desktop P) (a : Answers P)

theorem keySequence_shrinks (text : List Char) (s : State P) : Shrinks s (keySequence d text s) :=
  ⟨d.typed_subset text s.pressed, rfl⟩

variable [DecidableEq P]

theorem release_shrinks (key : SimKey) (s : State P) : Shrinks s (release d key s) := ⟨erase_subset _ _, rfl⟩

theorem simulate_up_shrinks (key : RdevKey) (s : State P) : Shrinks s (simulate d key false s) := release_shrinks d _ s

theorem keyUp_shrinks (key : Key) (s : State P) : Shrinks s (keyUp d key s) := release_shrinks d _ s

theorem releaseRecordKey_shrinks (record : KeysDown) (s : State P) : Shrinks s (releaseRecordKey d record s) := by
  cases record with
  | rdevKey rawKey => exact simulate_up_shrinks d (.rawKey rawKey) s
  | enigoKey recordKey =>
    unfold releaseRecordKey
    dsimp only
    split
    · exact keyUp_shrinks d _ s
    · exact .refl s

/-- What is pressed and then released at once, with more in between that keeps what was pressed. -/
theorem pressed_between {key : Key} {s s' : State P} (h : Shrinks (keyDown d key s) s') :
    Shrinks s (keyUp d key s') := by
  refine ⟨fun p hp => ?_, h.keysDown⟩
  obtain ⟨hne, hp⟩ := mem_erase.mp hp
  exact (mem_insert.mp (h.pressed hp)).resolve_left hne

theorem keyClick_shrinks (key : Key) (s : State P) : Shrinks s (keyClick d key s) := pressed_between d (.refl _)

theorem clickIf_shrinks (changed : Bool) (key : Key) (s : State P) : Shrinks s (clickIf d changed key s) := by
  cases changed with
  | true => exact keyClick_shrinks d key s
  | false => exact .refl s

theorem clickLetters_shrinks (seq : List Char) (s : State P) : Shrinks s (clickLetters d seq s) :=
  Shrinks.foldl (fun s chr => keyClick_shrinks d (.layout chr) s) seq s

theorem inputTextViaClipboardServer_shrinks (text : List Char) (s : State P) :
    Shrinks s (inputTextViaClipboardServer d a text s) := by
  unfold inputTextViaClipboardServer
  split
  · exact .refl s
  · exact pressed_between d (keyClick_shrinks d (.raw xkbKeyInsert) _)

theorem fixModifier_shrinks (modifiers : List ℤ) (key0 : ControlKey) (key1 : Key) (s : State P) :
    Shrinks s (fixModifier d a modifiers key0 key1 s) := by
  unfold fixModifier
  split
  · split
    · exact .refl s
    · exact keyUp_shrinks d key1 s
  · exact .refl s

theorem fixModifiers_shrinks (modifiers : List ℤ) (ck : ℤ) (s : State P) :
    Shrinks s (fixModifiers d a modifiers ck s) := by
  apply Shrinks.foldl
  intro s entry
  split
  · exact fixModifier_shrinks d a modifiers entry.2.1 entry.2.2 s
  · exact .refl s

theorem releaseShift_shrinks (key : Key) (rdevKey : RdevKey) (s : State P) :
    Shrinks s (releaseShift d a key rdevKey s) := by
  unfold releaseShift
  split
  · split
    · exact keyUp_shrinks d key s
    · exact simulate_up_shrinks d rdevKey s
  · exact .refl s

theorem releaseShifts_shrinks (s : State P) :
    Shrinks s (releaseShift d a .rightShift .shiftRight (releaseShift d a .shift .shiftLeft s)) :=
  (releaseShift_shrinks d a .shift .shiftLeft s).trans (releaseShift_shrinks d a .rightShift .shiftRight _)

theorem releaseShiftForCharInput_shrinks (s : State P) : Shrinks s (releaseShiftForCharInput d a s) := by
  unfold releaseShiftForCharInput
  split
  · exact .refl s
  · exact releaseShifts_shrinks d a s

theorem shiftReleased_shrinks (s : State P) : Shrinks s (shiftReleased d a s) := by
  unfold shiftReleased
  split
  · exact releaseShiftForCharInput_shrinks d a s
  · exact .refl s

theorem processUnicode_shrinks (chr : ℕ) (s : State P) : Shrinks s (processUnicode d a chr s) := by
  unfold processUnicode
  split
  · split
    · exact inputTextViaClipboardServer_shrinks d a _ s
    · exact keySequence_shrinks d _ s
  · exact .refl s

theorem processSeq_shrinks (sequence : List Char) (s : State P) : Shrinks s (processSeq d a sequence s) := by
  unfold processSeq
  split
  · exact inputTextViaClipboardServer_shrinks d a sequence s
  · exact keySequence_shrinks d sequence s

theorem translateSeq_shrinks (seq : List Char) (s : State P) : Shrinks s (translateSeq d a seq s) := by
  have hshift := releaseShiftForCharInput_shrinks d a s
  unfold translateSeq
  split
  case h_1 => exact hshift.trans (keySequence_shrinks d seq _)
  case h_2 =>
    split
    · exact clickLetters_shrinks d seq s
    · dsimp only
      split
      · exact hshift.trans (keySequence_shrinks d seq _)
      · exact hshift.trans (inputTextViaClipboardServer_shrinks d a seq _)
  case h_3 => exact hshift.trans (clickLetters_shrinks d seq _)
  case h_4 =>
    have htyped := fun s => Shrinks.foldl (fun s chr => keySequence_shrinks d [chr] s) seq s
    dsimp only
    split
    · exact htyped s
    · exact (releaseShifts_shrinks d a s).trans (htyped _)

theorem lockModesHandler_shrinks (evt : KeyEvent) (s : State P) : Shrinks s (lockModesHandler d a evt s).2 := by
  unfold lockModesHandler
  split
  · exact (clickIf_shrinks d _ .capsLock s).trans (clickIf_shrinks d _ .numLock _)
  · exact .refl s

theorem drop_shrinks (handler : LockModesHandler) (s : State P) : Shrinks s (handler.drop d s) := by
  unfold LockModesHandler.drop
  split
  · exact .refl s
  · exact (clickIf_shrinks d _ .capsLock s).trans (clickIf_shrinks d _ .numLock _)

end Shrinking

section Entries

variable {d : Desktop P} {keys : List Key} {s : State P} {record : KeysDown} {key : SimKey} {p : P}
  {keysDown : List (KeysDown × ℕ)}

theorem Covers.insert (h : Covers d keysDown p) (now : ℕ) : Covers d (insert record now keysDown) p := by
  obtain ⟨entry, hentry, hplace⟩ := h
  by_cases heq : entry.1 = record
  · exact ⟨(record, now), mem_append_right _ mem_cons_self, heq ▸ hplace⟩
  · exact ⟨entry, mem_append_left _ (mem_filter.mpr ⟨hentry, decide_eq_true heq⟩), hplace⟩

theorem Covers.erase (h : Covers d keysDown p) (hne : record.place d ≠ some p) :
    Covers d (erase record keysDown) p := by
  obtain ⟨entry, hentry, hplace⟩ := h
  have hrecord : entry.1 ≠ record := fun heq => hne (heq ▸ hplace)
  exact ⟨entry, mem_filter.mpr ⟨hentry, decide_eq_true hrecord⟩, hplace⟩

theorem Covered.shrinks {s' : State P} (h : Covered d keys s) (hs : Shrinks s s') : Covered d keys s' := by
  intro p hp
  rw [hs.keysDown]
  exact h p (hs.pressed hp)

theorem Covered.addEntry (h : Covered d keys s) : Covered d keys (recordPressedKey record true s) :=
  fun p hp => (h p hp).imp_left fun hcovers => hcovers.insert s.now

variable [DecidableEq P]

section Recorded

variable (h : Covered d keys s)
include h

theorem Covered.pressed (hkey : Covers d s.keysDown (d.place key)) : Covered d keys (press d key s) := by
  intro p hp
  rcases mem_insert.mp hp with rfl | hp
  · exact .inl hkey
  · exact h p hp

/-- An entry can go when its key is not pressed or has another one. -/
theorem Covered.removeEntry (hother : ∀ p ∈ s.pressed, record.place d = some p → Covers d (erase record s.keysDown) p) :
    Covered d keys (recordPressedKey record false s) := by
  intro p hp
  by_cases hplace : record.place d = some p
  · exact .inl (hother p hp hplace)
  · exact (h p hp).imp_left fun hcovers => hcovers.erase hplace

theorem Covered.pressRecorded (hplace : record.place d = some (d.place key)) :
    Covered d keys (press d key (recordPressedKey record true s)) :=
  h.addEntry.pressed ⟨(record, s.now), mem_append_right _ mem_cons_self, hplace⟩

theorem Covered.releaseRecorded (hplace : record.place d = some (d.place key)) :
    Covered d keys (release d key (recordPressedKey record false s)) := by
  intro p hp
  obtain ⟨hne, hp⟩ := mem_erase.mp hp
  refine (h p hp).imp_left fun hcovers => hcovers.erase ?_
  rw [hplace]
  exact fun heq => hne (some.inj heq).symm

theorem Covered.simulateRecorded (rawKey : RawKey) (down : Bool) :
    Covered d keys (simulate d (.rawKey rawKey) down (recordPressedKey (.rdevKey rawKey) down s)) := by
  cases down with
  | true => exact h.pressRecorded rfl
  | false => exact h.releaseRecorded rfl

end Recorded

/-- An entry is removed and what it stands for is released. -/
theorem Covered.recordKeyReleased (h : Covered d [] s) (record : KeysDown) :
    Covered d [] (releaseRecordKey d record (recordPressedKey record false s)) := by
  cases record with
  | rdevKey rawKey => exact h.releaseRecorded rfl
  | enigoKey recordKey =>
    unfold releaseRecordKey
    dsimp only
    cases hkey : recordKeyToKey recordKey with
    | some key => exact h.releaseRecorded (by rw [place, hkey, map_some])
    | none =>
      refine h.removeEntry fun p _ hplace => ?_
      rw [place, hkey] at hplace
      cases hplace

end Entries

section Timeout

variable [DecidableEq P] {d : Desktop P} {s : State P}

theorem Covered.timedOut (h : Covered d [] s) (force : Bool) : Covered d [] (fixKeyDownTimeout d force s) := by
  unfold fixKeyDownTimeout
  generalize s.keysDown = entries
  induction entries generalizing s with
  | nil => exact h
  | cons entry entries ih =>
    rw [foldl_cons]
    split
    · exact ih (h.recordKeyReleased entry.1)
    · exact ih h

/-- Every entry is gone. -/
theorem fixKeyDownTimeout_force : (fixKeyDownTimeout d true s).keysDown = [] := by
  let release (s : State P) (entry : KeysDown × ℕ) := releaseRecordKey d entry.1 (recordPressedKey entry.1 false s)
  have hleft (entries : List (KeysDown × ℕ)) : ∀ s : State P, (∀ entry ∈ s.keysDown, entry ∈ entries) →
      (entries.foldl release s).keysDown = [] := by
    induction entries with
    | nil => exact fun s h => eq_nil_iff_forall_not_mem.mpr fun entry hentry => by simpa using h entry hentry
    | cons entry entries ih =>
      intro s h
      refine ih _ fun other hother => ?_
      rw [(releaseRecordKey_shrinks d entry.1 _).keysDown] at hother
      obtain ⟨hmem, hne⟩ := mem_filter.mp hother
      refine (mem_cons.mp (h other hmem)).resolve_left fun heq => ?_
      exact of_decide_eq_true hne (congrArg Prod.fst heq)
  exact hleft s.keysDown s fun entry hentry => hentry

theorem Covered.pressed_force (h : Covered d [] s) : (fixKeyDownTimeout d true s).pressed = ∅ := by
  refine eq_empty_of_forall_notMem fun p hp => ?_
  rcases h.timedOut true p hp with ⟨entry, hentry, -⟩ | ⟨key, hkey, -⟩
  · rw [fixKeyDownTimeout_force] at hentry
    cases hentry
  · cases hkey

end Timeout

section Modifiers

variable [DecidableEq P] {d : Desktop P} {a : Answers P} {s : State P}

/-- What is pressed for a modifier is among the keys that are to be released. -/
theorem Covered.modifierPressed {t : State P × List Key} (h : Covered d t.2 t.1) (ck : ℤ) :
    Covered d (pressModifier d a ck t).2 (pressModifier d a ck t).1 := by
  unfold pressModifier
  split
  · exact h
  · split_ifs
    · exact h
    · exact h
    · intro p hp
      rcases mem_insert.mp hp with rfl | hp
      · exact .inr ⟨_, mem_append_right _ mem_cons_self, rfl⟩
      · exact (h p hp).imp_right fun ⟨key, hkey, heq⟩ => ⟨key, mem_append_left _ hkey, heq⟩

theorem pressModifier_keysDown (ck : ℤ) (t : State P × List Key) :
    (pressModifier d a ck t).1.keysDown = t.1.keysDown := by
  unfold pressModifier
  split
  · rfl
  · split_ifs <;> rfl

theorem Covered.modifiersSynced (h : Covered d [] s) (evt : KeyEvent) :
    Covered d (syncModifiers d a evt s).2 (syncModifiers d a evt s).1 ∧
      (syncModifiers d a evt s).1.keysDown = s.keysDown := by
  unfold syncModifiers
  split
  · have hfixed := fixModifiers_shrinks d a evt.modifiers evt.getControlKeyValue s
    suffices hfold : ∀ (modifiers : List ℤ) (t : State P × List Key), Covered d t.2 t.1 → t.1.keysDown = s.keysDown →
        let pressed := modifiers.foldl (fun t ck => pressModifier d a ck t) t
        Covered d pressed.2 pressed.1 ∧ pressed.1.keysDown = s.keysDown from
      hfold evt.modifiers _ (h.shrinks hfixed) hfixed.keysDown
    intro modifiers
    induction modifiers with
    | nil => exact fun t ht hkeys => ⟨ht, hkeys⟩
    | cons ck modifiers ih =>
      exact fun t ht hkeys => ih _ (ht.modifierPressed ck) ((pressModifier_keysDown ck t).trans hkeys)
  · exact ⟨h, rfl⟩

theorem Covered.keysReleased {keys : List Key} (h : Covered d keys s) : Covered d [] (releaseKeys d keys s) := by
  induction keys generalizing s with
  | nil => exact h
  | cons key keys ih =>
    refine ih fun p hp => ?_
    obtain ⟨hne, hp⟩ := mem_erase.mp hp
    refine (h p hp).imp_right fun ⟨other, hother, heq⟩ => ⟨other, ?_, heq⟩
    refine (mem_cons.mp hother).resolve_left fun hsame => hne ?_
    rw [← heq, hsame]

end Modifiers

section Legacy

variable {d : Desktop P}

theorem place_chr (chr : UInt32) :
    (KeysDown.enigoKey (chr.toNat + keyCharStart)).place d = some (d.place (.enigo (charValueToKey chr.toNat))) := by
  have hsize : chr.toNat < 2 ^ 32 := chr.toNat_lt
  rw [place, recordKeyToKey, if_neg (by omega), Nat.add_sub_cancel, Nat.mod_eq_of_lt hsize, map_some]

/-- The numbers of the control keys are below those of the letters, so an entry is read back as the key. -/
theorem recordKeyToKey_asU64 {ck : ℤ} {key : Key} (h : controlKeyValueToKey ck = some key) :
    recordKeyToKey (asU64 ck) = some key := by
  have hlt : ∀ entry ∈ keyMap, 0 ≤ entry.1.value ∧ entry.1.value < 9999 := by decide
  obtain ⟨entry, hentry, -⟩ := map_eq_some_iff.mp h
  have hvalue : entry.1.value = ck := by simpa using find?_some hentry
  obtain ⟨hnonneg, hsmall⟩ := hvalue ▸ hlt entry (mem_of_find?_eq_some hentry)
  have hnat : (asU64 ck : ℤ) = ck := by
    unfold asU64
    omega
  have hback : asI32 (asU64 ck) = ck := by
    unfold asI32
    rw [hnat]
    exact Int.bmod_eq_of_le_mul_two (by omega) (by omega)
  rw [recordKeyToKey, keyCharStart, if_pos (by omega), hback, h]

theorem charValueToKey_of_some {chr : ℕ} {c : Char} (h : charFromU32 chr = some c) :
    charValueToKey chr = .layout c := by
  rw [charValueToKey, h]
  rfl

variable [DecidableEq P] {a : Answers P} {keys : List Key} {s : State P}

section Letters

variable (h : Covered d keys s) {evt : KeyEvent}
include h

/-- What is pressed for a letter is the key of its entry. -/
theorem Covered.processChr_down {record : KeysDown} {chr : ℕ}
    (hplace : record.place d = some (d.place (.enigo (charValueToKey chr)))) (hotkey : Bool) :
    Covered d keys (processChr d a chr true hotkey (recordPressedKey record true s)) := by
  unfold processChr
  split
  · split
    · rename_i c hc
      rw [charValueToKey_of_some hc] at hplace
      split
      · exact h.pressRecorded hplace
      · exact h.addEntry.shrinks (inputTextViaClipboardServer_shrinks d a [c] _)
    · exact h.addEntry
  · split
    · split
      · exact h.addEntry.shrinks (keySequence_shrinks d _ _)
      · exact h.addEntry
    · exact h.pressRecorded hplace

/-- What a key up event does with the entry of a letter. -/
theorem Covered.processChr_up {chr : UInt32} (hchr : evt.union = some (.chr chr)) (hremoved : RemovesSpare d a evt s) :
    Covered d keys (processChr d a chr.toNat false evt.hasHotkeyModifiers
      (recordPressedKey (.enigoKey (chr.toNat + keyCharStart)) false (shiftReleased d a s))) := by
  have hplace := place_chr (d := d) chr
  unfold RemovesSpare removedEntry at hremoved
  rw [hchr] at hremoved
  dsimp only at hremoved
  generalize enigoKey (chr.toNat + keyCharStart) = record at hplace hremoved ⊢
  have hshift := shiftReleased_shrinks d a s
  have hreleased := (h.shrinks hshift).releaseRecorded hplace
  have hleft (hrecord : ∀ entry ∈ some record, ∀ p ∈ s.pressed, entry.place d = some p →
      Covers d (erase entry s.keysDown) p) :
      Covered d keys (recordPressedKey record false (shiftReleased d a s)) := by
    refine (h.shrinks hshift).removeEntry fun p hp hat => ?_
    rw [hshift.keysDown]
    exact hrecord record rfl p (hshift.pressed hp) hat
  have hhotkey : isHotkeyModifierPressed a (recordPressedKey record false (shiftReleased d a s)) =
      isHotkeyModifierPressed a (shiftReleased d a s) := rfl
  unfold processChr
  rw [hhotkey]
  simp only [Bool.false_eq_true, if_false]
  split_ifs at hremoved ⊢ with huinput hascii hwindows
  · cases hc : charFromU32 chr.toNat with
    | none =>
      rw [hc] at hascii
      cases hascii
    | some c =>
      rw [hc, any_some] at hascii
      rw [charValueToKey_of_some hc] at hreleased
      dsimp only
      rw [if_pos hascii]
      exact hreleased
  · cases hc : charFromU32 chr.toNat with
    | none => exact hleft hremoved
    | some c =>
      rw [hc, any_some] at hascii
      dsimp only
      rw [if_neg hascii]
      exact hleft hremoved
  · split
    · exact hleft hremoved
    · exact hleft hremoved
  · exact hreleased

theorem Covered.processControlKey_down (ck : ℤ) :
    Covered d keys (processControlKey d ck true (recordPressedKey (.enigoKey (asU64 ck)) true s)) := by
  unfold processControlKey
  split
  · rename_i key hkey
    exact h.pressRecorded (by rw [place, recordKeyToKey_asU64 hkey, map_some])
  · exact h.addEntry

theorem Covered.processControlKey_up {ck : ℤ} (hck : evt.union = some (.controlKey ck))
    (hremoved : RemovesSpare d a evt s) :
    Covered d keys (processControlKey d ck false (recordPressedKey (.enigoKey (asU64 ck)) false s)) := by
  unfold processControlKey
  split
  · rename_i key hkey
    exact h.releaseRecorded (by rw [place, recordKeyToKey_asU64 hkey, map_some])
  · rename_i hkey
    apply h.removeEntry
    unfold RemovesSpare removedEntry at hremoved
    rw [hck] at hremoved
    exact hremoved _ (if_pos hkey)

/-- The modifiers are pressed around it. -/
theorem Covered.legacyInjected (hremoved : evt.down = false → RemovesSpare d a evt s) :
    Covered d keys (legacyInput d a evt s) := by
  unfold legacyInput
  split
  · rename_i ck hck
    cases hdown : evt.down with
    | true => exact h.processControlKey_down ck
    | false => exact h.processControlKey_up hck (hremoved hdown)
  · rename_i chr hchr
    cases hdown : evt.down with
    | true => exact (h.shrinks (shiftReleased_shrinks d a s)).processChr_down (place_chr chr) evt.hasHotkeyModifiers
    | false => exact h.processChr_up hchr (hremoved hdown)
  · exact h.shrinks ((shiftReleased_shrinks d a s).trans (processUnicode_shrinks d a _ _))
  · exact h.shrinks (processSeq_shrinks d a _ s)
  · exact h

end Letters

end Legacy

section Steps

variable [DecidableEq P] {d : Desktop P} {a : Answers P} {evt : KeyEvent} {s : State P}

section Covered

variable (h : Covered d [] s)
include h

namespace Covered

theorem legacyMode
    (hpressed : isFunctionKey evt → ∀ key ∈ (syncModifiers d a evt s).2, Covers d s.keysDown (d.place (.enigo key)))
    (hremoved : evt.down = false → RemovesSpare d a evt s) :
    Covered d [] (legacyKeyboardMode d a evt s) := by
  obtain ⟨hsynced, hkeysDown⟩ := h.modifiersSynced (a := a) evt
  unfold legacyKeyboardMode
  dsimp only
  split
  case isTrue hfunction =>
    intro p hp
    rcases hsynced p hp with hcovers | ⟨key, hkey, rfl⟩
    · exact .inl hcovers
    · rw [hkeysDown]
      exact .inl (hpressed hfunction key hkey)
  case isFalse =>
    apply keysReleased
    refine hsynced.legacyInjected fun hdown => ?_
    have hup : syncModifiers d a evt s = (s, []) := if_neg (ne_true_of_eq_false hdown)
    rw [hup]
    exact hremoved hdown

theorem rawKeySent (code : UInt16) (down : Bool)
    (hpressed : down → Covers d s.keysDown (d.place (.enigo (.raw code)))) :
    Covered d [] (waylandSendRawKey d code down s) := by
  cases down with
  | true => exact h.pressed (hpressed rfl)
  | false => exact h.shrinks (keyUp_shrinks d (.raw code) s)

theorem mapMode
    (hpressed : d.platform.isWayland && evt.down → Covers d s.keysDown (d.place (.enigo (.raw evt.chr.toUInt16)))) :
    Covered d [] (mapKeyboardMode d evt s) := by
  unfold mapKeyboardMode
  split
  case isTrue hwayland =>
    exact h.rawKeySent _ evt.down fun hdown => hpressed (Bool.and_eq_true_iff.mpr ⟨hwayland, hdown⟩)
  case isFalse => exact h.simulateRecorded _ evt.down

theorem win2winHotkey (code : UInt32) (down : Bool) (hpressed : down ∧ !a.unicodeTyped → Covers d s.keysDown
      (d.place (.rdev (.rawKey (.scanCode (d.vkToScancode (code >>> 16).toUInt16)))))) :
    Covered d [] (simulateWin2winHotkey d a code down s) := by
  unfold simulateWin2winHotkey
  split
  case isTrue => exact h.shrinks (keySequence_shrinks d _ s)
  case isFalse htyped =>
    cases down with
    | true => exact h.pressed (hpressed ⟨rfl, by simpa using htyped⟩)
    | false => exact h.shrinks (simulate_up_shrinks d _ s)

theorem translateMode (hmode : evt.mode = some .translate)
    (hpressed : ∀ key ∈ unrecordedKeys d a evt s, Covers d s.keysDown (d.place key)) :
    Covered d [] (translateKeyboardMode d a evt s) := by
  unfold unrecordedKeys at hpressed
  rw [hmode] at hpressed
  unfold translateKeyboardMode
  split
  case h_1 seq _ => exact h.shrinks (translateSeq_shrinks d a seq s)
  case h_2 chr hchr =>
    rw [hchr] at hpressed
    have hraw (hwayland : d.platform.isWayland) : Covered d [] (waylandSendRawKey d chr.toUInt16 evt.down s) := by
      refine h.rawKeySent _ evt.down fun hdown => hpressed _ ?_
      dsimp only
      rw [if_pos (Bool.and_eq_true_iff.mpr ⟨hwayland, hdown⟩)]
      exact mem_cons_self
    cases hplatform : d.platform with
    | windows =>
      dsimp only
      unfold translateProcessCode
      split
      · exact h.simulateRecorded _ evt.down
      · exact h.simulateRecorded _ evt.down
    | x11 => exact h.simulateRecorded _ evt.down
    | uinput => exact hraw (by rw [hplatform]; rfl)
    | rdpInput => exact hraw (by rw [hplatform]; rfl)
  case h_3 code hcode =>
    rw [hcode] at hpressed
    split
    case isTrue hwindows =>
      refine h.win2winHotkey code evt.down fun htyped => hpressed _ ?_
      dsimp only
      rw [if_pos ⟨hwindows, htyped⟩]
      exact mem_cons_self
    case isFalse => exact h
  case h_4 => exact h

theorem dispatched (hfits : FitsKey d a evt s) : Covered d [] (dispatchKey d a evt s) := by
  have hlegacy (hmap : evt.mode ≠ some .map) (htranslate : evt.mode ≠ some .translate) :
      Covered d [] (legacyKeyboardMode d a evt s) := by
    refine h.legacyMode (fun hfunction key hkey => hfits.pressed _ ?_) (hfits.removed hmap htranslate)
    unfold unrecordedKeys
    split
    · contradiction
    · contradiction
    · contradiction
    · contradiction
    · rw [if_pos hfunction]
      exact mem_map_of_mem hkey
  unfold dispatchKey
  split
  case h_1 hmode =>
    refine h.mapMode fun hdown => hfits.pressed _ ?_
    unfold unrecordedKeys
    rw [hmode, if_pos hdown]
    exact mem_cons_self
  case h_2 hmode => exact h.translateMode hmode hfits.pressed
  case h_3 hmap htranslate => exact hlegacy hmap htranslate

theorem stepped {event : Event P} (hfits : Fits d s event) : Covered d [] (step d s event) := by
  cases event with
  | key evt answers =>
    have hlocked := h.shrinks (lockModesHandler_shrinks d answers evt s)
    exact (hlocked.dispatched hfits).shrinks (drop_shrinks d _ _)
  | pointer evt =>
    cases evt with
    | scaleUpdate scale =>
      change Covered d [] (if d.platform = .windows then handleScale d scale s else s)
      split
      case isTrue hwindows =>
        unfold handleScale
        split
        case isTrue => exact h.shrinks (keyUp_shrinks d .control s)
        case isFalse hscale => exact h.pressed (hfits hwindows hscale)
      case isFalse => exact h
    | _ => exact h
  | timeout => exact h.timedOut false
  | pass => exact h

end Covered

end Covered

/-- When the keys are reset after any events of a run, none is pressed any more. -/
theorem released_at_end (d : Desktop P) (run : List (Event P)) (h : RunMeets (step d) (Fits d) {} run)
    (before after : List (Event P)) (hrun : run = before ++ after) :
    (fixKeyDownTimeout d true (runEvents (step d) {} before)).pressed = ∅ := by
  have hbefore := (runMeets_append.mp (hrun ▸ h)).1
  have hstart : Covered d [] ({} : State P) := fun p hp => absurd hp (notMem_empty p)
  have hstep : ∀ s e, Covered d [] s → Fits d s e → Covered d [] (step d s e) := fun s e hs hfits => hs.stepped hfits
  exact (runEvents_invariant hstep hstart hbefore).pressed_force

end Steps

section Samples

/-- A keyboard on which nothing is pressed but for the peers. -/
def desktop (platform : Platform) : Desktop SimKey where
  platform := platform
  place := id
  typed := fun _ keys => keys
  typed_subset := fun _ _ => Finset.Subset.refl _
  keycodeToRdevKey := fun _ => .other
  vkToScancode := fun _ => 0

def answers : Answers SimKey where
  keyState := fun pressed key => .enigo key ∈ pressed

def pressKey (code : UInt32) : Event SimKey :=
  .key { down := true, union := some (.chr code), mode := some .map } answers

/-- Control and the letter a, which are held when the events end. -/
def shortcut : List (Event SimKey) := [pressKey 37, .pass 1000000, pressKey 38]

theorem released_at_end_shortcut :
    (fixKeyDownTimeout (desktop .x11) true (runEvents (step (desktop .x11)) {} shortcut)).pressed = ∅ := by
  have hfits (code : UInt32) (s : State SimKey) : Fits (desktop .x11) s (pressKey code) :=
    ⟨nofun, fun hmap => absurd rfl hmap⟩
  exact released_at_end (desktop .x11) shortcut ⟨hfits 37 _, trivial, hfits 38 _, trivial⟩ shortcut []
    (List.append_nil _).symm

/-- A gesture on Windows whose end is missing. -/
theorem not_released_at_end_gesture : ¬ ∀ (d : Desktop SimKey) (run : List (Event SimKey)),
    (fixKeyDownTimeout d true (runEvents (step d) {} run)).pressed = ∅ := by
  intro h
  exact absurd (h (desktop .windows) [.pointer (.scaleUpdate 1)]) (by decide)

end Samples

end UnyDesk.Keyboard.Injection
