import UnyDesk.Keyboard.Injection

/-!
# What a local key is sent as

On Linux a local key event makes at most one event for the peer. That names the key by its number on the keyboard of the
peer, or in legacy mode by a control key or a character. In translate mode a key may make a text instead, in legacy mode a
command. Whatever the mode, only the press of a local key presses a key of the peer.
-/

namespace UnyDesk.Keyboard

open Option Except

open Injection (ControlKey KeyEvent KeyboardMode Union)

/-- `rdev::Key` -/
inductive Key
  | alt | altGr | backspace | capsLock | controlLeft | controlRight | delete | downArrow | endKey | escape
  | f1 | f10 | f11 | f12 | f2 | f3 | f4 | f5 | f6 | f7 | f8 | f9 | home | leftArrow | metaLeft | metaRight | pageDown | pageUp
  | returnKey | rightArrow | shiftLeft | shiftRight | space | tab | upArrow | printScreen | scrollLock | pause | numLock
  | backQuote | num1 | num2 | num3 | num4 | num5 | num6 | num7 | num8 | num9 | num0 | minus | equal
  | keyA | keyB | keyC | keyD | keyE | keyF | keyG | keyH | keyI | keyJ | keyK | keyL | keyM
  | keyN | keyO | keyP | keyQ | keyR | keyS | keyT | keyU | keyV | keyW | keyX | keyY | keyZ
  | leftBracket | rightBracket | semiColon | quote | backSlash | comma | dot | slash | insert
  | kpReturn | kpMinus | kpPlus | kpMultiply | kpDivide | kp0 | kp1 | kp2 | kp3 | kp4 | kp5 | kp6 | kp7 | kp8 | kp9 | kpDecimal
  | lang2 | apps | cancel | clear | kana | hangul | junja | final | hanja | hanji | print | select | execute | help | sleep
  | separator
  | other (code : ℕ)
deriving DecidableEq

inductive EventType
  | keyPress (key : Key)
  | keyRelease (key : Key)
deriving DecidableEq

structure UnicodeInfo where
  name : Option (List Char)
  isDead : Bool

structure Event where
  eventType : EventType
  positionCode : UInt32
  platformCode : UInt32
  unicode : Option UnicodeInfo

def EventType.key : EventType → Key
  | .keyPress key | .keyRelease key => key

def EventType.isPress : EventType → Bool
  | .keyPress _ => true
  | .keyRelease _ => false

def Event.key (event : Event) : Key := event.eventType.key

def Event.isPress (event : Event) : Bool := event.eventType.isPress

/-- What the system, `rdev` and the current session have to say about an event. -/
structure Answers where
  mode : KeyboardMode
  /-- `get_peer_platform` in lower case and without white space -/
  peer : String
  /-- `get_peer_platform() == "Windows"` -/
  isWin : Bool
  /-- The keys for which `get_key_state` is true. -/
  keysDown : List Injection.Key := []
  /-- `get_kb_layout_type() == "ISO"` -/
  isoLayout : Bool := false
  linuxCodeToWinScancode : UInt32 → Option UInt32 := some
  linuxCodeToMacosCode : UInt32 → Option UInt32 := some
  linuxCodeToMacosIsoCode : UInt32 → Option UInt32 := some
  linuxCodeToAndroidKeyCode : UInt32 → Option UInt32 := some
  allowSwapKey : Bool := false
  /-- The code of the key that a key of the peer is swapped with. -/
  swappedCode : UInt32 → UInt32 := id

section Tables

/-- The keys that legacy mode sends as control keys. -/
def controlKeys : List (Key × ControlKey) :=
  [(.alt, .alt), (.altGr, .rAlt), (.backspace, .backspace), (.controlLeft, .control), (.controlRight, .rControl),
   (.downArrow, .downArrow), (.escape, .escape), (.f1, .f1), (.f10, .f10), (.f11, .f11), (.f12, .f12), (.f2, .f2), (.f3, .f3),
   (.f4, .f4), (.f5, .f5), (.f6, .f6), (.f7, .f7), (.f8, .f8), (.f9, .f9), (.leftArrow, .leftArrow), (.metaLeft, .metaKey),
   (.metaRight, .rWin), (.returnKey, .returnKey), (.rightArrow, .rightArrow), (.shiftLeft, .shift), (.shiftRight, .rShift),
   (.space, .space), (.tab, .tab), (.upArrow, .upArrow), (.delete, .delete), (.apps, .apps), (.cancel, .cancel),
   (.clear, .clear), (.kana, .kana), (.hangul, .hangul), (.junja, .junja), (.final, .final), (.hanja, .hanja),
   (.hanji, .hanja), (.lang2, .convert), (.print, .print), (.select, .select), (.execute, .execute),
   (.printScreen, .snapshot), (.help, .help), (.sleep, .sleep), (.separator, .separator), (.kpReturn, .numpadEnter),
   (.kp0, .numpad0), (.kp1, .numpad1), (.kp2, .numpad2), (.kp3, .numpad3), (.kp4, .numpad4), (.kp5, .numpad5),
   (.kp6, .numpad6), (.kp7, .numpad7), (.kp8, .numpad8), (.kp9, .numpad9), (.kpDivide, .divide), (.kpMultiply, .multiply),
   (.kpDecimal, .decimal), (.kpMinus, .subtract), (.kpPlus, .add), (.home, .home), (.endKey, .endKey), (.insert, .insert),
   (.pageUp, .pageUp), (.pageDown, .pageDown), (.pause, .pause)]

/-- The characters of the other keys, where the system gives none. -/
def charKeys : List (Key × Char) :=
  [(.num1, '1'), (.num2, '2'), (.num3, '3'), (.num4, '4'), (.num5, '5'), (.num6, '6'), (.num7, '7'), (.num8, '8'),
   (.num9, '9'), (.num0, '0'), (.keyA, 'a'), (.keyB, 'b'), (.keyC, 'c'), (.keyD, 'd'), (.keyE, 'e'), (.keyF, 'f'), (.keyG, 'g'),
   (.keyH, 'h'), (.keyI, 'i'), (.keyJ, 'j'), (.keyK, 'k'), (.keyL, 'l'), (.keyM, 'm'), (.keyN, 'n'), (.keyO, 'o'), (.keyP, 'p'),
   (.keyQ, 'q'), (.keyR, 'r'), (.keyS, 's'), (.keyT, 't'), (.keyU, 'u'), (.keyV, 'v'), (.keyW, 'w'), (.keyX, 'x'), (.keyY, 'y'),
   (.keyZ, 'z'), (.comma, ','), (.dot, '.'), (.semiColon, ';'), (.quote, '\x27'), (.leftBracket, '['), (.rightBracket, ']'),
   (.slash, '/'), (.backSlash, '\\'), (.minus, '-'), (.equal, '='), (.backQuote, '\x60')]

/-- The numpad keys without `NumLock`. -/
def numpadKeys : List (Key × Key) :=
  [(.kp0, .insert), (.kpDecimal, .delete), (.kp1, .endKey), (.kp2, .downArrow), (.kp3, .pageDown), (.kp4, .leftArrow),
   (.kp5, .clear), (.kp6, .rightArrow), (.kp7, .home), (.kp8, .upArrow), (.kp9, .pageUp)]

def isNumpadRdevKey (key : Key) : Bool :=
  key ∈ [Key.kp0, .kp1, .kp2, .kp3, .kp4, .kp5, .kp6, .kp7, .kp8, .kp9, .kpMinus, .kpMultiply, .kpDivide, .kpPlus, .kpDecimal]

/-- Also `is_letter_rdev_key_ex` -/
def isLetterRdevKey (key : Key) : Bool :=
  key ∈ [Key.keyA, .keyB, .keyC, .keyD, .keyE, .keyF, .keyG, .keyH, .keyI, .keyJ, .keyK, .keyL, .keyM, .keyN, .keyO, .keyP,
    .keyQ, .keyR, .keyS, .keyT, .keyU, .keyV, .keyW, .keyX, .keyY, .keyZ, .leftBracket, .rightBracket, .semiColon, .quote,
    .comma, .dot]

end Tables

section Translation

variable (a : Answers) (modifiersState : Key → Bool) (event : Event)

def getKeyState (key : Injection.Key) : Bool := key ∈ a.keysDown

def convertNumpadKeys (key : Key) : Key :=
  if getKeyState a .numLock then key else (numpadKeys.lookup key).getD key

def addLockModesModifiers (isNumpadKey isLetterKey : Bool) (evt : KeyEvent) : KeyEvent :=
  let push (locked : Bool) (lock : ControlKey) : List ℤ := if locked then [lock.value] else []
  { evt with
    modifiers := evt.modifiers ++ push (isLetterKey && getKeyState a .capsLock) .capsLock ++
      push (isNumpadKey && getKeyState a .numLock) .numLock }

def isControlKey (evt : KeyEvent) (ck : ControlKey) : Bool := evt.union = some (.controlKey ck.value)

/-- `get_modifiers_state` and `legacy_modifiers` -/
def legacyModifiers (evt : KeyEvent) (alt ctrl shift command : Bool) : KeyEvent :=
  let push (held : Bool) (left right : ControlKey) : List ℤ :=
    if held && !isControlKey evt left && !isControlKey evt right then [left.value] else []
  { evt with
    modifiers := evt.modifiers ++ push (modifiersState .alt || modifiersState .altGr || alt) .alt .rAlt ++
      push (modifiersState .shiftLeft || modifiersState .shiftRight || shift) .shift .rShift ++
      push (modifiersState .controlLeft || modifiersState .controlRight || ctrl) .control .rControl ++
      push (modifiersState .metaLeft || modifiersState .metaRight || command) .metaKey .rWin }

/-- For a Windows peer, the only one that it is sent to from here. -/
def eventCtrlAltDel : KeyEvent := { down := true, union := some (.controlKey ControlKey.ctrlAltDel.value) }

def eventLockScreen : KeyEvent := { down := true, union := some (.controlKey ControlKey.lockScreen.value) }

/-- The character of a key that is no control key, `'\0'` for none. -/
def legacyChr (key : Key) : Char :=
  let name := (event.unicode.bind (·.name)).getD []
  let chr := if (String.ofList name).utf8ByteSize ≤ 2 then name.headD '\x00' else '\x00'
  let chr := if chr = '·' then '\x60' else chr
  if chr = '\x00' then (charKeys.lookup key).getD '\x00' else chr

def legacyKey : Key := if a.isWin then convertNumpadKeys a event.key else event.key

/-- A command is sent at once, and no event is made. -/
def legacyKeyboardMode (evt : KeyEvent) : Except KeyEvent (Option KeyEvent) :=
  let key := legacyKey a event
  let alt := getKeyState a .alt
  let ctrl := getKeyState a .control || getKeyState a .rightControl
  let shift := getKeyState a .shift || getKeyState a .rightShift
  let command := getKeyState a .metaKey
  let made (union : Union) : KeyEvent :=
    { legacyModifiers modifiersState { evt with union := some union } alt ctrl shift command with down := event.isPress }
  if key = .delete ∧ a.isWin ∧ ctrl ∧ alt then .error eventCtrlAltDel
  else if key = .capsLock ∨ key = .numLock ∨ key = .scrollLock then .ok none
  else
    match controlKeys.lookup key with
    | some ck => .ok (some (made (.controlKey ck.value)))
    | none =>
      let chr := legacyChr event key
      if chr = '\x00' then .ok none
      else if chr = 'l' ∧ a.isWin ∧ command then .error eventLockScreen
      else .ok (some (made (.chr chr.val)))

def windowsPeerSpecialKey : Option KeyEvent :=
  if a.peer = "windows" ∧ event.key = .pause then
    some (legacyModifiers modifiersState
      { down := event.isPress, union := some (.controlKey ControlKey.pause.value) } false false false false)
  else none

/-- The number of the key on the keyboard of the peer. -/
def mapKeycode : Option UInt32 :=
  match a.peer with
  | "windows" => a.linuxCodeToWinScancode event.positionCode
  | "macos" =>
    if a.isoLayout then a.linuxCodeToMacosIsoCode event.positionCode else a.linuxCodeToMacosCode event.positionCode
  | "android" => a.linuxCodeToAndroidKeyCode event.positionCode
  | _ => some event.positionCode

def mapKeyboardMode (evt : KeyEvent) : Option KeyEvent :=
  match windowsPeerSpecialKey a modifiersState event with
  | some special => some special
  | none => (mapKeycode a event).map fun code => { evt with down := event.isPress, union := some (.chr code) }

/-- `try_fill_unicode` is the part for a press with a name. -/
def translateKeyboardMode (evt : KeyEvent) : Option KeyEvent :=
  match windowsPeerSpecialKey a modifiersState event with
  | some special => some special
  | none =>
    if event.unicode.any (·.isDead) then none
    else if isNumpadRdevKey event.key then mapKeyboardMode a modifiersState event evt
    else if event.platformCode = 0xFE03 then none -- AltGr
    else
      match if event.isPress then event.unicode.bind (·.name) else none with
      | some (c :: name) => some { evt with down := true, union := some (.seq (c :: name)) }
      | _ => mapKeyboardMode a modifiersState event evt

/-- What the mode makes of an event. -/
def keyEvents : Except KeyEvent (Option KeyEvent) :=
  let keyEvent : KeyEvent := { down := false, union := none, mode := some a.mode }
  match a.mode with
  | .map => .ok (mapKeyboardMode a modifiersState event keyEvent)
  | .translate => .ok (translateKeyboardMode a modifiersState event keyEvent)
  | _ => legacyKeyboardMode a modifiersState event keyEvent

/-- What is sent for an event, once the modifiers and `TO_RELEASE` have been updated. -/
def eventToKeyEvents : Option KeyEvent :=
  let isNumpadKey := isNumpadRdevKey event.key
  match keyEvents a modifiersState event with
  | .error command => some command
  | .ok evt =>
    if a.mode ≠ .translate ∨ isNumpadKey then evt.map (addLockModesModifiers a isNumpadKey (isLetterRdevKey event.key))
    else evt

def swapControlKey (ck : ℤ) : ℤ :=
  if ck = ControlKey.control.value ∨ ck = ControlKey.rControl.value then ControlKey.metaKey.value
  else if ck = ControlKey.metaKey.value ∨ ck = ControlKey.rWin.value then ControlKey.control.value
  else ck

/-- Of the session that an event is sent to. -/
def swapModifierKey (msg : KeyEvent) : KeyEvent :=
  if a.allowSwapKey then
    { msg with
      union := msg.union.map fun
        | .controlKey ck => .controlKey (swapControlKey ck)
        | .chr code => .chr (if code = 0 then 0 else a.swappedCode code)
        | union => union
      modifiers := msg.modifiers.map swapControlKey }
  else msg

end Translation

/-- A text or a command leaves no key pressed. -/
def namesKey (evt : KeyEvent) : Bool :=
  match evt.union with
  | some (.controlKey ck) => ck ≠ ControlKey.ctrlAltDel.value && ck ≠ ControlKey.lockScreen.value
  | some (.chr _) => true
  | _ => false

def pressesKey (evt : KeyEvent) : Bool := evt.down && namesKey evt

/-- In legacy mode the names of the keys are others. -/
def releasesKey (evt press : KeyEvent) : Bool :=
  !evt.down && evt.union = press.union && evt.isLegacyMode = press.isLegacyMode

/-- Only a press of a local key presses a key of the peer. -/
def Faithful (event : Event) (evt : KeyEvent) : Prop := pressesKey evt = true → event.isPress = true

section Faithful

variable {a : Answers} {modifiersState : Key → Bool} {event : Event} {evt evt' : KeyEvent}

theorem faithful_of_down (h : evt.down = event.isPress) : Faithful event evt := by
  intro hpress
  rw [← h]
  exact (Bool.and_eq_true_iff.mp hpress).1

theorem faithful_of_not_namesKey (h : namesKey evt = false) : Faithful event evt := by
  intro hpress
  exact nomatch h.symm.trans (Bool.and_eq_true_iff.mp hpress).2

theorem windowsPeerSpecialKey_down (h : windowsPeerSpecialKey a modifiersState event = some evt) :
    evt.down = event.isPress := by
  unfold windowsPeerSpecialKey at h
  split at h
  · obtain rfl := some.inj h
    rfl
  · exact nomatch h

theorem mapKeyboardMode_down (h : mapKeyboardMode a modifiersState event evt = some evt') : evt'.down = event.isPress := by
  unfold mapKeyboardMode at h
  split at h
  next special hspecial =>
    obtain rfl := some.inj h
    exact windowsPeerSpecialKey_down hspecial
  next =>
    obtain ⟨code, -, rfl⟩ := map_eq_some_iff.mp h
    rfl

theorem translateKeyboardMode_faithful (h : translateKeyboardMode a modifiersState event evt = some evt') :
    Faithful event evt' := by
  unfold translateKeyboardMode at h
  split at h
  next special hspecial =>
    obtain rfl := some.inj h
    exact faithful_of_down (windowsPeerSpecialKey_down hspecial)
  next =>
    split_ifs at h
    · exact faithful_of_down (mapKeyboardMode_down h)
    all_goals
      split at h
      · obtain rfl := some.inj h
        exact faithful_of_not_namesKey rfl
      · exact faithful_of_down (mapKeyboardMode_down h)

/-- A command presses no key, and what else is made is down for a press. -/
theorem legacyKeyboardMode_cases :
    (∃ command, legacyKeyboardMode a modifiersState event evt = .error command ∧ namesKey command = false) ∨
      legacyKeyboardMode a modifiersState event evt = .ok none ∨
      ∃ made, legacyKeyboardMode a modifiersState event evt = .ok (some made) ∧ made.down = event.isPress := by
  unfold legacyKeyboardMode
  dsimp only
  split
  · exact .inl ⟨_, rfl, rfl⟩
  split
  · exact .inr (.inl rfl)
  split
  · exact .inr (.inr ⟨_, rfl, rfl⟩)
  split
  · exact .inr (.inl rfl)
  split
  · exact .inl ⟨_, rfl, rfl⟩
  · exact .inr (.inr ⟨_, rfl, rfl⟩)

theorem keyEvents_faithful : (∀ command, keyEvents a modifiersState event = .error command → Faithful event command) ∧
      ∀ evt, keyEvents a modifiersState event = .ok (some evt) → Faithful event evt := by
  unfold keyEvents
  dsimp only
  split
  · exact ⟨nofun, fun evt h => faithful_of_down (mapKeyboardMode_down (ok.inj h))⟩
  · exact ⟨nofun, fun evt h => translateKeyboardMode_faithful (ok.inj h)⟩
  · obtain ⟨command, heq, hcommand⟩ | heq | ⟨made, heq, hmade⟩ := legacyKeyboardMode_cases
    all_goals rw [heq]
    · refine ⟨fun _ h => ?_, nofun⟩
      obtain rfl := error.inj h
      exact faithful_of_not_namesKey hcommand
    · exact ⟨nofun, nofun⟩
    · refine ⟨nofun, fun evt h => ?_⟩
      obtain rfl := some.inj (ok.inj h)
      exact faithful_of_down hmade

theorem eventToKeyEvents_faithful (h : eventToKeyEvents a modifiersState event = some evt) : Faithful event evt := by
  obtain ⟨hcommand, hmade⟩ := @keyEvents_faithful a modifiersState event
  unfold eventToKeyEvents at h
  dsimp only at h
  split at h
  next command heq =>
    obtain rfl := some.inj h
    exact hcommand command heq
  next made heq =>
    split_ifs at h
    · obtain ⟨evt', rfl, rfl⟩ := map_eq_some_iff.mp h
      exact hmade evt' heq
    · subst h
      exact hmade evt heq

theorem isCommand_swapControlKey {ck : ℤ} :
    (swapControlKey ck = ControlKey.ctrlAltDel.value ↔ ck = ControlKey.ctrlAltDel.value) ∧
      (swapControlKey ck = ControlKey.lockScreen.value ↔ ck = ControlKey.lockScreen.value) := by
  unfold swapControlKey
  simp only [ControlKey.value, ControlKey.ctorIdx]
  split_ifs <;> omega

/-- A key is swapped with a key. -/
theorem pressesKey_swapModifierKey : pressesKey (swapModifierKey a evt) = pressesKey evt := by
  unfold swapModifierKey
  split_ifs
  · obtain ⟨down, union, modifiers, mode⟩ := evt
    cases union with
    | none => rfl
    | some union =>
      cases union with
      | controlKey ck => simp only [pressesKey, namesKey, map_some, ne_eq, isCommand_swapControlKey]
      | chr _ | unicode _ | seq _ | win2winHotkey _ => rfl
  · rfl

end Faithful

end UnyDesk.Keyboard
