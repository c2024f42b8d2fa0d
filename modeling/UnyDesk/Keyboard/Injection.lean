import Mathlib.Algebra.Group.Int.Defs
import Mathlib.Algebra.Group.Nat.Defs
import Mathlib.Data.Finset.Basic
import UnyDesk.Lib.Entries
import UnyDesk.Lib.Machine

/-!
# The keys that a peer presses

The side that is controlled presses and releases keys for its peers. An event says by its mode what its number or its
text means, and each platform has ways of its own to inject it. What is pressed until a later event releases it is
recorded, so that it can be released when the later event does not come.

The libraries that inject keys press and release what they are told, and know which key of the keyboard that is. A text
that they type leaves no key pressed.
-/

namespace UnyDesk.Keyboard.Injection

open Lib

/-- In the order of their numbers. -/
inductive ControlKey
  | unknown | alt | backspace | capsLock | control | delete | downArrow | endKey | escape
  | f1 | f10 | f11 | f12 | f2 | f3 | f4 | f5 | f6 | f7 | f8 | f9
  | home | leftArrow | metaKey | option | pageDown | pageUp | returnKey | rightArrow | shift | space | tab | upArrow
  | numpad0 | numpad1 | numpad2 | numpad3 | numpad4 | numpad5 | numpad6 | numpad7 | numpad8 | numpad9
  | cancel | clear | menu | pause | kana | hangul | junja | final | hanja | kanji | convert | select | print | execute
  | snapshot | insert | help | sleep | separator | scroll | numLock | rWin | apps
  | multiply | add | subtract | decimal | divide | equals | numpadEnter | rShift | rControl | rAlt
  | volumeMute | volumeUp | volumeDown | power
  | ctrlAltDel | lockScreen
deriving DecidableEq

open ControlKey

def ControlKey.value : ControlKey → ℤ
  | .ctrlAltDel => 100
  | .lockScreen => 101
  | key => key.ctorIdx

/-- `enigo::Key` -/
inductive Key
  | alt | backspace | capsLock | control | delete | downArrow | endKey | escape
  | f1 | f10 | f11 | f12 | f2 | f3 | f4 | f5 | f6 | f7 | f8 | f9
  | home | leftArrow | metaKey | option | pageDown | pageUp | returnKey | rightArrow | shift | space | tab | upArrow
  | numpad0 | numpad1 | numpad2 | numpad3 | numpad4 | numpad5 | numpad6 | numpad7 | numpad8 | numpad9
  | cancel | clear | pause | kana | hangul | junja | final | hanja | kanji | convert | select | print | execute
  | snapshot | insert | help | sleep | separator | scroll | numLock | rWin | apps
  | multiply | add | subtract | decimal | divide | equals | numpadEnter | rightShift | rightControl | rightAlt
  | layout (c : Char)
  | raw (code : UInt16)
deriving DecidableEq

/-- `rdev::RawKey` -/
inductive RawKey
  | scanCode (code : UInt32)
  | winVirtualKeycode (code : UInt32)
  | linuxXorgKeycode (code : UInt32)
deriving DecidableEq

/-- `rdev::Key` -/
inductive RdevKey
  | controlLeft | controlRight | metaLeft | metaRight | shiftLeft | shiftRight | alt | altGr | tab | returnKey
  | kp0 | kp1 | kp2 | kp3 | kp4 | kp5 | kp6 | kp7 | kp8 | kp9 | kpMinus | kpMultiply | kpDivide | kpPlus | kpDecimal
  | rawKey (key : RawKey)
  | other
deriving DecidableEq

/-- What the libraries are asked to press. -/
inductive SimKey
  | enigo (key : Key)
  | rdev (key : RdevKey)
deriving DecidableEq

inductive KeysDown
  | rdevKey (key : RawKey)
  | enigoKey (key : ℕ)
deriving DecidableEq

/-- The two ways of Wayland are `wayland_use_uinput` and `wayland_use_rdp_input`. -/
inductive Platform
  | windows
  | x11
  | uinput
  | rdpInput
deriving DecidableEq

def Platform.isWayland : Platform → Bool
  | .uinput | .rdpInput => true
  | _ => false

def Platform.isLinux : Platform → Bool
  | .windows => false
  | _ => true

inductive KeyboardMode
  | legacy
  | map
  | translate
  | auto
deriving DecidableEq

/-- A control key is an `EnumOrUnknown`, given by its value. -/
inductive Union
  | controlKey (ck : ℤ)
  | chr (chr : UInt32)
  | unicode (chr : UInt32)
  | seq (seq : List Char)
  | win2winHotkey (code : UInt32)
deriving DecidableEq

/-- The mode is empty if its value is not known. -/
structure KeyEvent where
  down : Bool
  union : Option Union
  modifiers : List ℤ := []
  mode : Option KeyboardMode := some .legacy

inductive TouchEvent
  | scaleUpdate (scale : ℤ)
  | panStart
  | panUpdate
  | panEnd

/-- A desktop with its libraries, which know the keys of its keyboard. -/
structure Desktop (P : Type*) where
  platform : Platform
  /-- The key of the keyboard that is pressed. -/
  place : SimKey → P
  /-- What is still pressed of some keys after a text has been typed. -/
  typed : List Char → Finset P → Finset P
  typed_subset : ∀ text keys, typed text keys ⊆ keys
  /-- `keycode_to_rdev_key` -/
  keycodeToRdevKey : UInt32 → RdevKey
  vkToScancode : UInt16 → UInt32

/-- What the handler of an event is told by the system. -/
structure Answers (P : Type*) where
  /-- `get_key_state`, when these keys are pressed for the peers. -/
  keyState : Finset P → Key → Bool
  /-- `set_clipboard_for_paste_sync` -/
  pasted : Bool := true
  /-- `simulate_key_unicode` has a key for it. -/
  unicodeTyped : Bool := true

/-- The keys that are pressed for the peers, and `KEYS_DOWN` with the times of its entries in nanoseconds. -/
structure State (P : Type*) where
  pressed : Finset P := ∅
  keysDown : List (KeysDown × ℕ) := []
  now : ℕ := 0

section Tables

def keyCharStart : ℕ := 9999

/-- `evdev::Key::KEY_INSERT.code() + 8` -/
def xkbKeyInsert : UInt16 := 110 + 8

def keyMap : List (ControlKey × Key) :=
  [(.alt, .alt), (.backspace, .backspace), (.capsLock, .capsLock), (.control, .control), (.delete, .delete),
   (.downArrow, .downArrow), (.endKey, .endKey), (.escape, .escape), (.f1, .f1), (.f10, .f10), (.f11, .f11),
   (.f12, .f12), (.f2, .f2), (.f3, .f3), (.f4, .f4), (.f5, .f5), (.f6, .f6), (.f7, .f7), (.f8, .f8), (.f9, .f9),
   (.home, .home), (.leftArrow, .leftArrow), (.metaKey, .metaKey), (.option, .option), (.pageDown, .pageDown),
   (.pageUp, .pageUp), (.returnKey, .returnKey), (.rightArrow, .rightArrow), (.shift, .shift), (.space, .space),
   (.tab, .tab), (.upArrow, .upArrow), (.numpad0, .numpad0), (.numpad1, .numpad1), (.numpad2, .numpad2),
   (.numpad3, .numpad3), (.numpad4, .numpad4), (.numpad5, .numpad5), (.numpad6, .numpad6), (.numpad7, .numpad7),
   (.numpad8, .numpad8), (.numpad9, .numpad9), (.cancel, .cancel), (.clear, .clear), (.menu, .alt),
   (.pause, .pause), (.kana, .kana), (.hangul, .hangul), (.junja, .junja), (.final, .final), (.hanja, .hanja),
   (.kanji, .kanji), (.convert, .convert), (.select, .select), (.print, .print), (.execute, .execute),
   (.snapshot, .snapshot), (.insert, .insert), (.help, .help), (.sleep, .sleep), (.separator, .separator),
   (.scroll, .scroll), (.numLock, .numLock), (.rWin, .rWin), (.apps, .apps), (.multiply, .multiply), (.add, .add),
   (.subtract, .subtract), (.decimal, .decimal), (.divide, .divide), (.equals, .equals),
   (.numpadEnter, .numpadEnter), (.rAlt, .rightAlt), (.rControl, .rightControl), (.rShift, .rightShift)]

def numpadKeyMap : List ControlKey :=
  [.home, .upArrow, .pageUp, .leftArrow, .rightArrow, .endKey, .downArrow, .pageDown, .insert, .delete]

def controlKeyValueToKey (value : ℤ) : Option Key := (keyMap.find? (·.1.value = value)).map (·.2)

/-- `char::from_u32`, and `char::try_from` -/
def charFromU32 (value : ℕ) : Option Char := if h : value.isValidChar then some (Char.ofNatAux value h) else none

def charValueToKey (value : ℕ) : Key := .layout ((charFromU32 value).getD '\x00')

/-- `as u64` -/
def asU64 (value : ℤ) : ℕ := (value % 2 ^ 64).toNat

/-- `as i32` -/
def asI32 (value : ℕ) : ℤ := Int.bmod value (2 ^ 32)

def recordKeyToKey (recordKey : ℕ) : Option Key :=
  if recordKey < keyCharStart then controlKeyValueToKey (asI32 recordKey)
  else some (charValueToKey ((recordKey - keyCharStart) % 2 ^ 32))

def isAsciiPrintable (c : Char) : Bool := 0x20 ≤ c.toNat && c.toNat ≤ 0x7E

def skipLedSyncControlKey (ck : ℤ) : Bool :=
  ck ∈ [control, .rControl, .metaKey, .shift, .rShift, .alt, .rAlt, .tab, .returnKey].map (·.value)

def isNumpadControlKey (ck : ℤ) : Bool :=
  ck ∈ [numpad0, .numpad1, .numpad2, .numpad3, .numpad4, .numpad5, .numpad6, .numpad7, .numpad8, .numpad9,
    .numpadEnter].map (·.value)

def skipLedSyncRdevKey : RdevKey → Bool
  | .controlLeft | .controlRight | .metaLeft | .metaRight | .shiftLeft | .shiftRight | .alt | .altGr | .tab
  | .returnKey => true
  | _ => false

def isNumpadRdevKey : RdevKey → Bool
  | .kp0 | .kp1 | .kp2 | .kp3 | .kp4 | .kp5 | .kp6 | .kp7 | .kp8 | .kp9 | .kpMinus | .kpMultiply | .kpDivide | .kpPlus
  | .kpDecimal => true
  | _ => false

namespace KeyEvent

variable (evt : KeyEvent)

/-- `evt.chr()`, 0 for another kind of event. -/
def chr : UInt32 :=
  match evt.union with
  | some (.chr chr) => chr
  | _ => 0

def getControlKeyValue : ℤ :=
  match evt.union with
  | some (.controlKey ck) => ck
  | _ => -1

def hasHotkeyModifiers : Bool :=
  evt.modifiers.any fun v =>
    v ∈ [control, .rControl, .metaKey, .rWin, .alt, .rAlt].map (·.value)

def isLegacyMode : Bool := evt.mode.getD .legacy = .legacy

def shouldDisableNumlock : Bool :=
  match evt.union with
  | some (.controlKey ck) => evt.isLegacyMode && (numpadKeyMap.map (·.value)).contains ck
  | _ => false

end KeyEvent

end Tables

variable {P : Type*} [DecidableEq P]

section Libraries

variable (d : Desktop P)

def press (key : SimKey) (s : State P) : State P := { s with pressed := insert (d.place key) s.pressed }

def release (key : SimKey) (s : State P) : State P := { s with pressed := s.pressed.erase (d.place key) }

def keyDown (key : Key) : State P → State P := press d (.enigo key)

def keyUp (key : Key) : State P → State P := release d (.enigo key)

def keyClick (key : Key) (s : State P) : State P := keyUp d key (keyDown d key s)

/-- Also `simulate_char` and `simulate_unicode`, for one letter. -/
def keySequence (text : List Char) (s : State P) : State P := { s with pressed := d.typed text s.pressed }

/-- `simulate_`, for a press or a release. -/
def simulate (key : RdevKey) (down : Bool) : State P → State P := if down then press d (.rdev key) else release d (.rdev key)

end Libraries

section Records

variable (d : Desktop P)

def recordPressedKey (recordKey : KeysDown) (down : Bool) (s : State P) : State P :=
  { s with keysDown := if down then Entries.insert recordKey s.now s.keysDown else Entries.erase recordKey s.keysDown }

def releaseRecordKey (recordKey : KeysDown) (s : State P) : State P :=
  match recordKey with
  | .rdevKey rawKey => simulate d (.rawKey rawKey) false s
  | .enigoKey key =>
    match recordKeyToKey key with
    | some key => keyUp d key s
    | none => s

def fixKeyDownTimeout (force : Bool) (s : State P) : State P :=
  s.keysDown.foldl
    (fun s entry =>
      if force || (s.now - entry.2) / 1000000 ≥ 360000 then
        releaseRecordKey d entry.1 (recordPressedKey entry.1 false s)
      else s)
    s

end Records

section Modifiers

variable (d : Desktop P) (a : Answers P)

def getModifierState (key : Key) (s : State P) : Bool :=
  let x := a.keyState s.pressed key
  match key with
  | .shift => x || a.keyState s.pressed .rightShift
  | .control => x || a.keyState s.pressed .rightControl
  | .alt => x || a.keyState s.pressed .rightAlt
  | .metaKey => x || a.keyState s.pressed .rWin
  | .rightShift => x || a.keyState s.pressed .shift
  | .rightControl => x || a.keyState s.pressed .control
  | .rightAlt => x || a.keyState s.pressed .alt
  | .rWin => x || a.keyState s.pressed .metaKey
  | _ => x

def fixModifier (modifiers : List ℤ) (key0 : ControlKey) (key1 : Key) (s : State P) : State P :=
  if getModifierState a key1 s && !modifiers.contains key0.value then
    -- AltGr case
    if d.platform = .windows ∧ key0 = .control ∧ getModifierState a .alt s then s
    else keyUp d key1 s
  else s

/-- The modifiers in the order in which they are fixed: a key that the event is about, the modifier that must be there,
and the key that is released. -/
def fixedModifiers : List (ControlKey × ControlKey × Key) :=
  [(.shift, .shift, .shift), (.rShift, .shift, .rightShift), (.alt, .alt, .alt), (.rAlt, .alt, .rightAlt),
   (.control, .control, .control), (.rControl, .control, .rightControl), (.metaKey, .metaKey, .metaKey),
   (.rWin, .metaKey, .rWin)]

def fixModifiers (modifiers : List ℤ) (ck : ℤ) (s : State P) : State P :=
  fixedModifiers.foldl
    (fun s entry => if ck ≠ entry.1.value then fixModifier d a modifiers entry.2.1 entry.2.2 s else s) s

def releaseUnpressedModifiers (evt : KeyEvent) (s : State P) : State P :=
  fixModifiers d a evt.modifiers evt.getControlKeyValue s

/-- The value of the control key stands for a key code. -/
def isAltgrPressed (s : State P) : Bool :=
  (s.keysDown.lookup (.rdevKey (.linuxXorgKeycode (UInt32.ofNat rAlt.value.toNat)))).isSome

/-- One modifier of an event, with the keys that are to be released. -/
def pressModifier (ck : ℤ) (s : State P × List Key) : State P × List Key :=
  match controlKeyValueToKey ck with
  | none => s
  | some key =>
    if getModifierState a key s.1 then s
    else if d.platform.isLinux ∧ key = .alt ∧ isAltgrPressed s.1 then s
    else (keyDown d key s.1, s.2 ++ [key])

def pressModifiers (evt : KeyEvent) (s : State P) : State P × List Key :=
  evt.modifiers.foldl (fun s ck => pressModifier d a ck s) (s, [])

/-- With the keys that are to be released. -/
def syncModifiers (evt : KeyEvent) (s : State P) : State P × List Key :=
  if evt.down then pressModifiers d a evt (releaseUnpressedModifiers d a evt s) else (s, [])

def releaseKeys (toRelease : List Key) (s : State P) : State P := toRelease.foldl (fun s key => keyUp d key s) s

def isHotkeyModifierPressed (s : State P) : Bool :=
  [Key.control, .rightControl, .alt, .rightAlt, .metaKey, .rWin].any (getModifierState a · s)

def isHotKeyModifiersDown (s : State P) : Bool :=
  [Key.control, .rightControl, .alt, .rightAlt, .metaKey, .rWin].any (a.keyState s.pressed)

/-- A Shift key that is down is released, by `enigo` on Wayland. -/
def releaseShift (key : Key) (rdevKey : RdevKey) (s : State P) : State P :=
  if getModifierState a key s then
    if d.platform.isWayland then keyUp d key s else simulate d rdevKey false s
  else s

def releaseShiftForCharInput (s : State P) : State P :=
  if isHotkeyModifierPressed a s then s
  else releaseShift d a .rightShift .shiftRight (releaseShift d a .shift .shiftLeft s)

end Modifiers

section Modes

variable (d : Desktop P) (a : Answers P)

def simRdevRawkeyPosition (code : UInt32) (keydown : Bool) (s : State P) : State P :=
  let rawkey := if d.platform = .windows then RawKey.scanCode code else .linuxXorgKeycode code
  simulate d (.rawKey rawkey) keydown (recordPressedKey (.rdevKey rawkey) keydown s)

def simRdevRawkeyVirtual (code : UInt32) (keydown : Bool) (s : State P) : State P :=
  let rawkey := RawKey.winVirtualKeycode code
  simulate d (.rawKey rawkey) keydown (recordPressedKey (.rdevKey rawkey) keydown s)

def waylandSendRawKey (code : UInt16) (down : Bool) (s : State P) : State P :=
  if down then keyDown d (.raw code) s else keyUp d (.raw code) s

def mapKeyboardMode (evt : KeyEvent) (s : State P) : State P :=
  if d.platform.isWayland then waylandSendRawKey d evt.chr.toUInt16 evt.down s
  else simRdevRawkeyPosition d evt.chr evt.down s

def processControlKey (ck : ℤ) (down : Bool) (s : State P) : State P :=
  match controlKeyValueToKey ck with
  | some key => if down then keyDown d key s else keyUp d key s
  | none => s

def inputTextViaClipboardServer (text : List Char) (s : State P) : State P :=
  if text.isEmpty || !a.pasted then s
  else keyUp d .shift (keyUp d (.raw xkbKeyInsert) (keyDown d (.raw xkbKeyInsert) (keyDown d .shift s)))

def processChr (chr : ℕ) (down hotkey : Bool) (s : State P) : State P :=
  if d.platform = .uinput ∧ !isHotkeyModifierPressed a s then
    match charFromU32 chr with
    | some c =>
      if isAsciiPrintable c then if down then keyDown d (.layout c) s else keyUp d (.layout c) s
      else if down then inputTextViaClipboardServer d a [c] s
      else s
    | none => s
  else if d.platform = .windows ∧ !hotkey then
    match charFromU32 chr with
    | some c => if down then keySequence d [c] s else s
    | none => s
  else if down then keyDown d (charValueToKey chr) s
  else keyUp d (charValueToKey chr) s

def processUnicode (chr : ℕ) (s : State P) : State P :=
  match charFromU32 chr with
  | some c =>
    if d.platform = .uinput ∧ !isAsciiPrintable c then inputTextViaClipboardServer d a [c] s else keySequence d [c] s
  | none => s

def processSeq (sequence : List Char) (s : State P) : State P :=
  if d.platform = .uinput ∧ !sequence.all isAsciiPrintable then inputTextViaClipboardServer d a sequence s
  else keySequence d sequence s

/-- The thread that is spawned for a function key locks the screen or sends the key events for it, as others do. -/
def isFunctionKey (evt : KeyEvent) : Bool :=
  match evt.union with
  | some (.controlKey ck) => ck = ctrlAltDel.value || ck = lockScreen.value
  | _ => false

/-- The letter has been made with Shift already. -/
def shiftReleased (s : State P) : State P := if d.platform.isLinux then releaseShiftForCharInput d a s else s

/-- What is injected in legacy mode between the modifiers. -/
def legacyInput (evt : KeyEvent) (s : State P) : State P :=
  match evt.union with
  | some (.controlKey ck) =>
    processControlKey d ck evt.down (recordPressedKey (.enigoKey (asU64 ck)) evt.down s)
  | some (.chr chr) =>
    let recordKey := chr.toNat + keyCharStart
    processChr d a chr.toNat evt.down evt.hasHotkeyModifiers
      (recordPressedKey (.enigoKey recordKey) evt.down (shiftReleased d a s))
  | some (.unicode chr) => processUnicode d a chr.toNat (shiftReleased d a s)
  | some (.seq seq) => processSeq d a seq s
  | _ => s

/-- A function key returns before the modifiers are released. -/
def legacyKeyboardMode (evt : KeyEvent) (s : State P) : State P :=
  let synced := syncModifiers d a evt s
  if isFunctionKey evt then synced.1 else releaseKeys d synced.2 (legacyInput d a evt synced.1)

def translateProcessCode (code : UInt32) (down : Bool) (s : State P) : State P :=
  if code >>> 16 = 0 then simRdevRawkeyPosition d code down s else simRdevRawkeyVirtual d (code >>> 16) down s

def simulateWin2winHotkey (code : UInt32) (down : Bool) (s : State P) : State P :=
  if down && a.unicodeTyped then keySequence d (charFromU32 (code &&& 0xFFFF).toNat).toList s
  else
    let scan := d.vkToScancode (code >>> 16).toUInt16
    simulate d (.rawKey (.scanCode scan)) down s

def clickLetters (seq : List Char) (s : State P) : State P := seq.foldl (fun s chr => keyClick d (.layout chr) s) s

def translateSeq (seq : List Char) (s : State P) : State P :=
  match d.platform with
  | .rdpInput => keySequence d seq (releaseShiftForCharInput d a s)
  | .uinput =>
    if isHotkeyModifierPressed a s then clickLetters d seq s
    else
      let s := releaseShiftForCharInput d a s
      if seq.all isAsciiPrintable then keySequence d seq s else inputTextViaClipboardServer d a seq s
  | .x11 => clickLetters d seq (releaseShiftForCharInput d a s)
  | .windows =>
    let s := if isHotKeyModifiersDown a s then s
      else releaseShift d a .rightShift .shiftRight (releaseShift d a .shift .shiftLeft s)
    seq.foldl (fun s chr => keySequence d [chr] s) s

def translateKeyboardMode (evt : KeyEvent) (s : State P) : State P :=
  match evt.union with
  | some (.seq seq) => translateSeq d a seq s
  | some (.chr chr) =>
    match d.platform with
    | .windows => translateProcessCode d chr evt.down s
    | .x11 => simRdevRawkeyPosition d chr evt.down s
    | .uinput | .rdpInput => waylandSendRawKey d chr.toUInt16 evt.down s
  | some (.win2winHotkey code) => if d.platform = .windows then simulateWin2winHotkey d a code evt.down s else s
  | _ => s

/-- `LockModesHandler` -/
structure LockModesHandler where
  capsLockChanged : Bool := false
  numLockChanged : Bool := false

def clickIf (changed : Bool) (key : Key) (s : State P) : State P := if changed then keyClick d key s else s

def LockModesHandler.new (evt : KeyEvent) (isNumpadKey : Bool) (s : State P) : LockModesHandler × State P :=
  let capsLockChanged := evt.modifiers.contains capsLock.value != a.keyState s.pressed .capsLock
  let s := clickIf d capsLockChanged .capsLock s
  let numLockChanged :=
    if isNumpadKey then evt.modifiers.contains numLock.value != a.keyState s.pressed .numLock
    else evt.isLegacyMode && d.platform = .windows && evt.shouldDisableNumlock && a.keyState s.pressed .numLock
  (⟨capsLockChanged, numLockChanged⟩, clickIf d numLockChanged .numLock s)

/-- On Wayland the lock keys are not changed back for `uinput`. -/
def LockModesHandler.drop (handler : LockModesHandler) (s : State P) : State P :=
  if d.platform = .uinput then s
  else clickIf d handler.numLockChanged .numLock (clickIf d handler.capsLockChanged .capsLock s)

section

variable (evt : KeyEvent)

/-- Whether the lock keys are handled, and as for a key of the number pad. -/
def lockModes : Option Bool :=
  match evt.union with
  | some (.unicode _) | some (.seq _) => some false
  | some (.controlKey ck) => if skipLedSyncControlKey ck then none else some (isNumpadControlKey ck)
  | some (.chr code) =>
    if evt.isLegacyMode then some false
    else
      let key := d.keycodeToRdevKey code
      if skipLedSyncRdevKey key then none else some (isNumpadRdevKey key)
  | _ => none

/-- An event when the lock keys have been handled. -/
def dispatchKey (s : State P) : State P :=
  match evt.mode with
  | some .map => mapKeyboardMode d evt s
  | some .translate => translateKeyboardMode d a evt s
  | _ => legacyKeyboardMode d a evt s

/-- Without a handler nothing is changed. -/
def lockModesHandler (s : State P) : LockModesHandler × State P :=
  match lockModes d evt with
  | some isNumpadKey => LockModesHandler.new d a evt isNumpadKey s
  | none => ({}, s)

def handleKey (s : State P) : State P :=
  let locked := lockModesHandler d a evt s
  locked.1.drop d (dispatchKey d a evt locked.2)

end

def handleScale (scale : ℤ) (s : State P) : State P :=
  if scale = 0 then keyUp d .control s else keyDown d .control s

def handlePointer (evt : TouchEvent) (s : State P) : State P :=
  match evt with
  | .scaleUpdate scale => if d.platform = .windows then handleScale d scale s else s
  | _ => s

end Modes

inductive Event (P : Type*)
  | key (evt : KeyEvent) (answers : Answers P)
  | pointer (evt : TouchEvent)
  /-- The thread of `fix_key_down_timeout_loop`. -/
  | timeout
  | pass (time : ℕ)

def step (d : Desktop P) (s : State P) : Event P → State P
  | .key evt answers => handleKey d answers evt s
  | .pointer evt => handlePointer d evt s
  | .timeout => fixKeyDownTimeout d false s
  | .pass time => { s with now := s.now + time }

end UnyDesk.Keyboard.Injection
