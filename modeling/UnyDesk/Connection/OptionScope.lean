import Mathlib.Tactic.Tauto
import UnyDesk.Proto.OptionMessage

/-!
# Session options inside the authenticated scope

A session authenticated for file transfer, port forwarding, the camera or a terminal may only
set the options of its own kind. The connection copies the permitted fields of an
`OptionMessage` into a fresh record and separately reports whether any other field was set.

The four field lists are maintained by hand in the source. They are compared here with one
partition of the seventeen fields, so a field classified in one list and forgotten in another
breaks these proofs.
-/

namespace UnyDesk

open EnumOrUnknown OptionMessage

variable {first second option kept : OptionMessage}

/-- The kind of session a connection was authenticated for. -/
inductive AuthConnType
  | remote
  | fileTransfer
  | portForward
  | viewCamera
  | terminal
deriving DecidableEq

def isBoolOptionNotSet (option : BoolField) : Bool :=
  option.enumValue = some .notSet

section

variable (option : OptionMessage)

def optionHasNonViewCameraLoginField : Bool :=
  !(isBoolOptionNotSet option.lockAfterSessionEnd && isBoolOptionNotSet option.showRemoteCursor
    && isBoolOptionNotSet option.privacyMode
    && isBoolOptionNotSet option.blockInput
    && isBoolOptionNotSet option.disableClipboard
    && isBoolOptionNotSet option.enableFileTransfer
    && isBoolOptionNotSet option.disableKeyboard
    && isBoolOptionNotSet option.followRemoteCursor
    && isBoolOptionNotSet option.followRemoteWindow
    && isBoolOptionNotSet option.disableCamera
    && isBoolOptionNotSet option.terminalPersistent
    && isBoolOptionNotSet option.showMyCursor)

def optionHasNonTerminalLoginField : Bool :=
  option.imageQuality.enumValue != some .notSet
    || option.customImageQuality != 0
    || option.customFps != 0
    || option.supportedDecoding.isSome
    || !isBoolOptionNotSet option.lockAfterSessionEnd
    || !isBoolOptionNotSet option.showRemoteCursor
    || !isBoolOptionNotSet option.privacyMode
    || !isBoolOptionNotSet option.blockInput
    || !isBoolOptionNotSet option.disableAudio
    || !isBoolOptionNotSet option.disableClipboard
    || !isBoolOptionNotSet option.enableFileTransfer
    || !isBoolOptionNotSet option.disableKeyboard
    || !isBoolOptionNotSet option.followRemoteCursor
    || !isBoolOptionNotSet option.followRemoteWindow
    || !isBoolOptionNotSet option.disableCamera
    || !isBoolOptionNotSet option.showMyCursor

def optionHasAnyField : Bool :=
  optionHasNonTerminalLoginField option || !isBoolOptionNotSet option.terminalPersistent

end

/-- A filtered record is handed on only when it still sets something. -/
def keepIfAnyField (kept : OptionMessage) : Option OptionMessage :=
  if optionHasAnyField kept then some kept else none

def scopedViewCameraOption (option : OptionMessage) : Option OptionMessage × Option String :=
  let kept : OptionMessage :=
    { imageQuality := if option.imageQuality.enumValue.isSome then option.imageQuality else ⟨0⟩
      customImageQuality := if option.customImageQuality ≥ 0 then option.customImageQuality else 0
      customFps := if option.customFps ≥ 0 then option.customFps else 0
      supportedDecoding := option.supportedDecoding
      disableAudio := match option.disableAudio.enumValue with
        | some value => .ofValue value
        | none => ⟨0⟩ }
  let violation := optionHasNonViewCameraLoginField option
  (keepIfAnyField kept, if violation then some "login.option" else none)

def scopedTerminalLoginOption (option : OptionMessage) : Option OptionMessage × Option String :=
  let kept : OptionMessage :=
    { terminalPersistent := match option.terminalPersistent.enumValue with
        | some value => .ofValue value
        | none => ⟨0⟩ }
  let violation := option.terminalPersistent.enumValue.isNone || optionHasNonTerminalLoginField option
  (keepIfAnyField kept, if violation then some "login.option" else none)

def scopedLoginOption (connType : AuthConnType) (option : OptionMessage) : Option OptionMessage × Option String :=
  match connType with
  | .remote => (some option, none)
  | .viewCamera => scopedViewCameraOption option
  | .terminal => scopedTerminalLoginOption option
  | .fileTransfer | .portForward =>
    (none, if optionHasAnyField option then some "login.option" else none)

def scopedUpdateOptionMessage (authed : Option AuthConnType) (option : OptionMessage) : Option OptionMessage :=
  match authed with
  | some .viewCamera => (scopedViewCameraOption option).1
  | some .terminal => (scopedTerminalLoginOption option).1
  | some .remote | some .fileTransfer | some .portForward | none => none

/-- The record that an option message of an authorized session hands to `update_options`. -/
def optionForUpdate (authed : Option AuthConnType) (option : OptionMessage) : Option OptionMessage :=
  if authed = some .remote then some option else scopedUpdateOptionMessage authed option

/-- The part of a message that a session of this kind may set, everything else unset. -/
def OptionMessage.allowedPart (connType : AuthConnType) (option : OptionMessage) : OptionMessage :=
  match connType with
  | .remote => option
  | .viewCamera =>
    { imageQuality := option.imageQuality
      customImageQuality := option.customImageQuality
      customFps := option.customFps
      supportedDecoding := option.supportedDecoding
      disableAudio := option.disableAudio }
  | .terminal => { terminalPersistent := option.terminalPersistent }
  | .fileTransfer | .portForward => {}

/-- The rest of a message: the permitted fields unset, all others as sent. -/
def OptionMessage.foreignPart (connType : AuthConnType) (option : OptionMessage) : OptionMessage :=
  match connType with
  | .remote => {}
  | .viewCamera =>
    { option with
      imageQuality := ⟨0⟩, customImageQuality := 0, customFps := 0
      supportedDecoding := none, disableAudio := ⟨0⟩ }
  | .terminal => { option with terminalPersistent := ⟨0⟩ }
  | .fileTransfer | .portForward => option

/-- A boolean field counts as not set exactly when the number sent is zero. -/
@[simp] theorem isBoolOptionNotSet_iff (option : BoolField) :
    isBoolOptionNotSet option = true ↔ option = ⟨0⟩ := by
  simp [isBoolOptionNotSet, enumValue_eq_some_iff, ofValue, ProtoEnum.value]

/-- The quality field counts as not set exactly when the number sent is zero. -/
theorem imageQuality_notSet_iff (quality : EnumOrUnknown ImageQuality) :
    quality.enumValue = some .notSet ↔ quality = ⟨0⟩ := by
  simp [enumValue_eq_some_iff, ofValue, ProtoEnum.value]

section

variable (option : OptionMessage)

/-- The camera list is exactly the fields outside the camera's allowed set. -/
theorem optionHasNonViewCameraLoginField_eq_false_iff :
    optionHasNonViewCameraLoginField option = false ↔ option.foreignPart .viewCamera = {} := by
  simp only [optionHasNonViewCameraLoginField, Bool.not_eq_false', Bool.and_eq_true,
    isBoolOptionNotSet_iff, OptionMessage.foreignPart, OptionMessage.mk.injEq]
  tauto

/-- The terminal list is exactly the fields outside the terminal's allowed set. -/
theorem optionHasNonTerminalLoginField_eq_false_iff :
    optionHasNonTerminalLoginField option = false ↔ option.foreignPart .terminal = {} := by
  simp only [optionHasNonTerminalLoginField, Bool.or_eq_false_iff, bne_eq_false_iff_eq,
    Bool.not_eq_false', isBoolOptionNotSet_iff, imageQuality_notSet_iff,
    Option.isSome_eq_false_iff, Option.isNone_iff_eq_none, OptionMessage.foreignPart,
    OptionMessage.mk.injEq]
  tauto

/-- The complete list covers every field of the message. -/
theorem optionHasAnyField_eq_false_iff : optionHasAnyField option = false ↔ option = {} := by
  rw [optionHasAnyField, Bool.or_eq_false_iff, optionHasNonTerminalLoginField_eq_false_iff,
    Bool.not_eq_false', isBoolOptionNotSet_iff]
  obtain ⟨⟩ := option
  simp only [OptionMessage.foreignPart, OptionMessage.mk.injEq]
  tauto

end

/-- What is handed on is the filtered record itself. -/
theorem eq_of_keepIfAnyField {kept handed : OptionMessage} (h : keepIfAnyField kept = some handed) : handed = kept := by
  unfold keepIfAnyField at h
  split at h
  · exact (Option.some.inj h).symm
  · cases h

/-- The camera filter keeps permitted fields only. -/
theorem foreignPart_of_scopedViewCameraOption
    (h : (scopedViewCameraOption option).1 = some kept) : kept.foreignPart .viewCamera = {} := by
  rw [eq_of_keepIfAnyField h]
  rfl

/-- The terminal filter keeps permitted fields only. -/
theorem foreignPart_of_scopedTerminalLoginOption
    (h : (scopedTerminalLoginOption option).1 = some kept) : kept.foreignPart .terminal = {} := by
  rw [eq_of_keepIfAnyField h]
  rfl

/-- The camera filter reads permitted fields only. -/
theorem scopedViewCameraOption_congr
    (h : first.allowedPart .viewCamera = second.allowedPart .viewCamera) :
    (scopedViewCameraOption first).1 = (scopedViewCameraOption second).1 := by
  simp only [OptionMessage.allowedPart, OptionMessage.mk.injEq] at h
  obtain ⟨hquality, -, -, -, -, hcustom, haudio, -, -, hdecoding, hfps, -⟩ := h
  simp only [scopedViewCameraOption, hquality, hcustom, haudio, hdecoding, hfps]

/-- The terminal filter reads permitted fields only. -/
theorem scopedTerminalLoginOption_congr (h : first.allowedPart .terminal = second.allowedPart .terminal) :
    (scopedTerminalLoginOption first).1 = (scopedTerminalLoginOption second).1 := by
  simp only [OptionMessage.allowedPart, OptionMessage.mk.injEq] at h
  obtain ⟨-, -, -, -, -, -, -, -, -, -, -, -, -, -, -, hpersistent, -⟩ := h
  simp only [scopedTerminalLoginOption, hpersistent]

/-- The login filter reports nothing exactly when every foreign field is unset and, in a
terminal session, the persistence field holds a known value. -/
theorem scopedLoginOption_violation_iff (connType : AuthConnType) (option : OptionMessage) :
    (scopedLoginOption connType option).2 = none ↔ option.foreignPart connType = {} ∧
        (connType = .terminal → option.terminalPersistent.enumValue.isSome = true) := by
  cases connType with
  | remote => simp [scopedLoginOption, foreignPart]
  | viewCamera =>
    simp [scopedLoginOption, scopedViewCameraOption, ← optionHasNonViewCameraLoginField_eq_false_iff]
  | terminal =>
    simp [scopedLoginOption, scopedTerminalLoginOption, Option.isSome_iff_ne_none, and_comm,
      ← optionHasNonTerminalLoginField_eq_false_iff]
  | fileTransfer =>
    simp [scopedLoginOption, foreignPart, ← optionHasAnyField_eq_false_iff]
  | portForward =>
    simp [scopedLoginOption, foreignPart, ← optionHasAnyField_eq_false_iff]

/-- A limited session hands on only its own options. Whatever the peer sends, at login or
later, the record given to `update_options` has every foreign field unset and is determined by
the permitted fields; the violation reported for it is empty exactly when nothing foreign was
set. -/
theorem limited_session_options (connType : AuthConnType) (hlimited : connType ≠ .remote) (option : OptionMessage) :
    (∀ kept, (scopedLoginOption connType option).1 = some kept ∨
        optionForUpdate (some connType) option = some kept → kept.foreignPart connType = {}) ∧
      (∀ other : OptionMessage, option.allowedPart connType = other.allowedPart connType →
        (scopedLoginOption connType option).1 = (scopedLoginOption connType other).1 ∧
          optionForUpdate (some connType) option = optionForUpdate (some connType) other) ∧
      ((scopedLoginOption connType option).2 = none ↔ option.foreignPart connType = {} ∧
          (connType = .terminal → option.terminalPersistent.enumValue.isSome = true)) := by
  refine ⟨fun kept hkept => ?_, fun other hagree => ?_, scopedLoginOption_violation_iff _ _⟩
  · cases connType with
    | remote => exact absurd rfl hlimited
    | viewCamera => exact foreignPart_of_scopedViewCameraOption (or_self_iff.mp hkept)
    | terminal => exact foreignPart_of_scopedTerminalLoginOption (or_self_iff.mp hkept)
    | fileTransfer | portForward =>
      simp [scopedLoginOption, optionForUpdate, scopedUpdateOptionMessage] at hkept
  · cases connType with
    | remote => exact absurd rfl hlimited
    | viewCamera => exact ⟨scopedViewCameraOption_congr hagree, scopedViewCameraOption_congr hagree⟩
    | terminal =>
      exact ⟨scopedTerminalLoginOption_congr hagree, scopedTerminalLoginOption_congr hagree⟩
    | fileTransfer | portForward => exact ⟨rfl, rfl⟩

/-- A camera session that asks for blocked input and an unknown audio value. -/
theorem limited_session_options_camera :
    (scopedLoginOption .viewCamera { blockInput := ⟨2⟩, disableAudio := ⟨7⟩ }).1 = none ∧
      ((scopedLoginOption .viewCamera { blockInput := ⟨2⟩, disableAudio := ⟨7⟩ }).2 = none ↔
        OptionMessage.foreignPart .viewCamera { blockInput := ⟨2⟩, disableAudio := ⟨7⟩ } = {} ∧
          (AuthConnType.viewCamera = .terminal → (EnumOrUnknown.enumValue (⟨0⟩ : BoolField)).isSome = true)) :=
  ⟨rfl, (limited_session_options .viewCamera (by decide) { blockInput := ⟨2⟩, disableAudio := ⟨7⟩ }).2.2⟩

end UnyDesk
