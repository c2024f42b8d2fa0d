import Mathlib.Data.Option.Basic

/-!
# Session options on the wire

`OptionMessage` as `message.proto` declares it, with its enumerations. An enumeration field
holds the number the peer sent; the number may be one this build does not know, so reading it
as an enumeration value can fail.
-/

namespace UnyDesk

/-- A protobuf enumeration: the numbers it knows and the number of each value. -/
class ProtoEnum (E : Type) where
  fromI32 : Int → Option E
  value : E → Int
  fromI32_eq_some_iff : ∀ n e, fromI32 n = some e ↔ n = value e

/-- An enumeration field as received; the number may be unknown to this build. -/
structure EnumOrUnknown (E : Type) where
  value : Int
deriving DecidableEq

namespace EnumOrUnknown

variable {E : Type} [ProtoEnum E]

/-- The value, or `none` for a number outside the enumeration. -/
def enumValue (field : EnumOrUnknown E) : Option E := ProtoEnum.fromI32 field.value

/-- The field that carries a known value. -/
def ofValue (e : E) : EnumOrUnknown E := ⟨ProtoEnum.value e⟩

/-- A field reads as a value exactly when it holds that value's number. -/
theorem enumValue_eq_some_iff (field : EnumOrUnknown E) (e : E) : field.enumValue = some e ↔ field = ofValue e := by
  obtain ⟨n⟩ := field
  simp [enumValue, ofValue, ProtoEnum.fromI32_eq_some_iff]

end EnumOrUnknown

/-- `OptionMessage.BoolOption`. -/
inductive BoolOption
  | notSet
  | no
  | yes
deriving DecidableEq

instance : ProtoEnum BoolOption where
  fromI32
    | 0 => some .notSet
    | 1 => some .no
    | 2 => some .yes
    | _ => none
  value
    | .notSet => 0
    | .no => 1
    | .yes => 2
  fromI32_eq_some_iff := by
    intro n e
    split <;> cases e <;> simp_all

/-- `ImageQuality`; the number 1 is not assigned. -/
inductive ImageQuality
  | notSet
  | low
  | balanced
  | best
deriving DecidableEq

instance : ProtoEnum ImageQuality where
  fromI32
    | 0 => some .notSet
    | 2 => some .low
    | 3 => some .balanced
    | 4 => some .best
    | _ => none
  value
    | .notSet => 0
    | .low => 2
    | .balanced => 3
    | .best => 4
  fromI32_eq_some_iff := by
    intro n e
    split <;> cases e <;> simp_all

/-- `CodecAbility`. -/
structure CodecAbility where
  vp8 : Bool := false
  vp9 : Bool := false
  av1 : Bool := false
  h264 : Bool := false
  h265 : Bool := false
deriving DecidableEq

/-- `SupportedDecoding`; the preferred codec and chroma are kept as the numbers sent. -/
structure SupportedDecoding where
  abilityVp9 : Int := 0
  abilityH264 : Int := 0
  abilityH265 : Int := 0
  prefer : Int := 0
  abilityVp8 : Int := 0
  abilityAv1 : Int := 0
  i444 : Option CodecAbility := none
  preferChroma : Int := 0
deriving DecidableEq

/-- A boolean option field as received. -/
abbrev BoolField := EnumOrUnknown BoolOption

/-- `OptionMessage`, with the defaults of an empty message. -/
structure OptionMessage where
  imageQuality : EnumOrUnknown ImageQuality := ⟨0⟩
  lockAfterSessionEnd : BoolField := ⟨0⟩
  showRemoteCursor : BoolField := ⟨0⟩
  privacyMode : BoolField := ⟨0⟩
  blockInput : BoolField := ⟨0⟩
  customImageQuality : Int := 0
  disableAudio : BoolField := ⟨0⟩
  disableClipboard : BoolField := ⟨0⟩
  enableFileTransfer : BoolField := ⟨0⟩
  supportedDecoding : Option SupportedDecoding := none
  customFps : Int := 0
  disableKeyboard : BoolField := ⟨0⟩
  followRemoteCursor : BoolField := ⟨0⟩
  followRemoteWindow : BoolField := ⟨0⟩
  disableCamera : BoolField := ⟨0⟩
  terminalPersistent : BoolField := ⟨0⟩
  showMyCursor : BoolField := ⟨0⟩
deriving DecidableEq

end UnyDesk
