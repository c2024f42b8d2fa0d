import UnyDesk.Client.Remote

/-!
# Clipboard contents on the wire

Each kind of content has its own encoder, which compresses where that makes the content shorter, and one decoder reads
all kinds. What is read is what was sent, unless a special content does not get shorter: its name is sent in its place.
The sizes of an image travel as 32-bit numbers.
-/

namespace UnyDesk

open Lib List Option Utf8

/-- `arboard::ImageData`. -/
inductive ImageData
  | rgba (width height : UInt64) (bytes : Bytes)
  | png (bytes : Bytes)
  | svg (text : String)
deriving DecidableEq

def ImageData.bytes : ImageData → Bytes
  | .rgba _ _ bytes => bytes
  | .png bytes => bytes
  | .svg text => encode text

/-- `arboard::ClipboardData`. -/
inductive ClipboardData
  | text (s : String)
  | rtf (s : String)
  | html (s : String)
  | image (a : ImageData)
  | special (name : String) (data : Bytes)
  /-- A kind that is not sent. -/
  | unsupported (format : String)
deriving DecidableEq

open ClipboardData

inductive ClipboardFormat
  | text
  | rtf
  | html
  | imageRgba
  | imagePng
  | imageSvg
  | special

open ClipboardFormat

/-- The numbers of `message.proto`. -/
def ClipboardFormat.value : ClipboardFormat → Int
  | .text => 0
  | .rtf => 1
  | .html => 2
  | .imageRgba => 21
  | .imagePng => 22
  | .imageSvg => 23
  | .special => 31

def ClipboardFormat.enumValue (n : Int) : Option ClipboardFormat :=
  [.text, .rtf, .html, .imageRgba, .imagePng, .imageSvg, .special].find? (·.value = n)

@[simp] theorem ClipboardFormat.enumValue_value (format : ClipboardFormat) : enumValue format.value = some format := by
  cases format <;> rfl

/-- `Clipboard` of `message.proto`. -/
structure Clipboard where
  compress : Bool := false
  content : Bytes := []
  width : Int := 0
  height : Int := 0
  format : Int := 0
  specialName : String := ""
deriving DecidableEq

section Encoders

variable (codec : Codec)

/-- The content is compressed where that makes it shorter. -/
def shortened (data otherwise : Bytes) : Bool × Bytes :=
  let compressed := codec.compress data
  let compress := decide (compressed.length < data.length)
  (compress, if compress then compressed else otherwise)

def plainToProto (s : String) (format : ClipboardFormat) : Clipboard :=
  let (compress, content) := shortened codec (encode s) (encode s)
  { compress, content, format := format.value }

def imageToProto (a : ImageData) : Clipboard :=
  match a with
  | .rgba width height _ =>
    let (compress, content) := shortened codec a.bytes a.bytes
    { compress, content, width := wrapI32 width.toNat, height := wrapI32 height.toNat, format := imageRgba.value }
  | .png png => { compress := false, content := png, format := imagePng.value }
  | .svg _ =>
    let (compress, content) := shortened codec a.bytes a.bytes
    { compress, content, format := imageSvg.value }

/-- The bytes that are sent uncompressed are those of the name. -/
def specialToProto (d : Bytes) (s : String) : Clipboard :=
  let (compress, content) := shortened codec d (encode s)
  { compress, content, format := special.value, specialName := s }

def clipboardDataToProto : ClipboardData → Option Clipboard
  | .text s => some (plainToProto codec s .text)
  | .rtf s => some (plainToProto codec s .rtf)
  | .html s => some (plainToProto codec s .html)
  | .image a => some (imageToProto codec a)
  | .special s d => some (specialToProto codec d s)
  | .unsupported _ => none

def createMultiClipboards (items : List ClipboardData) : List Clipboard := items.filterMap (clipboardDataToProto codec)

/-- The size of an image from the number on the wire. -/
def sizeOfI32 (n : Int) : UInt64 := .ofNat (asUsize n)

def Clipboard.data (clipboard : Clipboard) : Bytes :=
  if clipboard.compress then codec.decompress clipboard.content else clipboard.content

def fromClipboard (clipboard : Clipboard) : Option ClipboardData :=
  let data := clipboard.data codec
  match enumValue clipboard.format with
  | some .text => (decode? data).map .text
  | some .rtf => (decode? data).map .rtf
  | some .html => (decode? data).map .html
  | some .imageRgba => some (.image (.rgba (sizeOfI32 clipboard.width) (sizeOfI32 clipboard.height) data))
  | some .imagePng => some (.image (.png data))
  | some .imageSvg => some (.image (.svg ((decode? data).getD "")))
  | some .special => some (.special clipboard.specialName data)
  | none => none

def fromMultiClipboards (clipboards : List Clipboard) : List ClipboardData := clipboards.filterMap (fromClipboard codec)

end Encoders

/-- A size that survives the conversion to an `i32` and back. -/
def FitsI32 (size : UInt64) : Prop := size.toNat < 2 ^ 31 ∨ 2 ^ 64 - 2 ^ 31 ≤ size.toNat

/-- What the other side reads is the item: the sizes of an image fit, and a special content gets shorter or is its own
name. -/
def ClipboardData.Preserved (codec : Codec) : ClipboardData → Prop
  | .image (.rgba width height _) => FitsI32 width ∧ FitsI32 height
  | .special name data => (codec.compress data).length < data.length ∨ encode name = data
  | .unsupported _ => False
  | _ => True

section RoundTrip

variable {codec : Codec}

theorem sizeOfI32_wrapI32 (size : UInt64) : sizeOfI32 (wrapI32 size.toNat) = size ↔ FitsI32 size := by
  have hsize := size.toNat_lt
  rw [← UInt64.toNat_inj, sizeOfI32, UInt64.toNat_ofNat', FitsI32, wrapI32, asUsize, Int.bmod_def]
  split_ifs <;> omega

section Decompressed

variable (hcodec : ∀ bytes, codec.decompress (codec.compress bytes) = bytes)
include hcodec

/-- What is decompressed or taken as it is, is the data. -/
theorem data_shortened (data otherwise : Bytes) (width height format : Int) (specialName : String) :
    Clipboard.data codec
      ⟨(shortened codec data otherwise).1, (shortened codec data otherwise).2, width, height, format, specialName⟩ =
      if (codec.compress data).length < data.length then data else otherwise := by
  unfold Clipboard.data shortened
  by_cases hshorter : (codec.compress data).length < data.length
  · simp [hshorter, hcodec]
  · simp [hshorter]

theorem fromClipboard_plainToProto (s : String) : fromClipboard codec (plainToProto codec s .text) = some (.text s) ∧
      fromClipboard codec (plainToProto codec s .rtf) = some (.rtf s) ∧
      fromClipboard codec (plainToProto codec s .html) = some (.html s) := by
  simp only [fromClipboard, plainToProto, enumValue_value, data_shortened hcodec, ite_self,
    decode?_encode, map_some, and_self]

theorem fromClipboard_imageToProto (a : ImageData) :
    fromClipboard codec (imageToProto codec a) = some (.image a) ↔ (image a).Preserved codec := by
  cases a with
  | rgba width height bytes =>
    simp only [fromClipboard, imageToProto, enumValue_value, data_shortened hcodec, ite_self,
      ImageData.bytes, some.injEq, image.injEq, ImageData.rgba.injEq, and_true, sizeOfI32_wrapI32,
      ClipboardData.Preserved]
  | png bytes => exact iff_of_true rfl trivial
  | svg text =>
    simp only [fromClipboard, imageToProto, enumValue_value, data_shortened hcodec, ite_self,
      ImageData.bytes, decode?_encode, getD_some, ClipboardData.Preserved]

theorem fromClipboard_specialToProto (name : String) (data : Bytes) :
    fromClipboard codec (specialToProto codec data name) = some (.special name data) ↔
      (special name data).Preserved codec := by
  simp only [fromClipboard, specialToProto, enumValue_value, data_shortened hcodec, some.injEq,
    special.injEq, true_and, ClipboardData.Preserved]
  split
  next hshorter => exact iff_of_true rfl (.inl hshorter)
  next hlong => exact ⟨.inr, fun h => h.resolve_left hlong⟩

/-- An item is read back exactly when it is preserved. -/
theorem bind_fromClipboard (item : ClipboardData) :
    (clipboardDataToProto codec item).bind (fromClipboard codec) = some item ↔ item.Preserved codec := by
  cases item with
  | text s | rtf s | html s =>
    simp only [clipboardDataToProto, bind_some, fromClipboard_plainToProto hcodec s, ClipboardData.Preserved]
  | image a => exact fromClipboard_imageToProto hcodec a
  | special name data => exact fromClipboard_specialToProto hcodec name data
  | unsupported format => exact iff_of_false nofun id

end Decompressed

/-- A partial map keeps a list exactly when it keeps every element. -/
theorem filterMap_eq_self {A : Type*} {f : A → Option A} {items : List A} :
    items.filterMap f = items ↔ ∀ item ∈ items, f item = some item := by
  constructor
  · intro h
    induction items with
    | nil => exact nofun
    | cons first items ih =>
      cases hfirst : f first with
      | none =>
        -- one item fewer than before
        rw [filterMap_cons_none hfirst] at h
        have hlength := length_filterMap_le f items
        rw [h, length_cons] at hlength
        omega
      | some other =>
        rw [filterMap_cons_some hfirst] at h
        obtain ⟨rfl, hrest⟩ := cons.inj h
        intro item hitem
        rcases mem_cons.mp hitem with rfl | hitem
        · exact hfirst
        · exact ih hrest item hitem
  · intro h
    rw [filterMap_congr h, filterMap_some]

end RoundTrip

/-- Clipboard contents round trip: where compression can be undone, the items that are read are those that were sent, in
order, exactly when every item is preserved. -/
theorem fromMultiClipboards_createMultiClipboards (codec : Codec)
    (hcodec : ∀ bytes, codec.decompress (codec.compress bytes) = bytes) (items : List ClipboardData) :
    fromMultiClipboards codec (createMultiClipboards codec items) = items ↔ ∀ item ∈ items, item.Preserved codec := by
  rw [fromMultiClipboards, createMultiClipboards, List.filterMap_filterMap, filterMap_eq_self]
  exact forall₂_congr fun item _ => bind_fromClipboard hcodec item

/-- A compression that only takes three zeros at the front away, and marks what it has done. -/
def packZeros : Bytes → Bytes
  | 0 :: 0 :: 0 :: bytes => 1 :: bytes
  | bytes => 0 :: bytes

def unpackZeros : Bytes → Bytes
  | 1 :: bytes => 0 :: 0 :: 0 :: bytes
  | _ :: bytes => bytes
  | [] => []

def sampleCodec : Codec := { compress := packZeros, decompress := unpackZeros }

theorem sampleCodec_undone (bytes : Bytes) : sampleCodec.decompress (sampleCodec.compress bytes) = bytes := by
  change unpackZeros (packZeros bytes) = bytes
  unfold packZeros
  split <;> rfl

/-- A text, an image and a special content that gets shorter. -/
theorem fromMultiClipboards_createMultiClipboards_mixed :
    let items := [text "a", .image (.rgba 1 1 [255, 0, 0, 255]), .special "x" [0, 0, 0, 7]]
    fromMultiClipboards sampleCodec (createMultiClipboards sampleCodec items) = items :=
  (fromMultiClipboards_createMultiClipboards sampleCodec sampleCodec_undone _).mpr (by
    simp [ClipboardData.Preserved, sampleCodec, packZeros, FitsI32])

/-- A special content that does not get shorter arrives as its name. -/
theorem special_arrives_as_name : (∀ bytes, sampleCodec.decompress (sampleCodec.compress bytes) = bytes) ∧
      fromMultiClipboards sampleCodec (createMultiClipboards sampleCodec [.special "x" [7]]) = [.special "x" [120]] :=
  ⟨sampleCodec_undone, by decide⟩

end UnyDesk
