import Mathlib.Data.Nat.Notation

/-!
# Codec formats and the frames of a video message
-/

namespace UnyDesk

inductive CodecFormat
  | vp8
  | vp9
  | av1
  | h264
  | h265
  | unknown
deriving DecidableEq

/-- `to_string().to_lowercase()`. -/
def CodecFormat.toLowercase : CodecFormat → String
  | .vp8 => "vp8"
  | .vp9 => "vp9"
  | .av1 => "av1"
  | .h264 => "h264"
  | .h265 => "h265"
  | .unknown => "unknown"

/-- `EncodedVideoFrame`; the time stamp is a signed number. -/
structure EncodedVideoFrame where
  data : List UInt8 := []
  key : Bool := false
  pts : Int := 0
deriving DecidableEq

/-- `video_frame::Union`. -/
inductive VideoFrameUnion
  | vp9s (frames : List EncodedVideoFrame)
  | rgb
  | yuv
  | h264s (frames : List EncodedVideoFrame)
  | h265s (frames : List EncodedVideoFrame)
  | vp8s (frames : List EncodedVideoFrame)
  | av1s (frames : List EncodedVideoFrame)
deriving DecidableEq

/-- `CodecFormat::from` of a union. -/
def VideoFrameUnion.format : VideoFrameUnion → CodecFormat
  | .vp8s _ => .vp8
  | .vp9s _ => .vp9
  | .av1s _ => .av1
  | .h264s _ => .h264
  | .h265s _ => .h265
  | .rgb | .yuv => .unknown

/-- The encoded frames of a union. -/
def VideoFrameUnion.frames : VideoFrameUnion → List EncodedVideoFrame
  | .vp8s frames | .vp9s frames | .av1s frames | .h264s frames | .h265s frames => frames
  | .rgb | .yuv => []

end UnyDesk
