import UnyDesk.Proto.OptionMessage

/-!
# Peer messages

The login request, the miscellaneous messages and the message union of `message.proto`, as a
connection receives them. A `oneof` that is not present is `none`. Payloads that the
connection only hands over to another component keep an opaque body.
-/

namespace UnyDesk

/-- A byte string of the wire format. -/
abbrev Bytes := List UInt8

/-- `PortForward`. -/
structure PortForward where
  host : String
  port : Int
deriving DecidableEq

/-- `LoginRequest.union`. -/
inductive LoginUnion
  | fileTransfer (dir : String) (showHidden : Bool)
  | portForward (pf : PortForward)
  | viewCamera
  | terminal (serviceId : String)
deriving DecidableEq

/-- `OSLogin`; an absent message reads as one with empty fields. -/
structure OSLogin where
  username : String := ""
  password : String := ""
deriving DecidableEq

/-- `LoginRequest`. -/
structure LoginRequest where
  username : String := ""
  password : Bytes := []
  myId : String := ""
  myName : String := ""
  option : Option OptionMessage := none
  union : Option LoginUnion := none
  videoAckRequired : Bool := false
  sessionId : Nat := 0
  version : String := ""
  osLogin : Option OSLogin := none
  myPlatform : String := ""
  hwid : Bytes := []
  avatar : String := ""
deriving DecidableEq

/-- The OS credentials of a request, empty when the message is absent. -/
def LoginRequest.osLoginOrDefault (lr : LoginRequest) : OSLogin := lr.osLogin.getD {}

/-- `Auth2FA`. -/
structure Auth2fa where
  code : String
  hwid : Bytes := []
deriving DecidableEq

/-- `SwitchSidesResponse`. -/
structure SwitchSidesResponse where
  uuid : Bytes
  lr : Option LoginRequest
deriving DecidableEq

/-- `SwitchDisplay`, the fields the handler reads. -/
structure SwitchDisplay where
  display : Int
  width : Int := 0
  height : Int := 0
deriving DecidableEq

/-- `CaptureDisplays`. -/
structure CaptureDisplays where
  add : List Int := []
  sub : List Int := []
  set : List Int := []
deriving DecidableEq

/-- `FileAction.union`; the fields that a session reads before the action is handed over. -/
inductive FileAction
  | readDir (path : String) (includeHidden : Bool)
  | readEmptyDirs (body : Bytes)
  | allFiles (body : Bytes)
  | send (id : Int) (path : String) (printer : Bool)
  | receive (body : Bytes)
  | removeDir (id : Int) (body : Bytes)
  | removeFile (id : Int) (body : Bytes)
  | create (id : Int) (body : Bytes)
  | cancel (body : Bytes)
  | sendConfirm (body : Bytes)
  | rename (id : Int) (body : Bytes)
deriving DecidableEq

/-- `Misc.union`. -/
inductive Misc
  | chatMessage (text : String)
  | switchDisplay (s : SwitchDisplay)
  | permissionInfo
  | option (o : OptionMessage)
  | audioFormat (sampleRate channels : Nat)
  | closeReason (reason : String)
  | refreshVideo (all : Bool)
  | videoReceived
  | backNotification
  | restartRemoteDevice
  | uac
  | foregroundWindowElevated
  | stopService
  | elevationRequest (request : Option (Option (String × String)))
  | elevationResponse
  | portableServiceRunning
  | switchSidesRequest (uuid : Bytes)
  | switchBack
  | changeResolution (width height : Int)
  | pluginRequest
  | pluginFailure
  | fullSpeedFps
  | autoAdjustFps (fps : Nat)
  | clientRecordStatus (status : Bool)
  | captureDisplays (displays : CaptureDisplays)
  | refreshVideoDisplay (display : Int)
  | toggleVirtualDisplay (display : Int) (on : Bool)
  | togglePrivacyMode (implKey : String) (on : Bool)
  | supportedEncoding
  | selectedSid (sid : Nat)
  | changeDisplayResolution (display width height : Int)
  | messageQuery (switchDisplay : Int)
  | followCurrentDisplay
deriving DecidableEq

/-- `Message.union`. -/
inductive Message
  | signedId
  | publicKey
  | testDelay (fromClient : Bool)
  | videoFrame
  | loginRequest (lr : LoginRequest)
  | loginResponse
  | hash
  | mouseEvent (body : Bytes)
  | audioFrame (data : Bytes)
  | cursorData
  | cursorPosition
  | cursorId
  | keyEvent (body : Bytes)
  | clipboard (body : Bytes)
  | fileAction (action : Option FileAction)
  | fileResponse (body : Bytes)
  | misc (m : Option Misc)
  | cliprdr (files : Bool) (body : Bytes)
  | messageBox
  | switchSidesResponse (s : SwitchSidesResponse)
  | voiceCallRequest (reqTimestamp : Int) (isConnect : Bool)
  | voiceCallResponse
  | peerInfo
  | pointerDeviceEvent (body : Bytes)
  | auth2fa (tfa : Auth2fa)
  | multiClipboards (body : Bytes)
  | screenshotRequest (display : Int) (sid : String)
  | screenshotResponse
  | terminalAction (body : Bytes)
  | terminalResponse
  -- A message without a union, or with one of a newer version.
  | empty
deriving DecidableEq

end UnyDesk
