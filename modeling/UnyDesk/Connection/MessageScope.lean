import UnyDesk.Connection.OptionScope
import UnyDesk.Proto.Message

/-!
# The scope filter in front of an authorized session

Once a connection is authorized, a message outside the authenticated kind of session is
dropped before any handler sees it. Housekeeping messages always pass, a few broadcasts of
older clients pass because their handlers ignore them, and a remote-control session is not
limited at all.

The last point is what the identity and terminal results turn on: for a remote session the
filter lets every message through.
-/

namespace UnyDesk

/-- `target_os` of a build. -/
inductive TargetOs
  | windows
  | linux
  | macos
  | android
  | ios
deriving DecidableEq

/-- The conditional-compilation choices that the modelled code depends on. -/
structure Build where
  os : TargetOs
  flutter : Bool
  unixFileCopyPaste : Bool

/-- `not(any(target_os = "android", target_os = "ios"))`. -/
def Build.desktop (build : Build) : Bool := build.os ≠ .android && build.os ≠ .ios

/-- `feature = "flutter"` on a desktop: the builds that can switch sides. -/
def Build.flutterDesktop (build : Build) : Bool := build.flutter && build.desktop

def isSupportedDecodingOnlyOption (option : OptionMessage) : Bool :=
  option.supportedDecoding.isSome && option.imageQuality.enumValue == some .notSet && option.customImageQuality == 0
    && option.customFps == 0
    && isBoolOptionNotSet option.lockAfterSessionEnd
    && isBoolOptionNotSet option.showRemoteCursor
    && isBoolOptionNotSet option.privacyMode
    && isBoolOptionNotSet option.blockInput
    && isBoolOptionNotSet option.disableAudio
    && isBoolOptionNotSet option.disableClipboard
    && isBoolOptionNotSet option.enableFileTransfer
    && isBoolOptionNotSet option.disableKeyboard
    && isBoolOptionNotSet option.followRemoteCursor
    && isBoolOptionNotSet option.followRemoteWindow
    && isBoolOptionNotSet option.disableCamera
    && isBoolOptionNotSet option.terminalPersistent
    && isBoolOptionNotSet option.showMyCursor

def isRenderBroadcastNoopCompatMessage : Message → Bool
  | .misc (some (.refreshVideo _)) => true
  | .misc (some (.refreshVideoDisplay _)) => true
  | .misc (some (.option option)) => isSupportedDecodingOnlyOption option
  | _ => false

def isTextClipboardNoopCompatMessage : Message → Bool
  | .clipboard _ => true
  | .multiClipboards _ => true
  | _ => false

def isConnectionHousekeepingMessage : Message → Bool
  | .loginRequest _ => true
  | .testDelay _ => true
  | .misc (some (.closeReason _)) => true
  | _ => false

def isFileTransferScopedMisc (build : Build) : Option Misc → Bool
  | some (.selectedSid _) => build.os = .windows
  | _ => false

def isFileTransferScopedMessage (build : Build) : Message → Bool
  | .fileAction _ => true
  | .fileResponse _ => true
  | .misc m => isFileTransferScopedMisc build m
  | _ => false

def isTerminalScopedOption (option : OptionMessage) : Bool :=
  (scopedTerminalLoginOption option).2.isNone

def isTerminalScopedMisc : Option Misc → Bool
  | some (.chatMessage _) => true
  | some (.option option) => isTerminalScopedOption option
  | _ => false

def isTerminalScopedMessage : Message → Bool
  | .terminalAction _ => true
  | .misc m => isTerminalScopedMisc m
  | _ => false

def isViewCameraScopedOption (option : OptionMessage) : Bool :=
  (scopedViewCameraOption option).2.isNone

def isViewCameraScopedMisc (build : Build) : Option Misc → Bool
  | some (.switchDisplay _) => true
  | some (.captureDisplays _) => true
  | some (.refreshVideo _) => true
  | some (.refreshVideoDisplay _) => true
  | some .videoReceived => true
  | some (.chatMessage _) => true
  | some (.audioFormat _ _) => true
  | some (.clientRecordStatus _) => true
  | some (.messageQuery _) => true
  | some (.togglePrivacyMode _ _) => true
  | some (.toggleVirtualDisplay _ _) => true
  | some (.changeResolution _ _) => true
  | some (.changeDisplayResolution _ _ _) => true
  | some (.option option) => isViewCameraScopedOption option
  | some (.selectedSid _) => build.os = .windows
  | _ => false

def isViewCameraScopedMessage (build : Build) : Message → Bool
  | .screenshotRequest _ _ => true
  | .misc m => isViewCameraScopedMisc build m
  | .mouseEvent _ => true
  | .pointerDeviceEvent _ => true
  | .keyEvent _ => true
  | .audioFrame _ => true
  | .voiceCallRequest _ _ => true
  | .voiceCallResponse => true
  | _ => false

def miscMessageFamily : Option Misc → String
  | some (.chatMessage _) => "misc.chat_message"
  | some (.switchDisplay _) => "misc.switch_display"
  | some (.option _) => "misc.option"
  | some (.audioFormat _ _) => "misc.audio_format"
  | some (.captureDisplays _) => "misc.capture_displays"
  | some (.clientRecordStatus _) => "misc.client_record_status"
  | some (.togglePrivacyMode _ _) => "misc.toggle_privacy_mode"
  | some (.toggleVirtualDisplay _ _) => "misc.toggle_virtual_display"
  | some (.selectedSid _) => "misc.selected_sid"
  | some (.changeResolution _ _) => "misc.change_resolution"
  | some (.changeDisplayResolution _ _ _) => "misc.change_display_resolution"
  | some (.messageQuery _) => "misc.message_query"
  | some .followCurrentDisplay => "misc.follow_current_display"
  | some _ => "misc.other"
  | none => "misc.empty"

/-- The family named in logs. -/
def messageFamily : Message → String
  | .mouseEvent _ => "mouse_event"
  | .audioFrame _ => "audio_frame"
  | .pointerDeviceEvent _ => "pointer_device_event"
  | .keyEvent _ => "key_event"
  | .clipboard _ => "clipboard"
  | .fileAction _ => "file_action"
  | .fileResponse _ => "file_response"
  | .voiceCallRequest _ _ => "voice_call_request"
  | .voiceCallResponse => "voice_call_response"
  | .multiClipboards _ => "multi_clipboards"
  | .screenshotRequest _ _ => "screenshot_request"
  | .screenshotResponse => "screenshot_response"
  | .terminalAction _ => "terminal_action"
  | .terminalResponse => "terminal_response"
  | .misc m => miscMessageFamily m
  | .empty => "empty"
  | _ => "message.other"

def authorizedMessageScopeViolation (build : Build) (connType : AuthConnType) (msg : Message) : Option String :=
  if isConnectionHousekeepingMessage msg then none
  else
    -- Broadcasts of older clients that the handlers of this kind of session ignore.
    let noopCompat := match connType with
      | .fileTransfer | .terminal =>
        isRenderBroadcastNoopCompatMessage msg || isTextClipboardNoopCompatMessage msg
      | .portForward => isRenderBroadcastNoopCompatMessage msg
      | .viewCamera => isTextClipboardNoopCompatMessage msg
      | .remote => false
    if noopCompat then none
    else
      let allowed := match connType with
        | .remote => true
        | .fileTransfer => isFileTransferScopedMessage build msg
        | .portForward => false
        | .viewCamera => isViewCameraScopedMessage build msg
        | .terminal => isTerminalScopedMessage msg
      if allowed then none else some (messageFamily msg)

/-- `authorized_scope_violation`: without a known kind only housekeeping passes. -/
def authorizedScopeViolation (build : Build) (authed : Option AuthConnType) (msg : Message) : Option String :=
  match authed with
  | none => if isConnectionHousekeepingMessage msg then none else some "session.auth_type"
  | some connType => authorizedMessageScopeViolation build connType msg

/-- A remote-control session is not limited by the filter. -/
@[simp] theorem authorizedScopeViolation_remote (build : Build) (msg : Message) :
    authorizedScopeViolation build (some .remote) msg = none := by
  simp [authorizedScopeViolation, authorizedMessageScopeViolation]

/-- A second-factor code, a switch-sides answer or a terminal action belongs to no camera,
file-transfer or port-forward session. -/
theorem authorizedScopeViolation_limited {build : Build} {connType : AuthConnType} {msg : Message}
    (hkind : connType ≠ .remote)
    (hmsg : (∃ tfa, msg = .auth2fa tfa) ∨ (∃ s, msg = .switchSidesResponse s) ∨
      (∃ body, msg = .terminalAction body) ∧ connType ≠ .terminal) :
    (authorizedScopeViolation build (some connType) msg).isSome = true := by
  rcases hmsg with ⟨tfa, rfl⟩ | ⟨s, rfl⟩ | ⟨⟨body, rfl⟩, hterminal⟩ <;>
    cases connType <;>
    simp_all [authorizedScopeViolation, authorizedMessageScopeViolation,
      isConnectionHousekeepingMessage, isRenderBroadcastNoopCompatMessage,
      isTextClipboardNoopCompatMessage, isFileTransferScopedMessage, isViewCameraScopedMessage,
      isTerminalScopedMessage]

end UnyDesk
