import UnyDesk.Connection.Loop

/-!
# The ledger of a connection

What is granted to whom depends on a few fields of the connection, on the trail of decisions and
on the last request that the user was shown. The ledger is that part of the state. Options,
permissions, voice calls, throttling and every reply leave it alone, so the security results
only have to follow the ledger.
-/

namespace UnyDesk

/-- The fields that decide what a session is granted and to whom. -/
@[ext] structure LoginState where
  lr : LoginRequest
  require2fa : Option Bytes
  authorized : Bool
  authedConnId : Option AuthConnType
  fileTransfer : Option (String × Bool)
  viewCamera : Bool
  terminal : Bool
  portForwardAddress : String
  terminalServiceId : String
  terminalUserToken : Option TerminalUserToken
  fromSwitch : Bool

@[simps] def Connection.loginState (c : Connection) : LoginState :=
  { lr := c.lr
    require2fa := c.require2fa
    authorized := c.authorized
    authedConnId := c.authedConnId
    fileTransfer := c.fileTransfer
    viewCamera := c.viewCamera
    terminal := c.terminal
    portForwardAddress := c.portForwardAddress
    terminalServiceId := c.terminalServiceId
    terminalUserToken := c.terminalUserToken
    fromSwitch := c.fromSwitch }

def CmData.login? : CmData → Option CmLogin
  | .login l => some l
  | _ => none

/-- The most recent request that the connection manager was told about. -/
def lastLogin (toCm : List CmData) : Option CmLogin := toCm.findSome? CmData.login?

structure Ledger where
  login : LoginState
  socket : Option String
  trail : List Mark
  lastLogin : Option CmLogin
  alive : Bool
  service : String → Option Bool

/-- The decision is recorded. -/
def Ledger.push (l : Ledger) (m : Mark) : Ledger := { l with trail := m :: l.trail }

@[simp] theorem Ledger.push_login (l : Ledger) (m : Mark) : (l.push m).login = l.login := rfl
@[simp] theorem Ledger.push_trail (l : Ledger) (m : Mark) : (l.push m).trail = m :: l.trail := rfl

namespace Host

@[simps] def ledger (h : Host) : Ledger :=
  { login := h.conn.loginState
    socket := h.conn.portForwardSocket
    trail := h.trail
    lastLogin := UnyDesk.lastLogin h.toCm
    alive := h.alive
    service := h.world.isServiceSpecifiedUser }

section Primitives

variable (h : Host)

@[simp] theorem ledger_emit (o : Output) : (h.emit o).ledger = h.ledger := rfl

@[simp] theorem ledger_mark (m : Mark) : (h.mark m).ledger = h.ledger.push m := rfl

@[simp] theorem ledger_stop : h.stop.ledger = { h.ledger with alive := false } := rfl

theorem ledger_updateWorld {g : World → World}
    (hg : (g h.world).isServiceSpecifiedUser = h.world.isServiceSpecifiedUser) :
    (h.updateWorld g).ledger = h.ledger := by
  simp [ledger, hg]

end Primitives

/-! ## Throttling and tables -/

section Tables

variable (env : Env) (h : Host) (w : World)

@[simp] theorem ledger_sendLoginError (err : String) : (h.sendLoginError err).ledger = h.ledger := rfl

@[simp] theorem ledger_noteFailureCheck (scope : FailureScope) (check : FailureCheck) :
    (h.noteFailureCheck scope check).ledger = h.ledger := by
  unfold noteFailureCheck
  cases scope <;> cases check.blocked <;> rfl

@[simp] theorem updateFailureWithScope_service (check : FailureCheck) (remove : Bool) (i : ℕ)
    (scope : FailureScope) :
    (updateFailureWithScope env check remove i scope w).isServiceSpecifiedUser = w.isServiceSpecifiedUser := by
  unfold updateFailureWithScope World.setFailures
  cases scope <;> cases remove <;> simp only [Bool.false_eq_true, if_false, if_true] <;>
    split_ifs <;> rfl

@[simp] theorem ledger_updateFailure (check : FailureCheck) (remove : Bool) (i : ℕ) :
    (h.updateWorld (updateFailure env check remove i)).ledger = h.ledger :=
  h.ledger_updateWorld (updateFailureWithScope_service env h.world check remove i .default)

@[simp] theorem ledger_checkUpdateTemporaryPassword (success : Bool) :
    (h.updateWorld (checkUpdateTemporaryPassword success)).ledger = h.ledger := by
  apply ledger_updateWorld
  unfold checkUpdateTemporaryPassword
  dsimp only
  split_ifs <;> rfl

@[simp] theorem ledger_checkRemoveSession : h.checkRemoveSession.ledger = h.ledger := by
  apply ledger_updateWorld
  unfold UnyDesk.checkRemoveSession
  split_ifs <;> rfl

@[simp] theorem ledger_sendCloseReasonNoRetry (reason : String) :
    (h.sendCloseReasonNoRetry reason).ledger = h.ledger := by
  simp [sendCloseReasonNoRetry]

@[simp] theorem ledger_tryStartCmIpc : h.tryStartCmIpc.ledger = h.ledger := rfl

/-- Closing releases the forwarded port and nothing else. -/
theorem ledger_onClose :
    (h.onClose env).ledger = h.ledger ∨ (h.onClose env).ledger = { h.ledger with socket := none } := by
  unfold onClose
  split_ifs with hclosed
  · exact .inl rfl
  · right
    dsimp only
    cases (env.build.desktop && (h.conn.chatUnanswered || h.conn.fileTransferred && env.build.flutter)) <;> rfl

end Tables

/-! ## Options, permissions and voice calls -/

section Services

variable (env : Env) (h : Host)

@[simp] theorem ledger_subscribe (name : ServiceName) (sub : Bool) :
    (h.subscribe env name sub).ledger = h.ledger := by
  unfold subscribe
  split_ifs <;> rfl

@[simp] theorem ledger_addConnection : (h.addConnection env).ledger = h.ledger := rfl

@[simp] theorem ledger_trySubMonitorServices : (h.trySubMonitorServices env).ledger = h.ledger := by
  unfold trySubMonitorServices
  split_ifs <;> rfl

theorem ledger_applyBool {f : Host → Bool → Host} (hf : ∀ h on, (f h on).ledger = h.ledger)
    (compiled : Bool) (field : BoolField) : (applyBool compiled field f h).ledger = h.ledger := by
  unfold applyBool
  split
  · split
    · exact hf h true
    · exact hf h false
    · rfl
    · rfl
  · rfl

@[simp] theorem ledger_subscribeFileClipboard : (h.subscribeFileClipboard env).ledger = h.ledger := by
  unfold subscribeFileClipboard
  split_ifs <;> simp

@[simp] theorem ledger_subscribeClipboard : (h.subscribeClipboard env).ledger = h.ledger := by
  simp [subscribeClipboard]

@[simp] theorem ledger_subscribeCursor : (h.subscribeCursor env).ledger = h.ledger := by
  simp [subscribeCursor]

@[simp] theorem ledger_subscribeAudio : (h.subscribeAudio env).ledger = h.ledger := by
  unfold subscribeAudio
  split_ifs <;> simp

section

variable (on : Bool)

theorem ledger_setShowRemoteCursor : (h.setShowRemoteCursor env on).ledger = h.ledger := by
  simp only [setShowRemoteCursor, ledger_subscribe, ledger_subscribeCursor]
  rfl

theorem ledger_setFollowRemoteWindow : (h.setFollowRemoteWindow env on).ledger = h.ledger := by
  simp only [setFollowRemoteWindow, ledger_subscribe]
  rfl

theorem ledger_setDisableAudio : (h.setDisableAudio env on).ledger = h.ledger := by
  simp only [setDisableAudio, ledger_subscribeAudio]
  rfl

theorem ledger_setEnableFileTransfer : (h.setEnableFileTransfer env on).ledger = h.ledger := by
  simp only [setEnableFileTransfer, ledger_subscribeFileClipboard]
  split_ifs <;> rfl

theorem ledger_setDisableClipboard : (h.setDisableClipboard env on).ledger = h.ledger := by
  simp only [setDisableClipboard, ledger_subscribeClipboard]
  rfl

theorem ledger_setDisableKeyboard : (h.setDisableKeyboard env on).ledger = h.ledger := by
  simp only [setDisableKeyboard, ledger_subscribeCursor, ledger_subscribeFileClipboard, ledger_subscribeClipboard]
  rfl

theorem ledger_setPrivacyModeOption : (h.setPrivacyModeOption on).ledger = h.ledger := by
  unfold setPrivacyModeOption
  split_ifs <;> rfl

theorem ledger_setBlockInput : (h.setBlockInput on).ledger = h.ledger := by
  unfold setBlockInput
  split_ifs <;> rfl

end

@[simp] theorem ledger_updateOptions (o : OptionMessage) : (h.updateOptions env o).ledger = h.ledger := by
  unfold updateOptions
  dsimp only
  have hshow : ∀ h on, (setShowMyCursor h on).ledger = h.ledger := fun _ _ => rfl
  have hpersistent : ∀ h on, (setTerminalPersistent h on).ledger = h.ledger := fun _ _ => rfl
  have hfollow : ∀ h on, (setFollowRemoteCursor h on).ledger = h.ledger := fun _ _ => rfl
  have hlock : ∀ h on, (setLockAfterSessionEnd h on).ledger = h.ledger := fun _ _ => rfl
  rw [ledger_applyBool _ hshow, ledger_applyBool _ hpersistent,
    ledger_applyBool _ ledger_setBlockInput, ledger_applyBool _ ledger_setPrivacyModeOption,
    ledger_applyBool _ (ledger_setDisableKeyboard env), ledger_applyBool _ (ledger_setDisableClipboard env),
    ledger_applyBool _ (ledger_setEnableFileTransfer env), ledger_applyBool _ (ledger_setDisableAudio env),
    ledger_applyBool _ (ledger_setFollowRemoteWindow env), ledger_applyBool _ hfollow,
    ledger_applyBool _ (ledger_setShowRemoteCursor env), ledger_applyBool _ hlock]

@[simp] theorem ledger_handleVoiceCall (accepted : Bool) :
    (h.handleVoiceCall env accepted).ledger = h.ledger := by
  unfold handleVoiceCall
  split
  · cases accepted <;> simp only [] <;> split_ifs <;> rfl
  · rfl

@[simp] theorem ledger_closeVoiceCall : (h.closeVoiceCall env).ledger = h.ledger := by
  unfold closeVoiceCall
  dsimp only
  split_ifs
  · rw [ledger_subscribe]
    rfl
  · rfl

@[simp] theorem ledger_switchPermission (name : String) (enabled : Bool) :
    (h.switchPermission env name enabled).ledger = h.ledger := by
  unfold switchPermission
  split_ifs
  · simp only [switchKeyboard, ledger_subscribe, ledger_subscribeFileClipboard, ledger_subscribeClipboard, ledger_emit]
    rfl
  · simp only [switchClipboard, ledger_subscribeClipboard, ledger_emit]
    rfl
  · simp only [switchAudio]
    split_ifs
    · simp only [ledger_subscribeAudio, ledger_emit]
      rfl
    · rfl
  · simp only [switchFile, ledger_subscribeFileClipboard, ledger_emit]
    rfl
  · rfl
  · rfl
  · rfl
  · unfold switchPrivacyMode
    dsimp only
    split_ifs <;> rfl
  · rfl

end Services

/-! ## The handlers of a session -/

section Session

variable (env : Env) (h : Host) (m : Message)

@[simp] theorem ledger_onTestDelay (fromClient : Bool) : (h.onTestDelay fromClient).ledger = h.ledger := by
  cases fromClient <;> rfl

theorem ledger_onMouseEvent : (h.onMouseEvent env m).ledger = h.ledger := by
  unfold onMouseEvent
  split_ifs <;> rfl

theorem ledger_onPointerDeviceEvent : (h.onPointerDeviceEvent env m).ledger = h.ledger := by
  unfold onPointerDeviceEvent
  split_ifs <;> rfl

theorem ledger_onKeyEvent : (h.onKeyEvent env m).ledger = h.ledger := by
  unfold onKeyEvent
  split_ifs <;> rfl

theorem ledger_onTextClipboard : (h.onTextClipboard m).ledger = h.ledger := by
  unfold onTextClipboard
  split_ifs <;> rfl

theorem ledger_onCliprdr (files : Bool) (body : Bytes) : (h.onCliprdr env files body).ledger = h.ledger := by
  unfold onCliprdr
  dsimp only
  split_ifs <;> rfl

theorem ledger_performFileAction (action : FileAction) : (h.performFileAction action).ledger = h.ledger := by
  unfold performFileAction
  split
  · rfl
  · split_ifs <;> rfl
  · rfl
  · rfl

theorem ledger_onFileAction (action : Option FileAction) : (h.onFileAction env action).ledger = h.ledger := by
  unfold onFileAction
  split
  · rfl
  · split_ifs
    · rfl
    · split <;> rfl
    · rfl
    · exact ledger_performFileAction h _

theorem ledger_onOption (o : OptionMessage) : (h.onOption env o).ledger = h.ledger := by
  unfold onOption
  split <;> simp

theorem ledger_onAudioFormat : (h.onAudioFormat m).ledger = h.ledger := by
  unfold onAudioFormat
  split_ifs <;> rfl

theorem ledger_onAudioFrame : (h.onAudioFrame m).ledger = h.ledger := by
  unfold onAudioFrame
  split_ifs <;> rfl

theorem ledger_onVoiceCallRequest (reqTimestamp : Int) (isConnect : Bool) :
    (h.onVoiceCallRequest env reqTimestamp isConnect).ledger = h.ledger := by
  cases isConnect
  · exact ledger_closeVoiceCall env h
  · rfl

theorem ledger_onRenderBroadcast : (h.onRenderBroadcast m).ledger = h.ledger := by
  unfold onRenderBroadcast
  split_ifs <;> rfl

theorem ledger_onDisplayChange : (h.onDisplayChange m).ledger = h.ledger := by
  unfold onDisplayChange
  split_ifs <;> rfl

theorem ledger_onSelectedSid (sid : ℕ) : (h.onSelectedSid env sid).1.ledger = h.ledger := by
  unfold onSelectedSid
  split_ifs
  · rfl
  · rfl
  · split <;> rfl
  · rfl
  · simp
  · rfl

/-- The ledger is as it was, or the connection was closed. -/
def LedgerKept (h h' : Host) : Prop :=
  h'.ledger = h.ledger ∨ h'.ledger = { h.ledger with socket := none }

theorem LedgerKept.of_eq {h h' : Host} (heq : h'.ledger = h.ledger) : LedgerKept h h' := .inl heq

theorem LedgerKept.onClose {h h' : Host} (heq : h'.ledger = h.ledger) : LedgerKept h (h'.onClose env) := by
  obtain hclose | hclose := ledger_onClose env h'
  · exact .inl (hclose.trans heq)
  · exact .inr (by rw [hclose, heq])

theorem ledgerKept_onSwitchSidesRequest (uuid : Bytes) : LedgerKept h (h.onSwitchSidesRequest env uuid).1 := by
  unfold onSwitchSidesRequest
  split_ifs
  · exact LedgerKept.onClose env rfl
  · exact .of_eq rfl

theorem ledgerKept_onMisc (misc : Option Misc) : LedgerKept h (h.onMisc env misc).1 := by
  unfold onMisc
  dsimp only
  split
  · exact .of_eq rfl
  · exact .of_eq (ledger_onOption env h _)
  · exact .of_eq (ledger_onRenderBroadcast h _)
  · exact .of_eq (ledger_onRenderBroadcast h _)
  · split_ifs
    · exact .of_eq (ledger_onDisplayChange h _)
    · exact .of_eq rfl
  · exact .of_eq (ledger_onDisplayChange h _)
  · split_ifs
    · exact .of_eq (ledger_onDisplayChange h _)
    · exact .of_eq rfl
  · split_ifs
    · exact .of_eq (ledger_onDisplayChange h _)
    · exact .of_eq rfl
  · split_ifs <;> exact .of_eq rfl
  · split_ifs <;> exact .of_eq rfl
  · exact .of_eq (ledger_onAudioFormat h _)
  · exact ledgerKept_onSwitchSidesRequest env h _
  · exact .of_eq (ledger_onSelectedSid env h _)
  all_goals exact .of_eq rfl

/-- Behind the filter the ledger only learns of terminal actions. -/
theorem ledger_serve_cases :
    LedgerKept h (h.serve env m).1 ∨
      (∃ body, m = .terminalAction body) ∧ h.conn.terminalUserToken.isSome = true ∧
        (h.serve env m).1.ledger = h.ledger.push (.terminalAction h.conn.authorized h.conn.authedConnId) := by
  cases m with
  | mouseEvent body => exact .inl (.of_eq (ledger_onMouseEvent env h _))
  | pointerDeviceEvent body => exact .inl (.of_eq (ledger_onPointerDeviceEvent env h _))
  | keyEvent body => exact .inl (.of_eq (ledger_onKeyEvent env h _))
  | clipboard body => exact .inl (.of_eq (ledger_onTextClipboard h _))
  | multiClipboards body => exact .inl (.of_eq (ledger_onTextClipboard h _))
  | cliprdr files body => exact .inl (.of_eq (ledger_onCliprdr env h files body))
  | fileAction action => exact .inl (.of_eq (ledger_onFileAction env h action))
  | misc misc => exact .inl (ledgerKept_onMisc env h misc)
  | audioFrame data => exact .inl (.of_eq (ledger_onAudioFrame h _))
  | voiceCallRequest timestamp connect =>
    exact .inl (.of_eq (ledger_onVoiceCallRequest env h timestamp connect))
  | terminalAction body =>
    unfold serve handleTerminalAction
    dsimp only
    split_ifs with hdesktop htoken
    · exact .inr ⟨⟨body, rfl⟩, htoken, rfl⟩
    · exact .inl (.of_eq rfl)
    · exact .inl (.of_eq rfl)
  | _ => exact .inl (.of_eq rfl)

theorem ledger_noteScopeViolation (message : String) : (h.noteScopeViolation message).ledger = h.ledger := by
  unfold noteScopeViolation
  dsimp only
  split_ifs <;> rfl

theorem ledgerKept_handleAuthorizedScopeViolation (message : String) :
    LedgerKept h (h.handleAuthorizedScopeViolation env message).1 := by
  have hnote := ledger_noteScopeViolation h message
  unfold handleAuthorizedScopeViolation
  dsimp only
  split_ifs
  · exact LedgerKept.onClose env (by rw [ledger_sendCloseReasonNoRetry, hnote])
  · exact .of_eq hnote

end Session

end Host

end UnyDesk
