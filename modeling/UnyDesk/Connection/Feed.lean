import UnyDesk.Connection.Reachable

/-!
# What a session is fed

The permissions, the options of the peer, the voice call, the playback of the peer's audio and
the subscriptions of a connection: everything that decides which services it may hear and which
it does. Most of the connection
leaves it alone; as for the ledger, each handler has one lemma that says so.
-/

namespace UnyDesk

/-- The fields that subscriptions depend on; all others are blank. -/
def Connection.feed (c : Connection) : Connection :=
  { hash := { salt := "", challenge := "" }
    optionsInLogin := c.optionsInLogin
    authorized := c.authorized
    authedConnId := c.authedConnId
    keyboard := c.keyboard
    clipboard := c.clipboard
    audio := c.audio
    file := c.file
    restart := false
    recording := false
    blockInput := false
    privacyMode := false
    showRemoteCursor := c.showRemoteCursor
    disableKeyboard := c.disableKeyboard
    disableClipboard := c.disableClipboard
    disableAudio := c.disableAudio
    enableFileTransfer := c.enableFileTransfer
    audioSender := c.audioSender
    voiceCalling := c.voiceCalling
    closed := c.closed }

/-- The messages of a session that change what it is fed: its options, the format of the audio
that follows, a voice call, a switch of sides and, on Windows, the choice of a session. -/
def Message.feeds : Message → Bool
  | .misc (some (.option _)) => true
  | .misc (some (.audioFormat _ _)) => true
  | .misc (some (.switchSidesRequest _)) => true
  | .misc (some (.selectedSid _)) => true
  | .voiceCallRequest _ _ => true
  | _ => false

namespace Host

/-- What the connection may hear and what it does hear. -/
def feed (h : Host) : Connection × (ServiceName → Bool) := (h.conn.feed, h.subs)

section Frame

variable (env : Env) (h : Host)

@[simp] theorem feed_emit (o : Output) : (h.emit o).feed = h.feed := rfl

@[simp] theorem feed_sendLoginError (err : String) : (h.sendLoginError err).feed = h.feed := rfl

@[simp] theorem feed_noteFailureCheck (scope : FailureScope) (check : FailureCheck) :
    (h.noteFailureCheck scope check).feed = h.feed := by
  unfold noteFailureCheck
  cases scope <;> dsimp only <;> split <;> rfl

theorem feed_isRecentSession (tfa : Bool) : (h.isRecentSession env tfa).1.feed = h.feed := by
  unfold isRecentSession
  dsimp only
  split_ifs <;> rfl

theorem feed_validatePassword (allowPermanentPassword : Bool) :
    (h.validatePassword env allowPermanentPassword).1.feed = h.feed := by
  unfold validatePassword
  split <;> rfl

end Frame

/-! ## Options that feed nothing -/

section Options

variable (h : Host) (on : Bool)

theorem feed_setLockAfterSessionEnd : (h.setLockAfterSessionEnd on).feed = h.feed := rfl

theorem feed_setFollowRemoteCursor : (h.setFollowRemoteCursor on).feed = h.feed := rfl

theorem feed_setTerminalPersistent : (h.setTerminalPersistent on).feed = h.feed := rfl

theorem feed_setShowMyCursor : (h.setShowMyCursor on).feed = h.feed := rfl

theorem feed_setPrivacyModeOption : (h.setPrivacyModeOption on).feed = h.feed := by
  unfold setPrivacyModeOption
  split_ifs <;> rfl

theorem feed_setBlockInput : (h.setBlockInput on).feed = h.feed := by
  unfold setBlockInput
  split_ifs <;> rfl

end Options

/-! ## The logon -/

section Logon

variable (env : Env) (h : Host)

theorem feed_checkTerminalServiceUser (token : TerminalUserToken) (isTerminalOsLogin : Bool) :
    (h.checkTerminalServiceUser token isTerminalOsLogin).1.feed = h.feed := by
  unfold checkTerminalServiceUser
  split
  · split_ifs <;> rfl
  · dsimp only
    split_ifs <;> rfl

theorem feed_fillTerminalUser (check : Option FailureCheck) : (h.fillTerminalUser env check).1.feed = h.feed := by
  unfold fillTerminalUser
  dsimp only
  split
  · cases check <;> rfl
  · rw [feed_checkTerminalServiceUser]
    cases check <;> rfl

theorem feed_prepareTerminalLoginForAuthorization : (h.prepareTerminalLoginForAuthorization env).1.feed = h.feed := by
  unfold prepareTerminalLoginForAuthorization
  dsimp only
  split_ifs
  · rfl
  · exact feed_noteFailureCheck h _ _
  · simp
  · rw [feed_fillTerminalUser, feed_noteFailureCheck]
  · exact feed_fillTerminalUser env h none

theorem feed_connectPortForwardIfNeeded : h.connectPortForwardIfNeeded.1.feed = h.feed := by
  unfold connectPortForwardIfNeeded
  split
  · rfl
  · split
    · dsimp only
      split_ifs <;> rfl
    · rfl

theorem feed_initTerminalService : h.initTerminalService.feed = h.feed := by
  unfold initTerminalService
  split_ifs <;> rfl

theorem feed_askUser (lr : LoginRequest) : (h.askUser env lr).1.feed = h.feed := by
  unfold askUser
  by_cases hos : (env.build.desktop && shouldUseTerminalOsLoginScope env h.conn.terminal
      lr.osLoginOrDefault.username) = true
  · have hprepare := feed_prepareTerminalLoginForAuthorization env h
    rw [if_pos hos]
    rcases hresult : h.prepareTerminalLoginForAuthorization env with ⟨h₁, _ | keep⟩ <;>
      rw [hresult] at hprepare <;> exact hprepare
  · rw [if_neg hos]
    rfl

theorem feed_trustDevice (hwid : Bytes) : (h.trustDevice hwid).feed = h.feed := by
  unfold trustDevice
  split_ifs <;> rfl

theorem feed_selectScope {h' : Host} {lr : LoginRequest} (hscope : h.selectScope env lr = .ok h') :
    h'.feed = h.feed := by
  rw [(selectScope_spec env h hscope).2]
  rfl

end Logon

/-! ## The session -/

section Session

variable (env : Env) (h : Host) (m : Message)

/-- The connection is closed; its feed is as it was otherwise. -/
def shut (h : Host) : Host := h.updateConn fun c => { c with closed := true }

theorem feed_shut_congr {h h' : Host} (heq : h'.feed = h.feed) : h'.shut.feed = h.shut.feed :=
  congrArg (fun feed : Connection × (ServiceName → Bool) => ({ feed.1 with closed := true }, feed.2)) heq

theorem feed_onClose : (h.onClose env).feed = h.shut.feed := by
  unfold onClose
  split_ifs with hclosed
  · refine Prod.ext ?_ rfl
    change h.conn.feed = { h.conn.feed with closed := true }
    rw [← hclosed]
    rfl
  · rfl

/-- A handler that keeps the feed, or closes the connection and ends the loop. -/
def KeepsFeed (h : Host) (r : Handled) : Prop :=
  r.2 = true ∧ r.1.feed = h.feed ∨ r.2 = false ∧ r.1.feed = h.shut.feed

theorem feed_noteScopeViolation (message : String) : (h.noteScopeViolation message).feed = h.feed := by
  unfold noteScopeViolation
  dsimp only
  split_ifs <;> rfl

theorem keepsFeed_handleAuthorizedScopeViolation (message : String) :
    h.KeepsFeed (h.handleAuthorizedScopeViolation env message) := by
  have hnote := feed_noteScopeViolation h message
  unfold handleAuthorizedScopeViolation
  dsimp only
  split_ifs
  · exact .inr ⟨rfl, (feed_onClose env _).trans (feed_shut_congr hnote)⟩
  · exact .inl ⟨rfl, hnote⟩

theorem feed_onTestDelay (fromClient : Bool) : (h.onTestDelay fromClient).feed = h.feed := by
  unfold onTestDelay
  split_ifs <;> rfl

theorem feed_onFileAction (action : Option FileAction) : (h.onFileAction env action).feed = h.feed := by
  unfold onFileAction performFileAction
  split
  · rfl
  · split_ifs
    · rfl
    · split <;> rfl
    · rfl
    · split <;> try split_ifs
      all_goals rfl

theorem keepsFeed_onSwitchSidesRequest (uuid : Bytes) : h.KeepsFeed (h.onSwitchSidesRequest env uuid) := by
  unfold onSwitchSidesRequest
  split_ifs
  · exact .inr ⟨rfl, feed_onClose env _⟩
  · exact .inl ⟨rfl, rfl⟩

theorem feed_onMisc {misc : Option Misc} (hmisc : (Message.misc misc).feeds = false) :
    (h.onMisc env misc).1.feed = h.feed := by
  unfold onMisc onRenderBroadcast onDisplayChange onAudioFormat
  dsimp only
  split
  all_goals first
    | rfl
    | (split_ifs <;> rfl)
    | cases hmisc

/-- Behind the filter only a few messages feed the session. -/
theorem feed_serve (hm : m.feeds = false) : (h.serve env m).1.feed = h.feed := by
  cases m with
  | misc misc => exact feed_onMisc env h hm
  | fileAction action => exact feed_onFileAction env h action
  | voiceCallRequest _ _ => cases hm
  | mouseEvent body =>
    unfold serve onMouseEvent
    dsimp only
    split_ifs <;> rfl
  | pointerDeviceEvent body =>
    unfold serve onPointerDeviceEvent
    dsimp only
    split_ifs <;> rfl
  | keyEvent body =>
    unfold serve onKeyEvent
    dsimp only
    split_ifs <;> rfl
  | clipboard body =>
    unfold serve onTextClipboard
    dsimp only
    split_ifs <;> rfl
  | multiClipboards body =>
    unfold serve onTextClipboard
    dsimp only
    split_ifs <;> rfl
  | cliprdr files body =>
    unfold serve onCliprdr
    dsimp only
    split_ifs <;> rfl
  | audioFrame data =>
    unfold serve onAudioFrame
    dsimp only
    split_ifs <;> rfl
  | terminalAction body =>
    unfold serve handleTerminalAction
    dsimp only
    split_ifs <;> rfl
  | _ => rfl

/-- Telling the peer its permissions changes nothing. -/
theorem feed_announcePermissions : (h.announcePermissions env).feed = h.feed := by
  unfold announcePermissions
  dsimp only
  generalize (_ ++ _ : List (Permission × Bool)) = entries
  induction entries generalizing h with
  | nil => rfl
  | cons entry entries ih => exact ih (h.emit (.permission entry.1 entry.2))

end Session

end Host

end UnyDesk
