import UnyDesk.Connection.SubscriptionRun

/-!
# What hardly anything changes

The playback of the peer's audio and the closing of the connection are each decided in one or two
places. No login, no option, no permission and no voice call touches them.
-/

namespace UnyDesk

open Host Prod

section Steady

variable {env : Env} {h : Host} {m : Message}

/-- No option of the peer touches the playback or closes the connection. -/
theorem updateOptions_steady (o : OptionMessage) : (h.updateOptions env o).conn.steady = h.conn.steady := by
  have hkeep : ∀ {f : Host → Bool → Host} (compiled : Bool) (field : BoolField) {h₁ : Host},
      (∀ h on, (f h on).conn.steady = h.conn.steady) →
      h₁.conn.steady = h.conn.steady →
      (applyBool compiled field f h₁).conn.steady = h.conn.steady := by
    intro f compiled field h₁ hf hh₁
    exact applyBool_keeps (P := fun h₂ : Host => h₂.conn.steady = h.conn.steady) compiled field
      (fun h₂ on hh₂ => (hf h₂ on).trans hh₂) hh₁
  unfold updateOptions
  refine hkeep _ _ (fun h on => rfl) ?_
  refine hkeep _ _ (fun h on => rfl) ?_
  refine hkeep _ _ (fun h on => congrArg (·.1.steady) (feed_setBlockInput h on)) ?_
  refine hkeep _ _ (fun h on => congrArg (·.1.steady) (feed_setPrivacyModeOption h on)) ?_
  refine hkeep _ _ (fun h on => ?_) (hkeep _ _ (fun h on => ?_) (hkeep _ _ (fun h on => ?_)
    (hkeep _ _ (fun h on => ?_) (hkeep _ _ (fun h on => ?_) (hkeep _ _ (fun h on => rfl)
      (hkeep _ _ (fun h on => ?_) (hkeep _ _ (fun h on => rfl) rfl)))))))
  · unfold setDisableKeyboard subscribeCursor
    simp only [subscribe_conn, subscribeFileClipboard_conn, subscribeClipboard_conn]
    rfl
  · unfold setDisableClipboard
    rw [subscribeClipboard_conn]
    rfl
  · unfold setEnableFileTransfer
    rw [subscribeFileClipboard_conn]
    split_ifs <;> rfl
  · unfold setDisableAudio
    rw [subscribeAudio_conn]
    rfl
  · unfold setFollowRemoteWindow
    rw [subscribe_conn]
    rfl
  · unfold setShowRemoteCursor subscribeCursor
    simp only [subscribe_conn]
    rfl

theorem startSession_steady (subService waitSessionIdConfirm : Bool) :
    (h.startSession env subService waitSessionIdConfirm).conn.steady = h.conn.steady := by
  unfold startSession
  split
  · dsimp only
    split_ifs <;> rfl
  · split_ifs
    · exact congrArg (·.1.steady) (feed_initTerminalService _)
    · rfl
    · rfl
    · unfold trySubMonitorServices
      split_ifs <;> rfl
    · rfl

theorem updateScopedLoginOptions_steady : (h.updateScopedLoginOptions env).conn.steady = h.conn.steady := by
  unfold updateScopedLoginOptions
  split
  · rfl
  · dsimp only
    split
    · rfl
    · split
      · exact updateOptions_steady _
      · rfl

/-- The admission of a connection touches neither, so no login does. -/
theorem steady_loginRule (env : Env) (b : Bool × Bool) : LoginRule env fun h => h.conn.steady = b where
  of_feed := by
    intro h h' hb heq
    exact (congrArg (fun feed => feed.1.steady) heq).trans hb
  entry := by
    intro h hb _
    have hauthorize : h.authorize.conn.steady = b :=
      (congrArg (fun feed => feed.1.steady) authorize_feed).trans hb
    unfold respondLogon
    split_ifs
    · exact hauthorize
    · exact hauthorize
    · rw [startSession_steady, updateScopedLoginOptions_steady]
      exact hauthorize

/-- A handler that touches neither, or closes the connection and ends the loop. -/
def KeepsSteady (h : Host) (r : Handled) : Prop :=
  r.1.conn.steady = h.conn.steady ∨ r.2 = false ∧ r.1.conn.steady = (h.conn.audioSender, true)

theorem KeepsSteady.of_eq {r : Handled} (heq : r.1.conn.steady = h.conn.steady) : KeepsSteady h r := .inl heq

theorem KeepsSteady.of_feed {r : Handled} (hkeeps : h.KeepsFeed r) : KeepsSteady h r := by
  rcases hkeeps with ⟨-, heq⟩ | ⟨hflag, heq⟩
  · exact .inl (congrArg (fun feed => feed.1.steady) heq)
  · exact .inr ⟨hflag, congrArg (fun feed => feed.1.steady) heq⟩

/-- The messages that carry or announce audio. -/
def Message.isAudio : Message → Bool
  | .audioFrame _ => true
  | .misc (some (.audioFormat _ _)) => true
  | _ => false

theorem serve_steady (hm : ∀ rate channels, m ≠ .misc (some (.audioFormat rate channels))) :
    KeepsSteady h (h.serve env m) := by
  by_cases hfeeds : m.feeds = false
  · exact .of_eq (congrArg (fun feed => feed.1.steady) (feed_serve env h m hfeeds))
  · unfold Message.feeds at hfeeds
    split at hfeeds
    · next o =>
      refine .of_eq ?_
      change (h.onOption env o).conn.steady = h.conn.steady
      unfold onOption
      split
      · exact updateOptions_steady _
      · rfl
    · next rate channels => exact absurd rfl (hm rate channels)
    · next uuid => exact .of_feed (keepsFeed_onSwitchSidesRequest env h uuid)
    · next sid =>
      refine .of_eq ?_
      change (h.onSelectedSid env sid).1.conn.steady = h.conn.steady
      unfold onSelectedSid trySubMonitorServices
      split_ifs
      · rfl
      · rfl
      · split <;> rfl
      all_goals rfl
    · next timestamp isConnect =>
      refine .of_eq ?_
      change (h.onVoiceCallRequest env timestamp isConnect).conn.steady = h.conn.steady
      unfold onVoiceCallRequest
      by_cases hconnect : isConnect = true
      · rw [if_pos hconnect]
        rfl
      · rw [if_neg hconnect]
        exact congrArg snd (voiceCall_aside false).2
    · exact absurd rfl hfeeds

theorem dispatch_steady (hm : m.isAudio = false) : KeepsSteady h (h.dispatch env m) := by
  have rule := steady_loginRule env h.conn.steady
  have hstored : ∀ lr, (h.handleLoginRequestWithoutValidation lr).conn.steady = h.conn.steady :=
    fun _ => congrArg (fun feed => feed.1.steady) feed_handleLoginRequestWithoutValidation
  unfold dispatch
  split
  · next lr => exact .of_eq (rule.onLoginRequest (hstored lr))
  · next tfa => exact .of_eq (rule.onAuth2fa rfl tfa)
  · exact .of_eq (congrArg (fun feed => feed.1.steady) (feed_onTestDelay h _))
  · next s => exact .of_eq (rule.onSwitchSidesResponse rfl fun lr _ => hstored lr)
  · split
    · refine serve_steady fun rate channels heq => ?_
      rw [heq] at hm
      cases hm
    · exact .of_eq rfl

theorem onMessage_steady (hm : m.isAudio = false) : KeepsSteady h (h.onMessage env m) := by
  unfold onMessage
  split
  · exact .inr ⟨rfl, congrArg (fun feed => feed.1.steady) (feed_onClose env h)⟩
  · split
    · unfold guardAuthorized
      split
      · exact .of_eq rfl
      · split
        · exact .of_feed (keepsFeed_handleAuthorizedScopeViolation env h _)
        · exact dispatch_steady hm
    · exact dispatch_steady hm

/-- What the loop makes of a message is decided by its handler. -/
theorem receive_of_onMessage {h' : Host} {keep : Bool} (heq : h.onMessage env m = (h', keep)) :
    (h.receive env m).conn = h'.conn ∧ (h.receive env m).out = h'.out ∧
      (keep = false → (h.receive env m).alive = false) := by
  unfold receive
  rw [heq]
  cases keep
  · exact ⟨rfl, rfl, fun _ => rfl⟩
  · dsimp only
    split_ifs <;> exact ⟨rfl, rfl, nofun⟩

/-- No other event of the loop touches the playback, and those that close the connection end it. -/
theorem event_steady {e : Event} (he : ∀ m, e ≠ .message m) : KeepsSteady h (h.step env e, (h.step env e).alive) := by
  have hclose : ∀ h₁ : Host, h₁.conn.steady = h.conn.steady →
      ((h₁.onClose env).stop).conn.steady = (h.conn.audioSender, true) := by
    intro h₁ heq
    have hshut : (h₁.onClose env).conn.steady = (h₁.conn.audioSender, true) :=
      congrArg (fun feed => feed.1.steady) (feed_onClose env h₁)
    exact hshut.trans (congrArg (·, true) (congrArg fst heq))
  unfold step
  split_ifs
  · cases e with
    | message m => exact absurd rfl (he m)
    | authorize => exact .of_eq ((steady_loginRule env h.conn.steady).onAuthorize rfl)
    | close => exact .inr ⟨rfl, hclose _ rfl⟩
    | cmErr text =>
      unfold react onCmErr
      dsimp only
      split_ifs
      · exact .inr ⟨rfl, hclose h rfl⟩
      · exact .of_eq rfl
    | switchPermission name enabled => exact .of_eq (congrArg snd (switchPermission_aside name enabled))
    | switchSidesBack =>
      unfold react onSwitchSidesBack
      dsimp only
      split_ifs <;> exact .of_eq rfl
    | voiceCallResponse accepted => exact .of_eq (congrArg snd (voiceCall_aside accepted).1)
    | closeVoiceCall => exact .of_eq (congrArg snd (voiceCall_aside false).2)
    | testDelayTimer =>
      unfold react onTestDelayTimer
      dsimp only
      split_ifs <;> exact .of_eq rfl
    | hangUp => exact .inr ⟨rfl, hclose h rfl⟩
    | shutDown reason => exact .inr ⟨rfl, hclose _ rfl⟩
    | chatMessage text => exact .of_eq rfl
    | worldChange w => exact .of_eq rfl
  · exact .of_eq rfl

/-- An event that carries no audio touches neither, or closes the connection and ends the loop. -/
theorem step_steady {e : Event} (he : ∀ m, e = .message m → m.isAudio = false) :
    KeepsSteady h (h.step env e, (h.step env e).alive) := by
  by_cases hmessage : ∃ m, e = .message m
  · obtain ⟨m, rfl⟩ := hmessage
    have hkeeps : KeepsSteady h (h.onMessage env m) := onMessage_steady (he m rfl)
    by_cases halive : h.alive = true
    · have hstep : h.step env (.message m) = h.receive env m := if_pos halive
      obtain ⟨hconn, -, hends⟩ : (h.receive env m).conn = (h.onMessage env m).1.conn ∧ _ ∧
          ((h.onMessage env m).2 = false → (h.receive env m).alive = false) :=
        receive_of_onMessage mk.eta.symm
      rw [hstep]
      rcases hkeeps with heq | ⟨hflag, heq⟩
      · exact .of_eq ((congrArg Connection.steady hconn).trans heq)
      · exact .inr ⟨hends hflag, (congrArg Connection.steady hconn).trans heq⟩
    · have hstep : h.step env (.message m) = h := if_neg halive
      rw [hstep]
      exact .of_eq rfl
  · exact event_steady fun m heq => hmessage ⟨m, heq⟩

end Steady

end UnyDesk
