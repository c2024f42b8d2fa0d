import UnyDesk.Connection.Steady

/-!
# Playback of the peer's audio

The peer announces a format, which starts the playback, and then sends frames. The user answers
voice calls, and either side ends them. Nothing ties the playback to the call: a format starts it
without one, and the end of a call leaves it running. So a frame is played outside a call exactly
when a format came before it and the audio of the session is not disabled.
-/

namespace UnyDesk

open Lib Host Connection List

/-- What a run did about voice calls and playback. -/
inductive CallMark
  | playback
  | accepted
  | ended
deriving DecidableEq

namespace Host

/-- The message gets through to the handlers of the session. -/
def serves (env : Env) (h : Host) (m : Message) : Bool :=
  h.alive && h.conn.authorized && h.conn.portForwardSocket.isNone
    && (authorizedScopeViolation env.build h.conn.authedConnId m).isNone

/-- What one event does about voice calls and playback. -/
def callMarks (env : Env) (h : Host) : Event → List CallMark
  | .message (.misc (some (.audioFormat sampleRate channels))) =>
    if h.serves env (.misc (some (.audioFormat sampleRate channels))) && !h.conn.disableAudio then
      [.playback] else []
  | .message (.voiceCallRequest timestamp false) =>
    if h.serves env (.voiceCallRequest timestamp false) then [.ended] else []
  | .voiceCallResponse true =>
    if h.alive && h.conn.voiceCallRequestTimestamp.isSome then [.accepted] else []
  | .closeVoiceCall => if h.alive then [.ended] else []
  | _ => []

/-- What a run did about voice calls and playback, newest entry first. -/
def callHistory (env : Env) : Host → List Event → List CallMark
  | _, [] => []
  | h, e :: es => callHistory env (h.step env e) es ++ h.callMarks env e

end Host

/-- The user accepted a call since the last one was closed. -/
def callActive (calls : List CallMark) : Bool := heldSince (· = .ended) (· = .accepted) calls

section Step

variable {env : Env} {h : Host} {m : Message}

theorem dispatch_audio (env : Env) (h : Host) (hm : m.isAudio = true) : h.dispatch env m =
      if h.conn.authorized && h.conn.portForwardSocket.isNone then h.serve env m else (h, true) := by
  unfold Message.isAudio at hm
  split at hm
  · rfl
  · rfl
  · cases hm

theorem guardAuthorized_audio (env : Env) (h : Host) (hm : m.isAudio = true) : h.guardAuthorized env m =
      match authorizedScopeViolation env.build h.conn.authedConnId m with
      | some message => h.handleAuthorizedScopeViolation env message
      | none => h.dispatch env m := by
  unfold Message.isAudio at hm
  split at hm
  · rfl
  · rfl
  · cases hm

/-- What happens to an audio message on its way to the session. -/
theorem onMessage_audio (env : Env) (h : Host) (hm : m.isAudio = true) :
    (h.conn.authorized = false ∧ h.onMessage env m = (h, true)) ∨ h.conn.authorized = true ∧
        ((∃ message, authorizedScopeViolation env.build h.conn.authedConnId m = some message ∧
            h.onMessage env m = h.handleAuthorizedScopeViolation env message) ∨
          authorizedScopeViolation env.build h.conn.authedConnId m = none ∧
            h.onMessage env m = if h.conn.portForwardSocket.isNone then h.serve env m else (h, true)) := by
  have hmessage : h.onMessage env m = if h.conn.authorized then h.guardAuthorized env m else h.dispatch env m := by
    unfold Message.isAudio at hm
    split at hm
    · rfl
    · rfl
    · cases hm
  have hdispatch := dispatch_audio env h hm
  cases hauth : h.conn.authorized with
  | false =>
    rw [hauth, Bool.false_and, if_neg Bool.false_ne_true] at hdispatch
    rw [hauth, if_neg Bool.false_ne_true, hdispatch] at hmessage
    exact .inl ⟨rfl, hmessage⟩
  | true =>
    rw [hauth, Bool.true_and] at hdispatch
    rw [hauth, if_pos rfl, guardAuthorized_audio env h hm] at hmessage
    refine .inr ⟨rfl, ?_⟩
    split at hmessage
    next message hscope => exact .inl ⟨message, hscope, hmessage⟩
    next hscope => exact .inr ⟨hscope, hmessage.trans hdispatch⟩

/-- A violation of the scope is reported, which forwards nothing. -/
theorem handleAuthorizedScopeViolation_out (message : String) (m : Message) :
    (h.handleAuthorizedScopeViolation env message).1.out ≠ .forwarded m :: h.out := by
  have hclose : ∀ h : Host, (h.onClose env).out = h.out := by
    intro h
    unfold onClose
    split_ifs <;> rfl
  have hnote : (h.noteScopeViolation message).out = h.out ∨
      (h.noteScopeViolation message).out = .alarm .sessionScopeViolation :: h.out := by
    unfold noteScopeViolation
    dsimp only
    split_ifs
    · exact .inl rfl
    · exact .inr rfl
    · exact .inl rfl
  unfold handleAuthorizedScopeViolation
  dsimp only
  split_ifs
  · rw [hclose]
    exact fun heq => Output.noConfusion (cons.inj heq).1
  · rcases hnote with heq | heq <;> rw [heq]
    · exact (cons_ne_self _ _).symm
    · exact fun hcons => Output.noConfusion (cons.inj hcons).1

/-- An audio message that gets through is served; no other one is forwarded or changes the
playback. -/
theorem step_audio (hm : m.isAudio = true) :
    (h.serves env m = true ∧ (h.step env (.message m)).conn = (h.serve env m).1.conn ∧
        (h.step env (.message m)).out = (h.serve env m).1.out) ∨
      h.serves env m = false ∧ KeepsSteady h (h.step env (.message m), (h.step env (.message m)).alive) ∧
        ∀ m', (h.step env (.message m)).out ≠ .forwarded m' :: h.out := by
  have hself : ∀ m', h.out ≠ .forwarded m' :: h.out := fun m' => (cons_ne_self _ _).symm
  by_cases halive : h.alive = true
  · have hstep : h.step env (.message m) = h.receive env m := if_pos halive
    rw [hstep]
    rcases onMessage_audio env h hm with ⟨hauth, heq⟩ | ⟨hauth, ⟨message, hscope, heq⟩ | ⟨hscope, heq⟩⟩
    · obtain ⟨hconn, hout, -⟩ := receive_of_onMessage heq
      refine .inr ⟨by simp [serves, hauth], .of_eq (congrArg steady hconn), fun m' => ?_⟩
      rw [hout]
      exact hself m'
    · obtain ⟨hconn, hout, hends⟩ := receive_of_onMessage (heq.trans Prod.mk.eta.symm)
      refine .inr ⟨by simp [serves, hscope], ?_, fun m' => ?_⟩
      · rcases KeepsSteady.of_feed (keepsFeed_handleAuthorizedScopeViolation env h message) with
          hsteady | ⟨hflag, hsteady⟩
        · exact .of_eq ((congrArg steady hconn).trans hsteady)
        · exact .inr ⟨hends hflag, (congrArg steady hconn).trans hsteady⟩
      · rw [hout]
        exact handleAuthorizedScopeViolation_out message m'
    · by_cases hsocket : h.conn.portForwardSocket.isNone = true
      · rw [if_pos hsocket] at heq
        obtain ⟨hconn, hout, -⟩ := receive_of_onMessage (heq.trans Prod.mk.eta.symm)
        exact .inl ⟨by simp [serves, halive, hauth, hsocket, hscope], hconn, hout⟩
      · rw [if_neg hsocket] at heq
        obtain ⟨hconn, hout, -⟩ := receive_of_onMessage heq
        refine .inr ⟨by simp [serves, hsocket], .of_eq (congrArg steady hconn), fun m' => ?_⟩
        rw [hout]
        exact hself m'
  · have hstep : h.step env (.message m) = h := if_neg halive
    rw [hstep]
    exact .inr ⟨by simp [serves, halive], .of_eq rfl, hself⟩

theorem KeepsSteady.audioSender_eq {r : Handled} (hkeeps : KeepsSteady h r) :
    r.1.conn.audioSender = h.conn.audioSender := by
  rcases hkeeps with heq | ⟨-, heq⟩ <;> exact congrArg Prod.fst heq

/-- Whatever is no format leaves the playback as it is. -/
theorem audioSender_step_of_ne {e : Event}
    (he : ∀ rate channels, e ≠ .message (.misc (some (.audioFormat rate channels)))) :
    (h.step env e).conn.audioSender = h.conn.audioSender := by
  by_cases haudio : ∃ m, e = .message m ∧ m.isAudio = true
  · obtain ⟨m, rfl, hm⟩ := haudio
    rcases step_audio (h := h) hm with ⟨-, hconn, -⟩ | ⟨-, hkeeps, -⟩
    · rw [hconn]
      refine (serve_steady fun rate channels heq => ?_).audioSender_eq
      rw [heq] at he
      exact he rate channels rfl
    · exact hkeeps.audioSender_eq
  · refine (step_steady fun m hm => ?_).audioSender_eq
    rw [Bool.eq_false_iff]
    exact fun hm' => haudio ⟨m, hm, hm'⟩

/-- A format starts the playback, and nothing else changes it. -/
theorem audioSender_step (env : Env) (h : Host) (e : Event) :
    (h.step env e).conn.audioSender = (h.conn.audioSender || (h.callMarks env e).contains .playback) := by
  have hkept : (h.callMarks env e).contains .playback = false → (h.step env e).conn.audioSender = h.conn.audioSender →
      (h.step env e).conn.audioSender = (h.conn.audioSender || (h.callMarks env e).contains .playback) := by
    intro hnone heq
    rw [hnone, heq, Bool.or_false]
  by_cases hformat : ∃ rate channels, e = .message (.misc (some (.audioFormat rate channels)))
  · obtain ⟨rate, channels, rfl⟩ := hformat
    rcases step_audio (h := h) (m := .misc (some (.audioFormat rate channels))) rfl with
      ⟨hserves, hconn, -⟩ | ⟨hserves, hkeeps, -⟩
    · rw [hconn]
      change (h.onAudioFormat _).conn.audioSender = _
      unfold onAudioFormat
      cases hdisabled : h.conn.disableAudio <;> simp [callMarks, hserves, hdisabled]
    · exact hkept (by simp [callMarks, hserves]) hkeeps.audioSender_eq
  · refine hkept ?_ ?_
    · unfold callMarks
      split
      · next rate channels => exact absurd ⟨rate, channels, rfl⟩ hformat
      all_goals first | rfl | (split_ifs <;> rfl)
    · exact audioSender_step_of_ne fun rate channels heq => hformat ⟨rate, channels, heq⟩

/-- The playback runs exactly when a format started it earlier in the run. -/
theorem audioSender_run (env : Env) (h : Host) (events : List Event) :
    (h.run env events).conn.audioSender = (h.conn.audioSender || (h.callHistory env events).contains .playback) := by
  induction events generalizing h with
  | nil => simp [run, runEvents, callHistory]
  | cons e es ih =>
    have hrun : h.run env (e :: es) = (h.step env e).run env es := rfl
    rw [hrun, ih, audioSender_step, callHistory, List.contains_append, Bool.or_assoc,
      Bool.or_comm ((h.callMarks env e).contains .playback)]

end Step

/-- Peer audio and voice calls: after every run, an audio frame is handed to the playback only
during an accepted call, if and only if it does not come to a session that plays audio outside
a call. The session plays audio when an earlier format was taken up and audio is not disabled. -/
theorem peer_audio_needs_call_iff (env : Env) (world : World) (hash : HashMsg) (require2fa : Option Bytes)
    (events : List Event) (data : Bytes) :
    let start := Host.start env world hash require2fa
    let h := start.run env events
    let calls := start.callHistory env events
    ((h.step env (.message (.audioFrame data))).out = .forwarded (.audioFrame data) :: h.out →
        callActive calls = true) ↔
      ¬(h.serves env (.audioFrame data) = true ∧ h.conn.disableAudio = false ∧
        CallMark.playback ∈ calls ∧ callActive calls = false) := by
  intro start h calls
  have hstart : start.conn.audioSender = false :=
    congrArg (fun feed => feed.1.audioSender) (Host.feed_announcePermissions env _)
  have hsender : h.conn.audioSender = calls.contains .playback := by
    rw [audioSender_run, hstart, Bool.false_or]
  have hforwards : (h.step env (.message (.audioFrame data))).out = .forwarded (.audioFrame data) :: h.out ↔
      h.serves env (.audioFrame data) = true ∧ h.conn.disableAudio = false ∧ .playback ∈ calls := by
    rcases step_audio (h := h) (m := .audioFrame data) rfl with ⟨hserves, -, hout⟩ | ⟨hserves, -, hout⟩
    · rw [hout, ← List.contains_iff_mem, ← hsender]
      change (h.onAudioFrame _).out = _ ↔ _
      unfold Host.onAudioFrame
      cases hdisabled : h.conn.disableAudio <;> cases hplaying : h.conn.audioSender <;>
        simp [hserves, Host.emit]
    · simp [hserves, hout]
  rw [hforwards]
  cases callActive calls <;> simp

/-- Without any call, a format and a frame reach the playback. -/
theorem audio_plays_without_call :
    let events := [.message (.loginRequest sampleRequest), .authorize, .message (.misc (some (.audioFormat 48000 2)))]
    let start := Host.start sampleEnv sampleWorld sampleHash none
    let h := start.run sampleEnv events
    (h.step sampleEnv (.message (.audioFrame [1]))).out = .forwarded (.audioFrame [1]) :: h.out ∧
      callActive (start.callHistory sampleEnv events) = false := by
  decide

end UnyDesk
