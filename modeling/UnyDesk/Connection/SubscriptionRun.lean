import UnyDesk.Connection.LoginRule
import UnyDesk.Connection.Subscriptions

/-!
# Subscriptions over whole runs

A connection that is not authorized hears nothing. When it is granted a session, the options of
its login are applied and, for remote control, every permitted service is subscribed. From then
on the rules for single changes apply.
-/

namespace UnyDesk

open Lib Connection Host Prod List.Subset

/-- What every event keeps: the subscriptions are in order, a connection without authorization
has no kind, and the options that wait for the login are harmless. -/
structure Ordered (env : Env) (h : Host) : Prop where
  fed : Fed env [] h
  authed : h.conn.authorized = false → h.conn.authedConnId = none
  options : h.conn.authorized = false → ∀ o, h.conn.optionsInLogin = some o → fileClipboardGuard env false o = true

section Logon

variable {env : Env} {h h' : Host}

theorem Ordered.of_authorized (hfed : Fed env [] h) (hauth : h.conn.authorized = true) : Ordered env h :=
  ⟨hfed, fun hnot => Bool.noConfusion (hnot.symm.trans hauth), fun hnot => Bool.noConfusion (hnot.symm.trans hauth)⟩

theorem Ordered.of_feed (hordered : Ordered env h) (heq : h'.feed = h.feed) : Ordered env h' := by
  have hconn : h'.conn.feed = h.conn.feed := congrArg fst heq
  refine ⟨hordered.fed.of_feed heq, ?_, ?_⟩
  · change h'.conn.feed.authorized = false → h'.conn.feed.authedConnId = none
    rw [hconn]
    exact hordered.authed
  · change h'.conn.feed.authorized = false → ∀ o, h'.conn.feed.optionsInLogin = some o → _
    rw [hconn]
    exact hordered.options

theorem Fed.shut (hfed : Fed env [] h) : Fed env [] h.shut := by
  refine hfed.updateConn _ (refl []) fun n _ => ?_
  cases n <;> exact id

theorem Fed.of_keepsFeed {r : Handled} (hfed : Fed env [] h) (hkeeps : h.KeepsFeed r) : Fed env [] r.1 := by
  rcases hkeeps with ⟨-, heq⟩ | ⟨-, heq⟩
  · exact hfed.of_feed heq
  · exact hfed.shut.of_feed heq

theorem Ordered.shut (hordered : Ordered env h) : Ordered env h.shut :=
  ⟨hordered.fed.shut, hordered.authed, hordered.options⟩

theorem Ordered.onClose (hordered : Ordered env h) : Ordered env (h.onClose env) :=
  hordered.shut.of_feed (feed_onClose env h)

theorem Ordered.of_keepsFeed {r : Handled} (hordered : Ordered env h) (hkeeps : h.KeepsFeed r) : Ordered env r.1 := by
  rcases hkeeps with ⟨-, heq⟩ | ⟨-, heq⟩
  · exact hordered.of_feed heq
  · exact hordered.shut.of_feed heq

/-- Adding a remote session to the server subscribes what it may hear. -/
theorem Fed.addConnection (hfed : Fed env [] h) (hmonitor : h.conn.isMonitor = true) :
    Fed env [] (h.addConnection env) := by
  have hadded : ∀ n, (env.hasService n && !noperms env h.conn n) = true →
      env.hasService n = true ∧ mayHear env h.conn n = true := by
    intro n hn
    obtain ⟨hservice, hperm⟩ := Bool.and_eq_true_iff.mp hn
    refine ⟨hservice, ?_⟩
    obtain ⟨hauth, hremote⟩ := Bool.and_eq_true_iff.mp hmonitor
    cases n <;> simp_all [noperms, mayHear]
  exact ⟨hfed.registered.join fun n hn => (hadded n hn).1, hfed.permitted.join fun n hn => (hadded n hn).2⟩

theorem Fed.trySubMonitorServices (hfed : Fed env [] h) (hmonitor : h.conn.isRemote = true → h.conn.isMonitor = true) :
    Fed env [] (h.trySubMonitorServices env) := by
  unfold Host.trySubMonitorServices
  split_ifs with hremote
  · have hisRemote := (Bool.and_eq_true_iff.mp hremote).1
    exact Fed.addConnection (hfed.of_feed rfl) (hmonitor hisRemote)
  · exact hfed

/-- A session other than remote control loses nothing with the keyboard. -/
theorem Fed.dropKeyboard (hfed : Fed env [] h) (hnot : h.conn.isMonitor = false) :
    Fed env [] (h.updateConn fun c => { c with keyboard := false }) := by
  refine hfed.updateConn _ (refl []) fun n _ => ?_
  cases n with
  | clipboard => simp [mayHear, hnot]
  | cursor => simp [mayHear, hnot]
  | _ => exact id

/-- A connection that was just authorized. -/
structure Admitted (env : Env) (h : Host) : Prop where
  fed : Fed env [] h
  authorized : h.conn.authorized = true
  kind : h.conn.authedConnId = some h.conn.grantKind
  files : h.subs .fileClipboard = false
  options : ∀ o, h.conn.optionsInLogin = some o → fileClipboardGuard env false o = true

/-- Without authorization nothing but the cursor position and the window focus is heard. -/
theorem Ordered.unset (hordered : Ordered env h) (hauth : h.conn.authorized = false) (n : ServiceName)
    (hset : h.subs n = true) : n = .pos ∨ n = .windowFocus := by
  have hheard := hordered.fed.permitted n List.not_mem_nil hset
  cases n <;> simp [mayHear, isMonitor, hauth] at hheard ⊢

theorem Ordered.authorize (hordered : Ordered env h) (hauth : h.conn.authorized = false) :
    Admitted env h.authorize := by
  have hconn : h.authorize.conn.feed = { h.conn.feed with authorized := true, authedConnId := some h.conn.grantKind } :=
    congrArg fst authorize_feed
  have hsubs : h.authorize.subs = h.subs := congrArg snd authorize_feed
  have hkind : h.authorize.conn.grantKind = h.conn.grantKind := by
    unfold Host.authorize Host.normalizeConnAuditAuthFields
    dsimp only
    split_ifs <;> rfl
  refine ⟨⟨?_, fun n _ hset => ?_⟩, ?_, ?_, ?_, ?_⟩
  · rw [hsubs]
    exact hordered.fed.registered
  · rw [hsubs] at hset
    rcases hordered.unset hauth n hset with rfl | rfl <;> rfl
  · change h.authorize.conn.feed.authorized = true
    rw [hconn]
  · rw [hkind]
    change h.authorize.conn.feed.authedConnId = _
    rw [hconn]
  · rw [hsubs, Bool.eq_false_iff]
    intro hset
    rcases hordered.unset hauth _ hset with heq | heq <;> cases heq
  · change ∀ o, h.authorize.conn.feed.optionsInLogin = some o → _
    rw [hconn]
    exact hordered.options hauth

/-- The options of the login are applied within the scope of the session. -/
theorem Admitted.updateScopedLoginOptions (hadmitted : Admitted env h) :
    Fed env [] (h.updateScopedLoginOptions env) := by
  unfold Host.updateScopedLoginOptions
  split
  · exact hadmitted.fed
  · next o ho =>
    have htaken : Fed env [] (h.updateConn fun c => { c with optionsInLogin := none }) := by
      refine hadmitted.fed.updateConn _ (refl []) fun n _ => ?_
      cases n <;> exact id
    dsimp only
    split
    · exact htaken
    · next kind hkind =>
      split
      · next option hscoped =>
        refine htaken.updateOptions hadmitted.authorized hkind hscoped fun _ => ?_
        rw [Host.updateConn_subs, hadmitted.files]
        exact hadmitted.options o ho
      · exact htaken

/-- A granted session starts with its subscriptions in order. -/
theorem Fed.startSession (hfed : Fed env [] h) (hauth : h.conn.authorized = true)
    (hkind : h.conn.authedConnId = some h.conn.grantKind) (hclosed : h.conn.portForwardSocket = none)
    (subService waitSessionIdConfirm : Bool) :
    Fed env [] (h.startSession env subService waitSessionIdConfirm) := by
  have hmonitor : h.conn.isMonitor = decide (h.conn.grantKind = .remote) := by
    simp [Connection.isMonitor, Connection.isAuthedRemoteConn, hauth, hkind]
  unfold Host.startSession
  split
  · next dir showHidden hft =>
    have hnot : h.conn.isMonitor = false := by simp [hmonitor, Connection.grantKind, hft]
    have hdropped := hfed.dropKeyboard hnot
    dsimp only
    split_ifs <;> exact hdropped.of_feed rfl
  · next hft =>
    split_ifs with hterminal hdesktop hcamera
    · have hnot : h.conn.isMonitor = false := by
        cases hvc : h.conn.viewCamera <;> simp [hmonitor, Connection.grantKind, hft, hclosed, hterminal, hvc]
      exact (hfed.dropKeyboard hnot).of_feed (Host.feed_initTerminalService _)
    · have hnot : h.conn.isMonitor = false := by
        cases hvc : h.conn.viewCamera <;> simp [hmonitor, Connection.grantKind, hft, hclosed, hterminal, hvc]
      exact hfed.dropKeyboard hnot
    · have hnot : h.conn.isMonitor = false := by simp [hmonitor, Connection.grantKind, hft, hclosed, hcamera]
      exact (hfed.dropKeyboard hnot).of_feed rfl
    · refine hfed.trySubMonitorServices fun _ => ?_
      simp [hmonitor, Connection.grantKind, hft, hclosed, hterminal, hcamera]
    · exact hfed

/-- What follows the response: the options of the login and the start of the session. -/
theorem Admitted.start (hadmitted : Admitted env h) (hclosed : h.conn.portForwardSocket = none)
    (subService waitSessionIdConfirm : Bool) :
    Fed env [] ((h.updateScopedLoginOptions env).startSession env subService waitSessionIdConfirm) := by
  have hledger := updateScopedLoginOptions_ledger env h
  have hkind : (h.updateScopedLoginOptions env).ledger.login.authedConnId =
      some (h.updateScopedLoginOptions env).ledger.grantKind := by
    rw [hledger]
    exact hadmitted.kind
  refine hadmitted.updateScopedLoginOptions.startSession ?_ hkind ?_ _ _
  · exact (congrArg (·.login.authorized) hledger).trans hadmitted.authorized
  · exact (congrArg Ledger.socket hledger).trans hclosed

theorem Admitted.respondLogon (hadmitted : Admitted env h) : Fed env [] (h.respondLogon env) := by
  unfold Host.respondLogon
  split_ifs with hsocket
  · exact hadmitted.fed.of_feed rfl
  · exact hadmitted.fed.of_feed rfl
  · have hclosed : h.conn.portForwardSocket = none := by simpa using hsocket
    have hemit : ∀ o, Admitted env (h.emit o) := fun o =>
      ⟨hadmitted.fed.of_feed rfl, hadmitted.authorized, hadmitted.kind, hadmitted.files, hadmitted.options⟩
    exact (hemit _).start hclosed _ _

/-- The login branches keep the subscriptions in order. -/
theorem Ordered.loginRule (env : Env) : LoginRule env (Ordered env) where
  of_feed := Ordered.of_feed
  entry := by
    intro h hordered hauth
    have hadmitted := hordered.authorize hauth
    obtain ⟨serviceId, hledger⟩ := respondLogon_ledger env h.authorize
    refine .of_authorized hadmitted.respondLogon ?_
    exact (congrArg (·.login.authorized) hledger).trans hadmitted.authorized

theorem Ordered.handleLoginRequestWithoutValidation {lr : LoginRequest} (hordered : Ordered env h)
    (hguard : h.conn.authorized = true ∨ lr.option.all (fileClipboardGuard env false) = true) :
    Ordered env (h.handleLoginRequestWithoutValidation lr) := by
  have hstored : Ordered env (h.updateConn fun c => { c with
      optionsInLogin := lr.option.or c.optionsInLogin }) := by
    refine ⟨?_, hordered.authed, fun hauth o ho => ?_⟩
    · refine hordered.fed.updateConn _ (refl []) fun n _ => ?_
      cases n <;> exact id
    · have hauth' : h.conn.authorized = false := hauth
      have hall := hguard.resolve_left (by simp [hauth'])
      have ho' : lr.option.or h.conn.optionsInLogin = some o := ho
      cases hoption : lr.option with
      | none =>
        rw [hoption, Option.none_or] at ho'
        exact hordered.options hauth' o ho'
      | some o' =>
        rw [hoption] at ho' hall
        cases ho'
        exact hall
  exact hstored.of_feed feed_handleLoginRequestWithoutValidation

end Logon

/-! ## The session -/

section Session

variable {env : Env} {h : Host} {m : Message}

theorem optionForUpdate_eq (kind : AuthConnType) (o : OptionMessage) :
    optionForUpdate (some kind) o = (scopedLoginOption kind o).1 := by
  cases kind <;> rfl

theorem Fed.onOption (hfed : Fed env [] h) (hauth : h.conn.authorized = true) {o : OptionMessage}
    (hguard : h.conn.isMonitor = true → fileClipboardGuard env (h.subs .fileClipboard) o = true) :
    Fed env [] (h.onOption env o) := by
  unfold Host.onOption
  split
  · next option hoption =>
    cases hkind : h.conn.authedConnId with
    | none => simp [hkind, optionForUpdate, scopedUpdateOptionMessage] at hoption
    | some kind =>
      rw [hkind, optionForUpdate_eq] at hoption
      refine hfed.updateOptions hauth hkind hoption fun hremote => hguard ?_
      simp [Connection.isMonitor, Connection.isAuthedRemoteConn, hauth, hkind, hremote]
  · exact hfed

/-- A session that may choose a Windows session and shows no other kind is remote control. -/
theorem isMonitor_of_selectedSid (hauth : h.conn.authorized = true) (hshown : Host.KindShown h.ledger)
    {sid : ℕ} (hscope : authorizedScopeViolation env.build h.conn.authedConnId (.misc (some (.selectedSid sid))) = none)
    (hfile : h.conn.fileTransfer = none) (hcamera : h.conn.viewCamera = false)
    (hterminal : h.conn.terminal = false) : h.conn.isMonitor = true := by
  cases hkind : h.conn.authedConnId with
  | none => simp [hkind, authorizedScopeViolation, isConnectionHousekeepingMessage] at hscope
  | some kind =>
    cases kind with
    | remote => simp [isMonitor, isAuthedRemoteConn, hauth, hkind]
    | fileTransfer =>
      have hsome := hshown.fileTransfer hkind
      change h.conn.fileTransfer.isSome = true at hsome
      simp [hfile] at hsome
    | viewCamera => exact absurd (hshown.viewCamera hkind) (Bool.eq_false_iff.mp hcamera)
    | terminal => exact absurd (hshown.terminal hkind) (Bool.eq_false_iff.mp hterminal)
    | portForward =>
      simp [hkind, authorizedScopeViolation, authorizedMessageScopeViolation,
        isConnectionHousekeepingMessage, isRenderBroadcastNoopCompatMessage] at hscope

theorem Fed.onSelectedSid (hfed : Fed env [] h) (hauth : h.conn.authorized = true)
    (hshown : Host.KindShown h.ledger) {sid : ℕ}
    (hscope : authorizedScopeViolation env.build h.conn.authedConnId
      (.misc (some (.selectedSid sid))) = none) : Fed env [] (h.onSelectedSid env sid).1 := by
  unfold Host.onSelectedSid
  split_ifs with _ _ hfile hcamera hterminal
  · exact hfed
  · exact hfed
  · split
    · exact hfed.of_feed rfl
    · exact hfed
  · exact hfed.of_feed rfl
  · refine hfed.trySubMonitorServices fun _ => ?_
    exact isMonitor_of_selectedSid hauth hshown hscope (by simpa using hfile)
      (Bool.eq_false_iff.mpr hcamera) (by simpa using hterminal)
  · exact hfed

theorem Fed.onAudioFormat (hfed : Fed env [] h) (m : Message) : Fed env [] (h.onAudioFormat m) := by
  unfold Host.onAudioFormat
  split_ifs
  · exact hfed
  · have hplaying : Fed env [] (h.updateConn fun c => { c with audioSender := true }) := by
      refine hfed.updateConn _ (refl []) fun n _ => ?_
      cases n <;> exact id
    exact hplaying.of_feed rfl

theorem Fed.onVoiceCallRequest (hfed : Fed env [] h) (hauth : h.conn.authorized = true)
    (reqTimestamp : Int) (isConnect : Bool) : Fed env [] (h.onVoiceCallRequest env reqTimestamp isConnect) := by
  unfold Host.onVoiceCallRequest
  by_cases hconnect : isConnect = true
  · rw [if_pos hconnect]
    exact hfed.of_feed rfl
  · rw [if_neg hconnect]
    exact hfed.closeVoiceCall fun _ => hauth

/-- The condition under which an event keeps the subscriptions in order. While the connection is
not authorized, options that come with a login wait for it. -/
def subscriptionGuard (env : Env) (h : Host) (e : Event) : Bool :=
  !h.alive || match e with
    | .switchPermission name enabled => switchGuard env h name enabled
    | .message (.misc (some (.option o))) =>
      !h.conn.isMonitor || fileClipboardGuard env (h.subs .fileClipboard) o
    | .message (.loginRequest lr) =>
      h.conn.authorized || lr.option.all (fileClipboardGuard env false)
    | .message (.switchSidesResponse s) =>
      h.conn.authorized || ((switchTaken env s).bind (·.option)).all (fileClipboardGuard env false)
    | _ => true

/-- Behind the filter the session keeps its subscriptions in order. -/
theorem Fed.serve (hfed : Fed env [] h) (hauth : h.conn.authorized = true) (hshown : Host.KindShown h.ledger)
    (hscope : authorizedScopeViolation env.build h.conn.authedConnId m = none)
    (hguard : subscriptionGuard env h (.message m) = true) (halive : h.alive = true) :
    Fed env [] (h.serve env m).1 := by
  by_cases hfeeds : m.feeds = false
  · exact hfed.of_feed (feed_serve env h m hfeeds)
  · unfold Message.feeds at hfeeds
    split at hfeeds
    · next o =>
      refine hfed.onOption hauth fun hmonitor => ?_
      simpa [subscriptionGuard, halive, hmonitor] using hguard
    · exact hfed.onAudioFormat _
    · next uuid => exact hfed.of_keepsFeed (keepsFeed_onSwitchSidesRequest env h uuid)
    · next sid => exact hfed.onSelectedSid hauth hshown hscope
    · next reqTimestamp isConnect => exact hfed.onVoiceCallRequest hauth reqTimestamp isConnect
    · exact absurd rfl hfeeds

theorem serve_authorized (hauth : h.conn.authorized = true) : (h.serve env m).1.conn.authorized = true := by
  rcases serve_kept_or_terminalAction env h m with hkept | ⟨-, -, hledger⟩
  · exact (congrArg (·.authorized) hkept.login).trans hauth
  · exact (congrArg (·.login.authorized) hledger).trans hauth

section Ordered

variable (hordered : Ordered env h)
include hordered

section OrderedSteps

variable (hshown : h.conn.authorized = true → Host.KindShown h.ledger)
include hshown

/-- What the connection does with a message that passed the filter. -/
theorem Ordered.dispatch
    (hscope : h.conn.authorized = true → authorizedScopeViolation env.build h.conn.authedConnId m = none)
    (hguard : subscriptionGuard env h (.message m) = true) (halive : h.alive = true) :
    Ordered env (h.dispatch env m).1 := by
  have rule := Ordered.loginRule env
  unfold Host.dispatch
  split
  · next lr =>
    have hguard' : h.conn.authorized = true ∨ lr.option.all (fileClipboardGuard env false) = true := by
      simpa [subscriptionGuard, halive] using hguard
    exact rule.onLoginRequest (hordered.handleLoginRequestWithoutValidation hguard')
  · next tfa => exact rule.onAuth2fa hordered tfa
  · exact hordered.of_feed (Host.feed_onTestDelay h _)
  · next s =>
    refine rule.onSwitchSidesResponse hordered fun lr htaken => ?_
    have hguard' : h.conn.authorized = true ∨
        ((switchTaken env s).bind (·.option)).all (fileClipboardGuard env false) = true := by
      simpa [subscriptionGuard, halive] using hguard
    rw [htaken] at hguard'
    exact hordered.handleLoginRequestWithoutValidation hguard'
  · split
    · next hsession =>
      have hauth := (Bool.and_eq_true_iff.mp hsession).1
      exact .of_authorized (hordered.fed.serve hauth (hshown hauth) (hscope hauth) hguard halive)
        (serve_authorized hauth)
    · exact hordered

theorem Ordered.onMessage (hguard : subscriptionGuard env h (.message m) = true) (halive : h.alive = true) :
    Ordered env (h.onMessage env m).1 := by
  unfold Host.onMessage
  split
  · exact hordered.onClose.of_feed rfl
  · split
    · unfold Host.guardAuthorized
      split
      · exact hordered
      · split
        · exact hordered.of_keepsFeed (Host.keepsFeed_handleAuthorizedScopeViolation env h _)
        · next hscope => exact hordered.dispatch hshown (fun _ => hscope) hguard halive
    · next hauth => exact hordered.dispatch hshown (fun hyes => absurd hyes hauth) hguard halive

theorem Ordered.receive (hguard : subscriptionGuard env h (.message m) = true) (halive : h.alive = true) :
    Ordered env (h.receive env m) := by
  have hmessage := hordered.onMessage hshown hguard halive
  unfold Host.receive
  rcases hresult : h.onMessage env m with ⟨h₁, _ | _⟩ <;> rw [hresult] at hmessage
  · exact hmessage.of_feed rfl
  · dsimp only
    split_ifs
    · exact hmessage.of_feed rfl
    · exact hmessage

end OrderedSteps

/-- A change of the subscriptions alone. -/
theorem Ordered.of_fed {h' : Host} (hfed : Fed env [] h')
    (hledger : h'.ledger.login = h.ledger.login) (hoptions : h'.conn.optionsInLogin = h.conn.optionsInLogin) :
    Ordered env h' := by
  have hauth : h'.conn.authorized = h.conn.authorized := congrArg (·.authorized) hledger
  have hkind : h'.conn.authedConnId = h.conn.authedConnId := congrArg (·.authedConnId) hledger
  refine ⟨hfed, ?_, ?_⟩
  · rw [hauth, hkind]
    exact hordered.authed
  · rw [hauth, hoptions]
    exact hordered.options

theorem Ordered.isAuthed_authorized (hcamera : h.conn.isAuthedViewCameraConn = true) : h.conn.authorized = true := by
  by_contra hauth
  simp [isAuthedViewCameraConn, hordered.authed (Bool.eq_false_iff.mpr hauth)] at hcamera

end Ordered

/-- What permissions, options and voice calls do not touch: the playback of the peer's audio and
whether the connection is closed. -/
def Connection.steady (c : Connection) : Bool × Bool := (c.audioSender, c.closed)

/-- What permissions and voice calls do not touch. -/
def Connection.aside (c : Connection) : Option OptionMessage × Bool × Bool := (c.optionsInLogin, c.steady)

@[simp] theorem subscribeAudio_conn (env : Env) (h : Host) : (h.subscribeAudio env).conn = h.conn := by
  unfold subscribeAudio
  split_ifs
  · exact subscribe_conn env h _ _
  · rfl
  · exact subscribe_conn env h _ _

theorem switchPermission_aside (name : String) (enabled : Bool) :
    (h.switchPermission env name enabled).conn.aside = h.conn.aside := by
  unfold switchPermission
  split
  · unfold switchKeyboard
    simp only [subscribe_conn, subscribeFileClipboard_conn, subscribeClipboard_conn]
    rfl
  split
  · unfold switchClipboard
    simp only [subscribeClipboard_conn]
    rfl
  split
  · unfold switchAudio
    dsimp only
    split
    · rw [subscribeAudio_conn]
      rfl
    · rfl
  split
  · unfold switchFile
    simp only [subscribeFileClipboard_conn]
    rfl
  split_ifs
  · rfl
  · rfl
  · rfl
  · exact congrArg (fun feed => feed.1.aside) (feed_switchPrivacyMode enabled)
  · rfl

theorem voiceCall_aside (accepted : Bool) :
    (h.handleVoiceCall env accepted).conn.aside = h.conn.aside ∧ (h.closeVoiceCall env).conn.aside = h.conn.aside := by
  have hsubscribe : ∀ (p : Bool) (h : Host) (name : ServiceName) (sub : Bool),
      (if p then h.subscribe env name sub else h).conn.aside = h.conn.aside := by
    intro p h name sub
    cases p
    · rfl
    · exact congrArg aside (subscribe_conn env h name sub)
  unfold handleVoiceCall closeVoiceCall
  refine ⟨?_, ?_⟩
  · split
    · exact (hsubscribe _ _ _ _).trans rfl
    · rfl
  · exact (hsubscribe _ _ _ _).trans rfl

/-- One event keeps the subscriptions in order. -/
theorem Ordered.step {e : Event} (hordered : Ordered env h)
    (hshown : h.conn.authorized = true → Host.KindShown h.ledger)
    (hguard : subscriptionGuard env h e = true) : Ordered env (h.step env e) := by
  unfold Host.step
  by_cases halive : h.alive = true
  · rw [if_pos halive]
    cases e with
    | message m => exact hordered.receive hshown hguard halive
    | authorize => exact (Ordered.loginRule env).onAuthorize hordered
    | close =>
      have hnoted : Ordered env ((h.updateConn fun c =>
          { c with chatUnanswered := false, fileTransferred := false }).sendCloseReasonNoRetry "") :=
        hordered.of_feed rfl
      exact hnoted.onClose.of_feed rfl
    | cmErr e =>
      unfold Host.react Host.onCmErr
      dsimp only
      split_ifs
      · exact hordered.onClose.of_feed rfl
      · exact hordered
    | chatMessage text => exact hordered.of_feed rfl
    | switchPermission name enabled =>
      have hswitch : switchGuard env h name enabled = true := by
        simpa [subscriptionGuard, halive] using hguard
      exact hordered.of_fed (hordered.fed.switchPermission hswitch)
        (congrArg Ledger.login (Host.ledger_switchPermission env h name enabled))
        (congrArg fst (switchPermission_aside name enabled))
    | switchSidesBack =>
      unfold Host.react Host.onSwitchSidesBack
      dsimp only
      split_ifs
      · exact hordered.of_feed rfl
      · exact hordered
    | voiceCallResponse accepted =>
      exact hordered.of_fed (hordered.fed.handleVoiceCall accepted hordered.isAuthed_authorized)
        (congrArg Ledger.login (Host.ledger_handleVoiceCall env h accepted))
        (congrArg fst (voiceCall_aside accepted).1)
    | closeVoiceCall =>
      have hclosed := hordered.of_fed (hordered.fed.closeVoiceCall hordered.isAuthed_authorized)
        (congrArg Ledger.login (Host.ledger_closeVoiceCall env h))
        (congrArg fst (voiceCall_aside false).2)
      exact hclosed.of_feed rfl
    | testDelayTimer =>
      unfold Host.react Host.onTestDelayTimer
      dsimp only
      split_ifs
      · exact hordered.of_feed rfl
      · exact hordered
    | hangUp => exact hordered.onClose.of_feed rfl
    | shutDown reason =>
      have hnoted : Ordered env (h.sendCloseReasonNoRetry reason) := hordered.of_feed rfl
      exact hnoted.onClose.of_feed rfl
    | worldChange w => exact hordered.of_feed rfl
  · rw [if_neg halive]
    exact hordered

end Session

theorem Ordered.start (env : Env) (world : World) (hash : HashMsg) (require2fa : Option Bytes) :
    Ordered env (Host.start env world hash require2fa) := by
  refine Ordered.of_feed ?_ (feed_announcePermissions env _)
  refine ⟨⟨fun n _ hset => ?_, fun n _ hset => ?_⟩, fun _ => rfl, fun _ o ho => ?_⟩
  · cases hset
  · cases hset
  · cases ho

/-- Subscriptions follow permissions in every run that stays clear of the branches that miss a
service. -/
theorem subscriptions_follow_permissions (env : Env) (world : World) (hash : HashMsg)
    (require2fa : Option Bytes) (events : List Event)
    (hguard : RunMeets (Host.step env) (fun h e => subscriptionGuard env h e = true)
      (Host.start env world hash require2fa) events) :
    let h := (Host.start env world hash require2fa).run env events
    (h.subs .clipboard = true → h.conn.authorized = true ∧ h.conn.isAuthedRemoteConn = true ∧
      h.conn.canSubClipboardService env = true) ∧
    (h.subs .fileClipboard = true → h.conn.authorized = true ∧ h.conn.isAuthedRemoteConn = true ∧
      h.conn.canSubFileClipboardService env = true) ∧
    (h.subs .cursor = true → h.conn.authorized = true ∧ h.conn.isAuthedRemoteConn = true ∧
      (h.conn.peerKeyboardEnabled = true ∨ h.conn.showRemoteCursor = true)) ∧
    (h.subs .audio = true → h.conn.authorized = true ∧ h.conn.audioEnabled = true ∧
      (h.conn.isAuthedRemoteConn = true ∨ h.conn.isAuthedViewCameraConn = true ∧ h.conn.voiceCalling = true)) := by
  intro h
  have hunauthorized : (Host.start env world hash require2fa).ledger.login.authorized = false := by
    rw [Host.start_ledger]
  obtain ⟨hordered, -⟩ := runEvents_invariant
    (I := fun h : Host => Ordered env h ∧ (h.conn.authorized = true → Host.KindShown h.ledger))
    (fun h e hinv hok => ⟨hinv.1.step hinv.2 hok, Host.kindShown_step hinv.2⟩)
    ⟨.start env world hash require2fa, fun hauth => Bool.noConfusion (hunauthorized.symm.trans hauth)⟩
    hguard
  have hheard : ∀ n, h.subs n = true → mayHear env h.conn n = true :=
    fun n hset => hordered.fed.permitted n List.not_mem_nil hset
  refine ⟨fun hset => ?_, fun hset => ?_, fun hset => ?_, fun hset => ?_⟩
  · simpa [mayHear, Connection.isMonitor, and_assoc] using hheard _ hset
  · simpa [mayHear, Connection.isMonitor, and_assoc] using hheard _ hset
  · simpa [mayHear, Connection.isMonitor, and_assoc] using hheard _ hset
  · simpa [mayHear, and_assoc] using hheard _ hset

/-- A remote session that the user accepted hears the clipboard. -/
theorem subscriptions_follow_permissions_remote :
    let h := (Host.start sampleEnv sampleWorld sampleHash none).run sampleEnv
      [.message (.loginRequest sampleRequest), .authorize]
    h.subs .clipboard = true ∧
    (h.subs .clipboard = true → h.conn.authorized = true ∧ h.conn.isAuthedRemoteConn = true ∧
      h.conn.canSubClipboardService sampleEnv = true) ∧
    (h.subs .fileClipboard = true → h.conn.authorized = true ∧ h.conn.isAuthedRemoteConn = true ∧
      h.conn.canSubFileClipboardService sampleEnv = true) ∧
    (h.subs .cursor = true → h.conn.authorized = true ∧ h.conn.isAuthedRemoteConn = true ∧
      (h.conn.peerKeyboardEnabled = true ∨ h.conn.showRemoteCursor = true)) ∧
    (h.subs .audio = true → h.conn.authorized = true ∧ h.conn.audioEnabled = true ∧
      (h.conn.isAuthedRemoteConn = true ∨ h.conn.isAuthedViewCameraConn = true ∧ h.conn.voiceCalling = true)) :=
  ⟨by decide, subscriptions_follow_permissions sampleEnv sampleWorld sampleHash none _ (by decide)⟩

/-- The keyboard is switched on while the login waits for the user, and the clipboard is heard. -/
theorem switch_before_login_subscribes :
    let h := (Host.start sampleEnv sampleWorld sampleHash none).run sampleEnv
      [.message (.loginRequest sampleRequest), .switchPermission "keyboard" true]
    h.subs .clipboard = true ∧ h.conn.authorized = false := by
  decide

end UnyDesk
