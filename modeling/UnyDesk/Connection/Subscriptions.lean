import UnyDesk.Connection.Feed
import UnyDesk.Lib.Policy

/-!
# Subscriptions follow permissions

Which services a connection may hear is decided by its kind, by the permissions the user gives
and takes, by the options of the peer and by voice calls. Each of these changes has to subscribe
the services that depend on it again, and some of them miss one: permissions that are switched
before the authorization or in a session without a picture subscribe all the same, the keyboard
permission forgets that the peer disabled its keyboard, audio comes to file transfers, and the
file clipboard outlives the text clipboard.

In every run that stays clear of these branches the subscriptions follow the permissions.
-/

namespace UnyDesk

open Lib Connection Host List

variable {f : Connection → Connection} {name : ServiceName} {c : Connection}

/-- An authorized remote session. -/
def Connection.isMonitor (c : Connection) : Bool := c.authorized && c.isAuthedRemoteConn

/-- The services that the connection may hear. -/
def mayHear (env : Env) (c : Connection) : ServiceName → Bool
  | .clipboard => c.isMonitor && c.canSubClipboardService env
  | .fileClipboard => c.isMonitor && c.canSubFileClipboardService env
  | .cursor => c.isMonitor && (c.peerKeyboardEnabled || c.showRemoteCursor)
  | .audio => c.authorized && c.audioEnabled && (c.isAuthedRemoteConn || c.isAuthedViewCameraConn && c.voiceCalling)
  | .pos | .windowFocus => true

/-- What is subscribed is registered and, unless it is stale, permitted. -/
structure Fed (env : Env) (stale : List ServiceName) (h : Host) : Prop where
  registered : FollowsExcept [] env.hasService h.subs
  permitted : FollowsExcept stale (mayHear env h.conn) h.subs

section Rules

variable {env : Env} {h h' : Host} {stale stale' : List ServiceName}

theorem Fed.of_feed (hfed : Fed env stale h) (heq : h'.feed = h.feed) : Fed env stale h' := by
  have hsubs : h'.subs = h.subs := congrArg Prod.snd heq
  have hconn : h'.conn.feed = h.conn.feed := congrArg Prod.fst heq
  refine ⟨by rw [hsubs]; exact hfed.registered, ?_⟩
  rw [hsubs]
  refine hfed.permitted.change (List.Subset.refl stale) fun n _ hn => ?_
  have hmayHear : ∀ c : Connection, mayHear env c.feed n = mayHear env c n := fun c => by cases n <;> rfl
  rw [← hmayHear, hconn, hmayHear]
  exact hn

theorem Fed.mono (hfed : Fed env stale h) (hstale : stale ⊆ stale') : Fed env stale' h :=
  ⟨hfed.registered, hfed.permitted.mono hstale⟩

/-- A change of the connection makes the services stale that depend on it. -/
theorem Fed.updateConn (stale' : List ServiceName) (hfed : Fed env stale h) (hstale : stale ⊆ stale')
    (hf : ∀ n, n ∉ stale' → mayHear env h.conn n = true → mayHear env (f h.conn) n = true) :
    Fed env stale' (h.updateConn f) :=
  ⟨hfed.registered, hfed.permitted.change hstale hf⟩

/-- Subscribing a stale service to what is permitted repairs it. -/
theorem Fed.subscribe {sub : Bool} (hfed : Fed env (name :: stale) h)
    (hsub : sub = true → env.hasService name = true → mayHear env h.conn name = true) :
    Fed env stale (h.subscribe env name sub) := by
  unfold Host.subscribe
  by_cases hservice : env.hasService name = true
  · rw [if_pos hservice]
    refine ⟨(hfed.registered.mono (nil_subset [name])).update fun _ => hservice, ?_⟩
    exact hfed.permitted.update fun hon => hsub hon hservice
  · rw [if_neg hservice]
    refine ⟨hfed.registered, hfed.permitted.of_unset ?_⟩
    rw [Bool.eq_false_iff]
    exact fun hset => hservice (hfed.registered name not_mem_nil hset)

end Rules

section Conn

variable (env : Env) (h : Host)

@[simp] theorem subscribe_conn (name : ServiceName) (sub : Bool) :
    (h.subscribe env name sub).conn = h.conn := by
  unfold subscribe
  split_ifs <;> rfl

@[simp] theorem subscribeClipboard_conn : (h.subscribeClipboard env).conn = h.conn := subscribe_conn env h _ _

@[simp] theorem subscribeFileClipboard_conn : (h.subscribeFileClipboard env).conn = h.conn := by
  unfold subscribeFileClipboard
  split_ifs
  · exact subscribe_conn env h _ _
  · rfl

end Conn

/-! ## Options of a remote session -/

/-- An authorized remote session and its subscriptions. -/
structure Monitored (env : Env) (stale : List ServiceName) (h : Host) : Prop where
  fed : Fed env stale h
  isMonitor : h.conn.isMonitor = true

section Options

variable {env : Env} {h h' : Host} {stale : List ServiceName}

theorem isMonitor_of_ledger (heq : h'.ledger = h.ledger) : h'.conn.isMonitor = h.conn.isMonitor := by
  have hauth : h'.conn.authorized = h.conn.authorized := congrArg (·.login.authorized) heq
  have hkind : h'.conn.authedConnId = h.conn.authedConnId := congrArg (·.login.authedConnId) heq
  simp only [isMonitor, isAuthedRemoteConn, hauth, hkind]

theorem Monitored.of_ledger (hmonitored : Monitored env stale h) (hfed : Fed env stale h')
    (heq : h'.ledger = h.ledger) : Monitored env stale h' :=
  ⟨hfed, (isMonitor_of_ledger heq).trans hmonitored.isMonitor⟩

theorem Fed.subscribeClipboard (hfed : Fed env (.clipboard :: stale) h)
    (hmonitor : env.hasService .clipboard = true → h.conn.canSubClipboardService env = true →
      h.conn.isMonitor = true) : Fed env stale (h.subscribeClipboard env) :=
  hfed.subscribe fun hon hservice => by simp [mayHear, hmonitor hservice hon, hon]

theorem Fed.subscribeFileClipboard (hfed : Fed env (.fileClipboard :: stale) h)
    (hmonitor : env.hasService .fileClipboard = true → h.conn.canSubFileClipboardService env = true →
      h.conn.isMonitor = true) : Fed env stale (h.subscribeFileClipboard env) := by
  unfold Host.subscribeFileClipboard
  by_cases hbuild : env.build.unixFileCopyPaste = true
  · rw [if_pos hbuild]
    exact hfed.subscribe fun hon hservice => by simp [mayHear, hmonitor hservice hon, hon]
  · rw [if_neg hbuild]
    refine ⟨hfed.registered, hfed.permitted.of_unset ?_⟩
    rw [Bool.eq_false_iff]
    intro hset
    have hservice := hfed.registered .fileClipboard not_mem_nil hset
    simp [Env.hasService, hbuild] at hservice

theorem Fed.subscribeCursor (hfed : Fed env (.cursor :: stale) h) (hmonitor : h.conn.isMonitor = true) :
    Fed env stale (h.subscribeCursor env) :=
  hfed.subscribe fun hon _ => by simp [mayHear, hmonitor, hon]

/-- Audio follows the permission in a remote session and the voice call in a camera session. -/
theorem Fed.subscribeAudio (hfed : Fed env (.audio :: stale) h) (hauth : h.conn.authorized = true)
    (hkind : h.conn.audioEnabled = true → h.conn.isAuthedRemoteConn = true ∨ h.conn.isAuthedViewCameraConn = true)
    (hunset : h.conn.isAuthedViewCameraConn = true → h.conn.voiceCalling = false →
      h.subs .audio = false) : Fed env stale (h.subscribeAudio env) := by
  unfold Host.subscribeAudio
  by_cases hcamera : h.conn.isAuthedViewCameraConn = true
  · rw [if_pos hcamera]
    by_cases hfollows : (h.conn.voiceCalling || !h.conn.audioEnabled) = true
    · rw [if_pos hfollows]
      refine hfed.subscribe fun hon _ => ?_
      have hcalling : h.conn.voiceCalling = true := by simpa [hon] using hfollows
      simp [mayHear, hauth, hon, hcamera, hcalling]
    · rw [if_neg hfollows]
      have hsilent : h.conn.voiceCalling = false := by
        simp only [Bool.or_eq_true, not_or] at hfollows
        exact Bool.eq_false_iff.mpr hfollows.1
      exact ⟨hfed.registered, hfed.permitted.of_unset (hunset hcamera hsilent)⟩
  · rw [if_neg hcamera]
    refine hfed.subscribe fun hon _ => ?_
    have hremote := (hkind hon).resolve_right hcamera
    simp [mayHear, hauth, hon, hremote]

section

variable (hmonitored : Monitored env stale h)
include hmonitored

theorem Monitored.isAuthedRemoteConn : h.conn.authorized = true ∧ h.conn.isAuthedRemoteConn = true :=
  Bool.and_eq_true_iff.mp hmonitored.isMonitor

/-- The flags of one service do not matter for another. -/
theorem Monitored.setShowRemoteCursor (on : Bool) : Monitored env stale (h.setShowRemoteCursor env on) := by
  refine hmonitored.of_ledger ?_ (ledger_setShowRemoteCursor env h on)
  have hstale : Fed env (.cursor :: stale) (h.updateConn fun c => { c with showRemoteCursor := on }) := by
    refine hmonitored.fed.updateConn _ (subset_cons_self _ _) fun n hn => ?_
    cases n <;> first | exact id | exact absurd mem_cons_self hn
  have hcursor := hstale.subscribeCursor hmonitored.isMonitor
  exact (hcursor.mono (subset_cons_self .pos stale)).subscribe fun _ _ => rfl

theorem Monitored.setFollowRemoteWindow (on : Bool) : Monitored env stale (h.setFollowRemoteWindow env on) := by
  refine hmonitored.of_ledger ?_ (ledger_setFollowRemoteWindow env h on)
  have hsame : Fed env stale (h.updateConn fun c => { c with followRemoteWindow := on }) := by
    refine hmonitored.fed.updateConn _ (List.Subset.refl stale) fun n _ => ?_
    cases n <;> exact id
  exact (hsame.mono (subset_cons_self .windowFocus stale)).subscribe fun _ _ => rfl

end

/-- A session without a voice call hears no audio of the camera. -/
theorem Fed.audio_unset (hfed : Fed env [] h) (hcamera : h.conn.isAuthedViewCameraConn = true)
    (hsilent : h.conn.voiceCalling = false) : h.subs .audio = false := by
  rw [Bool.eq_false_iff]
  intro hset
  have hheard := hfed.permitted .audio not_mem_nil hset
  simp only [isAuthedViewCameraConn, decide_eq_true_eq] at hcamera
  simp [mayHear, isAuthedRemoteConn, hcamera, hsilent] at hheard

theorem Fed.setDisableAudio (hfed : Fed env [] h) (hauth : h.conn.authorized = true)
    (hkind : h.conn.isAuthedRemoteConn = true ∨ h.conn.isAuthedViewCameraConn = true) (on : Bool) :
    Fed env [] (h.setDisableAudio env on) := by
  have hstale : Fed env [.audio] (h.updateConn fun c => { c with disableAudio := on }) := by
    refine hfed.updateConn _ (nil_subset _) fun n hn => ?_
    cases n <;> first | exact id | exact absurd mem_cons_self hn
  exact hstale.subscribeAudio hauth (fun _ => hkind) fun hcamera hsilent => hfed.audio_unset hcamera hsilent

theorem Monitored.setDisableAudio (hmonitored : Monitored env [] h) (on : Bool) :
    Monitored env [] (h.setDisableAudio env on) := by
  refine hmonitored.of_ledger ?_ (ledger_setDisableAudio env h on)
  obtain ⟨hauth, hremote⟩ := hmonitored.isAuthedRemoteConn
  exact hmonitored.fed.setDisableAudio hauth (.inl hremote) on

theorem Monitored.setEnableFileTransfer (hmonitored : Monitored env stale h) (on : Bool) :
    Monitored env stale (h.setEnableFileTransfer env on) := by
  refine hmonitored.of_ledger ?_ (Host.ledger_setEnableFileTransfer env h on)
  have hstale : Fed env (.fileClipboard :: stale) (h.updateConn fun c => { c with enableFileTransfer := on }) := by
    refine hmonitored.fed.updateConn _ (subset_cons_self _ _) fun n hn => ?_
    cases n <;> first | exact id | exact absurd mem_cons_self hn
  unfold Host.setEnableFileTransfer
  dsimp only
  split_ifs
  · exact Fed.subscribeFileClipboard (hstale.of_feed rfl) fun _ _ => hmonitored.isMonitor
  · exact hstale.subscribeFileClipboard fun _ _ => hmonitored.isMonitor

/-- Disabling the clipboard leaves the file clipboard as it was. -/
theorem Monitored.setDisableClipboard_stale (hmonitored : Monitored env [] h) (on : Bool) :
    Monitored env [.fileClipboard] (h.setDisableClipboard env on) := by
  refine ⟨?_, (isMonitor_of_ledger (ledger_setDisableClipboard env h on)).trans hmonitored.isMonitor⟩
  have hstale : Fed env [.clipboard, .fileClipboard] (h.updateConn fun c => { c with disableClipboard := on }) := by
    refine hmonitored.fed.updateConn _ (nil_subset _) fun n hn => ?_
    cases n <;> first | exact id | exact absurd (by simp) hn
  exact hstale.subscribeClipboard fun _ _ => hmonitored.isMonitor

/-- A change of the clipboard flags, with the files subscribed only as far as they stay permitted. -/
theorem Fed.updateClipboard (hfed : Fed env [] h)
    (hother : ∀ n, n ≠ .clipboard → n ≠ .fileClipboard → mayHear env h.conn n = true → mayHear env (f h.conn) n = true)
    (hfiles : h.subs .fileClipboard = true → mayHear env h.conn .fileClipboard = true →
      mayHear env (f h.conn) .fileClipboard = true) : Fed env [.clipboard] (h.updateConn f) := by
  refine ⟨hfed.registered, fun n hn hset => ?_⟩
  have hbefore := hfed.permitted n not_mem_nil hset
  by_cases hfile : n = .fileClipboard
  · subst hfile
    exact hfiles hset hbefore
  · exact hother n (fun hclip => hn (by simp [hclip])) hfile hbefore

/-- Giving the clipboard back does not take files away. -/
theorem mayHear_fileClipboard_of_enabled {clipboard disableClipboard : Bool}
    (hmore : c.clipboardEnabled = true → (clipboard && !disableClipboard) = true)
    (hbefore : mayHear env c .fileClipboard = true) :
    mayHear env { c with clipboard := clipboard, disableClipboard := disableClipboard } .fileClipboard = true := by
  simp only [mayHear, canSubFileClipboardService, Bool.and_eq_true] at hbefore ⊢
  obtain ⟨hmonitor, ⟨henabled, hfile⟩, honeWay⟩ := hbefore
  exact ⟨hmonitor, ⟨hmore henabled, hfile⟩, honeWay⟩

theorem Monitored.setDisableClipboard (hmonitored : Monitored env [] h) (on : Bool)
    (hunset : on = true → h.subs .fileClipboard = false) :
    Monitored env [] (h.setDisableClipboard env on) := by
  refine hmonitored.of_ledger ?_ (ledger_setDisableClipboard env h on)
  have hstale : Fed env [.clipboard] (h.updateConn fun c => { c with disableClipboard := on }) := by
    refine hmonitored.fed.updateClipboard (fun n hclip hfile => ?_) fun hset hbefore => ?_
    · cases n <;> first | exact id | exact absurd rfl hclip | exact absurd rfl hfile
    · have hoff : on = false := by
        rw [Bool.eq_false_iff]
        exact fun hon => Bool.noConfusion ((hunset hon).symm.trans hset)
      refine mayHear_fileClipboard_of_enabled (fun henabled => ?_) hbefore
      simpa [hoff] using (Bool.and_eq_true_iff.mp henabled).1
  exact hstale.subscribeClipboard fun _ _ => hmonitored.isMonitor

/-- The keyboard option repairs the file clipboard as well. -/
theorem Monitored.setDisableKeyboard (hmonitored : Monitored env [.fileClipboard] h) (on : Bool) :
    Monitored env [] (h.setDisableKeyboard env on) := by
  refine ⟨?_, (isMonitor_of_ledger (ledger_setDisableKeyboard env h on)).trans hmonitored.isMonitor⟩
  have hstale : Fed env [.clipboard, .fileClipboard, .cursor]
      (h.updateConn fun c => { c with disableKeyboard := on }) := by
    refine hmonitored.fed.updateConn _ (by simp) fun n hn => ?_
    cases n <;> first | exact id | exact absurd (by simp) hn
  have hclipboard := hstale.subscribeClipboard fun _ _ => hmonitored.isMonitor
  have hfile := hclipboard.subscribeFileClipboard fun _ _ =>
    (isMonitor_of_ledger (ledger_subscribeClipboard env _)).trans hmonitored.isMonitor
  refine hfile.subscribeCursor ?_
  rw [isMonitor_of_ledger (ledger_subscribeFileClipboard env _), isMonitor_of_ledger (ledger_subscribeClipboard env _)]
  exact hmonitored.isMonitor

theorem Monitored.of_feed (hmonitored : Monitored env stale h) (heq : h'.feed = h.feed) : Monitored env stale h' := by
  refine ⟨hmonitored.fed.of_feed heq, ?_⟩
  have hconn : h'.conn.feed = h.conn.feed := congrArg Prod.fst heq
  change h'.conn.feed.isMonitor = true
  rw [hconn]
  exact hmonitored.isMonitor

end Options

/-- The field asks for a change. -/
def BoolField.isSet (field : BoolField) : Bool :=
  field.enumValue = some .yes || field.enumValue = some .no

/-- The options do not disable the clipboard while files are, or become, subscribed, unless the
keyboard option comes with them, which subscribes the files again. -/
def fileClipboardGuard (env : Env) (subscribed : Bool) (o : OptionMessage) : Bool :=
  !env.hasService .fileClipboard || o.disableClipboard.enumValue ≠ some .yes || o.disableKeyboard.isSet
    || !subscribed && o.enableFileTransfer.enumValue ≠ some .yes

section UpdateOptions

variable {env : Env} {h h' : Host} {stale : List ServiceName} {o option : OptionMessage} {f : Host → Bool → Host}
  {P : Host → Prop} {o : OptionMessage}

/-- An option is applied as it is set, or not at all. -/
theorem applyBool_cases {compiled : Bool} {field : BoolField} (hskip : (compiled && field.isSet) = false → P h)
    (hset : ∀ on, field.enumValue = some (if on then .yes else .no) → P (f h on)) :
    P (applyBool compiled field f h) := by
  unfold applyBool
  split_ifs with hcompiled
  · split
    · next heq => exact hset true heq
    · next heq => exact hset false heq
    · next heq => exact hskip (by simp [BoolField.isSet, heq])
    · next heq => exact hskip (by simp [BoolField.isSet, heq])
  · exact hskip (by simp [hcompiled])

theorem applyBool_keeps (compiled : Bool) (field : BoolField)
    (hset : ∀ h on, P h → P (f h on)) (hkeep : P h) : P (applyBool compiled field f h) :=
  applyBool_cases (fun _ => hkeep) fun on _ => hset h on hkeep

theorem subscribe_subs_of_ne {name other : ServiceName} (sub : Bool) (hne : other ≠ name) :
    (h.subscribe env name sub).subs other = h.subs other := by
  unfold subscribe
  split_ifs
  · exact Function.update_of_ne hne _ _
  · rfl

/-- A monitored session whose file clipboard is as it was. -/
structure FilesKept (env : Env) (files : Bool) (h : Host) : Prop where
  monitored : Monitored env [] h
  files : h.subs .fileClipboard = files

section FilesKept

variable {files : Bool} (hkept : FilesKept env files h)
include hkept

theorem FilesKept.of_feed (heq : h'.feed = h.feed) : FilesKept env files h' := by
  refine ⟨hkept.monitored.of_feed heq, ?_⟩
  have hsubs : h'.subs = h.subs := congrArg Prod.snd heq
  rw [hsubs]
  exact hkept.files

theorem FilesKept.setShowRemoteCursor (on : Bool) : FilesKept env files (h.setShowRemoteCursor env on) := by
  refine ⟨hkept.monitored.setShowRemoteCursor on, ?_⟩
  unfold Host.setShowRemoteCursor Host.subscribeCursor
  dsimp only
  rw [subscribe_subs_of_ne _ (by decide), subscribe_subs_of_ne _ (by decide)]
  exact hkept.files

theorem FilesKept.setFollowRemoteWindow (on : Bool) : FilesKept env files (h.setFollowRemoteWindow env on) := by
  refine ⟨hkept.monitored.setFollowRemoteWindow on, ?_⟩
  unfold Host.setFollowRemoteWindow
  rw [subscribe_subs_of_ne _ (by decide)]
  exact hkept.files

theorem FilesKept.setDisableAudio (on : Bool) : FilesKept env files (h.setDisableAudio env on) := by
  refine ⟨hkept.monitored.setDisableAudio on, ?_⟩
  have haudio : ∀ h : Host, (h.subscribeAudio env).subs .fileClipboard = h.subs .fileClipboard := by
    intro h
    unfold subscribeAudio
    split_ifs
    · exact subscribe_subs_of_ne _ (by decide)
    · rfl
    · exact subscribe_subs_of_ne _ (by decide)
  exact (haudio _).trans hkept.files

end FilesKept

/-- Without the permission of the peer files are not subscribed. -/
theorem setEnableFileTransfer_subs (hunset : h.subs .fileClipboard = false) :
    (h.setEnableFileTransfer env false).subs .fileClipboard = false := by
  have hsubscribe : ∀ h : Host, h.conn.enableFileTransfer = false → h.subs .fileClipboard = false →
      (h.subscribeFileClipboard env).subs .fileClipboard = false := by
    intro h hoff hunset
    unfold subscribeFileClipboard subscribe
    split_ifs
    · simp [canSubFileClipboardService, fileTransferEnabled, hoff]
    · exact hunset
    · exact hunset
  unfold setEnableFileTransfer
  dsimp only
  split_ifs <;> exact hsubscribe _ rfl hunset

theorem Monitored.mono (hmonitored : Monitored env [] h) : Monitored env stale h :=
  ⟨hmonitored.fed.mono (nil_subset stale), hmonitored.isMonitor⟩

/-- The options that the clipboards depend on, in the order in which they are applied. -/
theorem FilesKept.clipboardOptions {files : Bool} (hkept : FilesKept env files h)
    (hguard : fileClipboardGuard env files o = true) :
    Monitored env [] (applyBool true o.disableKeyboard (setDisableKeyboard env)
      (applyBool true o.disableClipboard (setDisableClipboard env)
        (applyBool env.build.hasFileClipboard o.enableFileTransfer (setEnableFileTransfer env) h))) := by
  have henabled := applyBool_keeps env.build.hasFileClipboard o.enableFileTransfer
    (fun _ on hmonitored => hmonitored.setEnableFileTransfer on) hkept.monitored
  by_cases hkeyboard : o.disableKeyboard.isSet = true
  · have hstale : Monitored env [.fileClipboard] (applyBool true o.disableClipboard
        (setDisableClipboard env) (applyBool env.build.hasFileClipboard o.enableFileTransfer
          (setEnableFileTransfer env) h)) :=
      applyBool_cases (fun _ => henabled.mono) fun on _ => henabled.setDisableClipboard_stale on
    refine applyBool_cases (fun hskip => ?_) fun on _ => hstale.setDisableKeyboard on
    simp [hkeyboard] at hskip
  · have hfiles : o.disableClipboard.enumValue = some .yes →
        (applyBool env.build.hasFileClipboard o.enableFileTransfer (setEnableFileTransfer env)
          h).subs .fileClipboard = false := by
      intro hyes
      by_cases hservice : env.hasService .fileClipboard = true
      · obtain ⟨hunset, hnotYes⟩ : files = false ∧ o.enableFileTransfer.enumValue ≠ some .yes := by
          simpa [fileClipboardGuard, hservice, hyes, hkeyboard] using hguard
        refine applyBool_cases (P := fun h => h.subs .fileClipboard = false) (fun _ => ?_) fun on heq => ?_
        · exact hkept.files.trans hunset
        · cases on with
          | true => exact absurd heq hnotYes
          | false => exact setEnableFileTransfer_subs (hkept.files.trans hunset)
      · rw [Bool.eq_false_iff]
        exact fun hset => hservice (henabled.fed.registered .fileClipboard not_mem_nil hset)
    refine applyBool_cases (fun _ => ?_) fun on heq => ?_
    · refine applyBool_cases (fun _ => henabled) fun on heq => ?_
      exact henabled.setDisableClipboard on fun hon => hfiles (by simpa [hon] using heq)
    · cases on <;> simp [BoolField.isSet, heq] at hkeyboard

/-- The options of a remote session keep its subscriptions in order. -/
theorem Monitored.updateOptions (hmonitored : Monitored env [] h)
    (hguard : fileClipboardGuard env (h.subs .fileClipboard) o = true) :
    Monitored env [] (h.updateOptions env o) := by
  unfold Host.updateOptions
  dsimp only
  have hkept : FilesKept env (h.subs .fileClipboard) h := ⟨hmonitored, rfl⟩
  replace hkept := applyBool_keeps true o.lockAfterSessionEnd
    (fun h on hkept => hkept.of_feed (h.feed_setLockAfterSessionEnd on)) hkept
  replace hkept := applyBool_keeps env.build.desktop o.showRemoteCursor
    (fun _ on hkept => hkept.setShowRemoteCursor on) hkept
  replace hkept := applyBool_keeps env.build.desktop o.followRemoteCursor
    (fun h on hkept => hkept.of_feed (h.feed_setFollowRemoteCursor on)) hkept
  replace hkept := applyBool_keeps true o.followRemoteWindow (fun _ on hkept => hkept.setFollowRemoteWindow on) hkept
  replace hkept := applyBool_keeps true o.disableAudio (fun _ on hkept => hkept.setDisableAudio on) hkept
  have hclipboards := hkept.clipboardOptions hguard
  refine applyBool_keeps _ _ (fun h on hm => hm.of_feed (h.feed_setShowMyCursor on)) ?_
  refine applyBool_keeps _ _ (fun h on hm => hm.of_feed (h.feed_setTerminalPersistent on)) ?_
  refine applyBool_keeps _ _ (fun h on hm => hm.of_feed (h.feed_setBlockInput on)) ?_
  exact applyBool_keeps _ _ (fun h on hm => hm.of_feed (h.feed_setPrivacyModeOption on)) hclipboards

theorem applyBool_unset (compiled : Bool) (f : Host → Bool → Host) : applyBool compiled ⟨0⟩ f h = h := by
  cases compiled <;> rfl

/-- A camera session applies the audio option only. -/
theorem updateOptions_viewCamera (heq : (scopedViewCameraOption o).1 = some option) :
    h.updateOptions env option = applyBool true option.disableAudio (setDisableAudio env) h := by
  rw [eq_of_keepIfAnyField heq]
  simp only [updateOptions, applyBool_unset]

/-- A terminal session applies its persistence only. -/
theorem updateOptions_terminal (heq : (scopedTerminalLoginOption o).1 = some option) : h.updateOptions env option =
      applyBool env.build.desktop option.terminalPersistent setTerminalPersistent h := by
  rw [eq_of_keepIfAnyField heq]
  simp only [updateOptions, applyBool_unset]

/-- The options of every kind of session keep its subscriptions in order. -/
theorem Fed.updateOptions {kind : AuthConnType} (hfed : Fed env [] h)
    (hauth : h.conn.authorized = true) (hkind : h.conn.authedConnId = some kind)
    (hscoped : (scopedLoginOption kind o).1 = some option)
    (hguard : kind = .remote → fileClipboardGuard env (h.subs .fileClipboard) o = true) :
    Fed env [] (h.updateOptions env option) := by
  cases kind with
  | remote =>
    obtain rfl : o = option := Option.some.inj hscoped
    have hmonitor : h.conn.isMonitor = true := by
      simp [isMonitor, isAuthedRemoteConn, hauth, hkind]
    exact (Monitored.updateOptions ⟨hfed, hmonitor⟩ (hguard rfl)).fed
  | viewCamera =>
    have hcamera : h.conn.isAuthedViewCameraConn = true := by simp [isAuthedViewCameraConn, hkind]
    rw [updateOptions_viewCamera hscoped]
    exact applyBool_cases (fun _ => hfed) fun on _ => hfed.setDisableAudio hauth (.inr hcamera) on
  | terminal =>
    rw [updateOptions_terminal hscoped]
    exact applyBool_keeps _ _ (fun h on hfed => hfed.of_feed (h.feed_setTerminalPersistent on)) hfed
  | fileTransfer => cases hscoped
  | portForward => cases hscoped

end UpdateOptions

/-! ## Permissions and voice calls -/

/-- A service of this build that a changed permission would subscribe needs a remote session. -/
def needsMonitor (env : Env) (c : Connection) (name : ServiceName) (sub : Bool) : Bool :=
  !(env.hasService name && sub) || c.isMonitor

/-- The switches of a permission that subscribe what the session may hear and no more. -/
def switchGuard (env : Env) (h : Host) (name : String) (enabled : Bool) : Bool :=
  let c := h.conn
  if name = "keyboard" then
    let c' := { c with keyboard := enabled }
    needsMonitor env c .clipboard (c'.canSubClipboardService env)
      && needsMonitor env c .fileClipboard (c'.canSubFileClipboardService env)
      && needsMonitor env c .cursor (enabled || c.showRemoteCursor)
      -- The peer may have disabled the keyboard itself.
      && (!env.hasService .cursor || !enabled || !c.disableKeyboard || c.showRemoteCursor)
  else if name = "clipboard" then
    needsMonitor env c .clipboard ({ c with clipboard := enabled }.canSubClipboardService env)
      && (enabled || !h.subs .fileClipboard)
  else if name = "audio" then
    !c.authorized || !{ c with audio := enabled }.audioEnabled || c.isAuthedRemoteConn
      || c.isAuthedViewCameraConn
  else if name = "file" then
    needsMonitor env c .fileClipboard ({ c with file := enabled }.canSubFileClipboardService env)
  else true

section Permissions

variable {env : Env} {h : Host}

theorem isMonitor_of_needsMonitor {sub : Bool}
    (hneeds : needsMonitor env c name sub = true) (hservice : env.hasService name = true)
    (hsub : sub = true) : c.isMonitor = true := by
  simpa [needsMonitor, hservice, hsub] using hneeds

section Fed

variable (hfed : Fed env [] h) {enabled : Bool}
include hfed

theorem Fed.switchKeyboard
    (hguard : switchGuard env h "keyboard" enabled = true) : Fed env [] (h.switchKeyboard env enabled) := by
  unfold switchGuard at hguard
  dsimp only at hguard
  rw [if_pos rfl] at hguard
  simp only [Bool.and_eq_true] at hguard
  obtain ⟨⟨⟨hclipboard, hfiles⟩, hcursor⟩, hdisabled⟩ := hguard
  have hstale : Fed env [.clipboard, .fileClipboard, .cursor]
      (h.updateConn fun c => { c with keyboard := enabled }) := by
    refine hfed.updateConn _ (nil_subset _) fun n hn => ?_
    cases n <;> first | exact id | exact absurd (by simp) hn
  replace hstale := hstale.of_feed (feed_emit _ (.permission .keyboard enabled))
  replace hstale := hstale.subscribeClipboard (isMonitor_of_needsMonitor hclipboard)
  replace hstale := hstale.subscribeFileClipboard (by
    rw [subscribeClipboard_conn]
    exact isMonitor_of_needsMonitor hfiles)
  refine hstale.subscribe fun hsub hservice => ?_
  rw [subscribeFileClipboard_conn, subscribeClipboard_conn] at hsub ⊢
  have hmonitor := isMonitor_of_needsMonitor hcursor hservice hsub
  change (h.conn.isMonitor && (enabled && !h.conn.disableKeyboard || h.conn.showRemoteCursor)) = true
  rw [hmonitor, Bool.true_and]
  change (enabled || h.conn.showRemoteCursor) = true at hsub
  cases hshow : h.conn.showRemoteCursor with
  | true => simp
  | false =>
    have hon : enabled = true := by simpa [hshow] using hsub
    simpa [hservice, hshow, hon] using hdisabled

theorem Fed.switchClipboard
    (hguard : switchGuard env h "clipboard" enabled = true) : Fed env [] (h.switchClipboard env enabled) := by
  obtain ⟨hclipboard, hunset⟩ : needsMonitor env h.conn .clipboard
      ({ h.conn with clipboard := enabled }.canSubClipboardService env) = true ∧
      (enabled || !h.subs .fileClipboard) = true := by
    rw [← Bool.and_eq_true]
    exact hguard
  have hstale : Fed env [.clipboard] (h.updateConn fun c => { c with clipboard := enabled }) := by
    refine hfed.updateClipboard (fun n hclip hfile => ?_) fun hset hbefore => ?_
    · cases n <;> first | exact id | exact absurd rfl hclip | exact absurd rfl hfile
    · have hon : enabled = true := by simpa [hset] using hunset
      refine mayHear_fileClipboard_of_enabled (fun henabled => ?_) hbefore
      simpa [hon] using (Bool.and_eq_true_iff.mp henabled).2
  replace hstale := hstale.of_feed (feed_emit _ (.permission .clipboard enabled))
  exact hstale.subscribeClipboard (isMonitor_of_needsMonitor hclipboard)

theorem Fed.switchAudio
    (hguard : switchGuard env h "audio" enabled = true) : Fed env [] (h.switchAudio env enabled) := by
  have hguard' : (!h.conn.authorized || !{ h.conn with audio := enabled }.audioEnabled ||
      h.conn.isAuthedRemoteConn || h.conn.isAuthedViewCameraConn) = true := hguard
  have hstale : Fed env [.audio] (h.updateConn fun c => { c with audio := enabled }) := by
    refine hfed.updateConn _ (nil_subset _) fun n hn => ?_
    cases n <;> first | exact id | exact absurd mem_cons_self hn
  replace hstale := hstale.of_feed (Host.feed_emit _ (.permission .audio enabled))
  unfold Host.switchAudio
  dsimp only
  split_ifs with hauth
  · have hauth' : h.conn.authorized = true := hauth
    refine hstale.subscribeAudio hauth (fun hon => ?_) fun hcamera hsilent => hfed.audio_unset hcamera hsilent
    have hon' : ({ h.conn with audio := enabled } : Connection).audioEnabled = true := hon
    change h.conn.isAuthedRemoteConn = true ∨ h.conn.isAuthedViewCameraConn = true
    rw [hon', hauth'] at hguard'
    simpa using hguard'
  · refine ⟨hstale.registered, hstale.permitted.of_unset ?_⟩
    change h.subs .audio = false
    rw [Bool.eq_false_iff]
    intro hset
    have hheard := hfed.permitted .audio not_mem_nil hset
    simp only [mayHear, Bool.and_eq_true] at hheard
    exact hauth hheard.1.1

theorem Fed.switchFile (hguard : switchGuard env h "file" enabled = true) : Fed env [] (h.switchFile env enabled) := by
  have hfiles : needsMonitor env h.conn .fileClipboard
      ({ h.conn with file := enabled }.canSubFileClipboardService env) = true := hguard
  have hstale : Fed env [.fileClipboard] (h.updateConn fun c => { c with file := enabled }) := by
    refine hfed.updateConn _ (nil_subset _) fun n hn => ?_
    cases n <;> first | exact id | exact absurd mem_cons_self hn
  replace hstale := hstale.of_feed (feed_emit _ (.permission .file enabled))
  exact hstale.subscribeFileClipboard (isMonitor_of_needsMonitor hfiles)

end Fed

theorem feed_switchPrivacyMode (enabled : Bool) : (h.switchPrivacyMode enabled).feed = h.feed := by
  unfold switchPrivacyMode
  dsimp only
  split_ifs <;> rfl

section

variable (hfed : Fed env [] h)
include hfed

/-- A permission that is switched by the user keeps the subscriptions in order. -/
theorem Fed.switchPermission {name : String} {enabled : Bool}
    (hguard : switchGuard env h name enabled = true) : Fed env [] (h.switchPermission env name enabled) := by
  unfold Host.switchPermission
  split_ifs with hkeyboard hclipboard haudio hfile
  · exact hfed.switchKeyboard (hkeyboard ▸ hguard)
  · exact hfed.switchClipboard (hclipboard ▸ hguard)
  · exact hfed.switchAudio (haudio ▸ hguard)
  · exact hfed.switchFile (hfile ▸ hguard)
  · exact hfed.of_feed rfl
  · exact hfed.of_feed rfl
  · exact hfed.of_feed rfl
  · exact hfed.of_feed (feed_switchPrivacyMode enabled)
  · exact hfed

/-- A voice call starts or ends: audio of a camera session follows it. -/
theorem Fed.voiceCall {calling sub : Bool} (hauth : h.conn.isAuthedViewCameraConn = true → h.conn.authorized = true)
    (hsub : sub = true → h.conn.audioEnabled = true ∧ calling = true) :
    Fed env [] (if h.conn.isAuthedViewCameraConn then
      (h.updateConn fun c => { c with voiceCalling := calling }).subscribe env .audio sub
      else h.updateConn fun c => { c with voiceCalling := calling }) := by
  have haudio : mayHear env { h.conn with voiceCalling := calling } .audio =
      (h.conn.authorized && h.conn.audioEnabled && (h.conn.isAuthedRemoteConn ||
        h.conn.isAuthedViewCameraConn && calling)) := rfl
  by_cases hcamera : h.conn.isAuthedViewCameraConn = true
  · rw [if_pos hcamera]
    have hstale : Fed env [.audio] (h.updateConn fun c => { c with voiceCalling := calling }) := by
      refine hfed.updateConn _ (nil_subset _) fun n hn => ?_
      cases n <;> first | exact id | exact absurd mem_cons_self hn
    refine hstale.subscribe fun hon _ => ?_
    obtain ⟨henabled, hcalling⟩ := hsub hon
    refine haudio.trans ?_
    simp [hauth hcamera, henabled, hcamera, hcalling]
  · rw [if_neg hcamera]
    have hcamera := Bool.eq_false_iff.mpr hcamera
    refine hfed.updateConn _ (List.Subset.refl []) fun n _ => ?_
    cases n with
    | audio =>
      rw [haudio, hcamera]
      simp [mayHear, hcamera]
    | _ => exact id

theorem Fed.handleVoiceCall (accepted : Bool)
    (hauth : h.conn.isAuthedViewCameraConn = true → h.conn.authorized = true) :
    Fed env [] (h.handleVoiceCall env accepted) := by
  unfold Host.handleVoiceCall
  split
  · next timestamp _ =>
    have hasked : Fed env [] (((h.updateConn fun c => { c with
        voiceCallRequestTimestamp := none }).sendToCm (if accepted then .startVoiceCall else
        .closeVoiceCall)).emit (.voiceCallResponse timestamp accepted)) := hfed.of_feed rfl
    exact hasked.voiceCall hauth Bool.and_eq_true_iff.mp
  · exact hfed

theorem Fed.closeVoiceCall (hauth : h.conn.isAuthedViewCameraConn = true → h.conn.authorized = true) :
    Fed env [] (h.closeVoiceCall env) := by
  have htold : Fed env [] (h.sendToCm .closeVoiceCall) := hfed.of_feed rfl
  exact htold.voiceCall hauth nofun

end

end Permissions

end UnyDesk
