import UnyDesk.Connection.Reachable

/-!
# Terminal sessions

The token of the terminal user is obtained while a terminal request waits for its approval, and
it stays when another request takes its place. A plain request after a terminal one is granted
as remote control with the token still there, and since remote control is not filtered, it runs
terminal actions. A second terminal request with other credentials, or for another persistent
service, is granted with the token of the first one, unchecked.

Both laws hold of every run in which the requests that come while a token is there agree with
the one it was obtained for.
-/

namespace UnyDesk

open Lib Option Host

/-! ## Terminal actions -/

/-- A terminal action of an authorized terminal session. -/
def Mark.isTerminalSession : Mark → Bool
  | .terminalAction authorized kind => authorized && kind = some .terminal
  | _ => true

/-- The scope or the request stands for something other than plain remote control. -/
def Ledger.scoped (l : Ledger) : Bool :=
  l.login.fileTransfer.isSome || l.login.viewCamera || l.login.terminal || l.login.lr.tunnelTarget.isSome

/-- While a token is there, no plain request is stored: neither by a login request nor, when the
scope is plain as well, by a switch-sides response. -/
def plainRequestGuard (env : Env) (h : Host) (e : Event) : Bool :=
  !h.alive || h.conn.authorized || h.conn.terminalUserToken.isNone || match e with
    | .message (.loginRequest lr) => lr.union.isSome
    | .message (.switchSidesResponse s) =>
      match switchTaken env s with
      | some lr => h.conn.fileTransfer.isSome || h.conn.viewCamera || h.conn.terminal
          || lr.tunnelTarget.isSome
      | none => true
    | _ => true

/-- What the guarded runs keep: a waiting connection with a token is no plain one, and an
authorized remote session has no token. -/
structure TerminalInvariant (l : Ledger) : Prop where
  wellFormed : l.WellFormed
  actions : ∀ m ∈ l.trail, m.isTerminalSession = true
  waiting : l.login.authorized = false → l.alive = true → l.login.terminalUserToken.isSome = true → l.scoped = true
  remote : l.login.authorized = true → l.login.authedConnId = some .remote → l.login.terminalUserToken = none

section Actions

variable {env : Env} {h : Host} {e : Event} {l l' : Ledger} {lr : LoginRequest} {keep : Bool}

theorem SameScope.scoped_eq (hsame : SameScope l l') : l'.scoped = l.scoped := by
  simp only [Ledger.scoped, hsame.fileTransfer, hsame.viewCamera, hsame.terminal, hsame.lr]

/-- A request with a kind of its own gives the connection a scope. -/
theorem scoped_select (hlr : l.login.lr = lr) (hunion : lr.union.isSome = true) :
    (l.resetScope.select lr).scoped = true := by
  obtain ⟨union, heq⟩ := isSome_iff_exists.mp hunion
  unfold Ledger.select Ledger.scoped
  cases union with
  | fileTransfer dir showHidden => simp [heq]
  | viewCamera => simp [heq]
  | terminal serviceId => simp [heq]
  | portForward pf => simp [heq, hlr, Ledger.resetScope, LoginRequest.tunnelTarget]

/-- Only a terminal request can bring a token. -/
theorem Asked.token_eq_or (h : Asked env l l') :
    l'.login.terminalUserToken = l.login.terminalUserToken ∨ l.login.terminal = true := by
  cases h with
  | plain => exact .inl rfl
  | factor _ _ => exact .inl rfl
  | user h =>
    cases h with
    | skipped _ => exact .inl rfl
    | filled _ hterminal _ _ => exact .inr hterminal

@[simp] theorem select_terminalUserToken (lr : LoginRequest) :
    (l.select lr).login.terminalUserToken = l.login.terminalUserToken := by
  unfold Ledger.select
  split <;> rfl

/-- A login request that is stored while a token is there gives the connection a scope. -/
theorem Stored.scoped_select (hstored : Stored h.ledger lr l)
    (hguard : plainRequestGuard env h (.message (.loginRequest lr)) = true) (halive : h.alive = true)
    (hauth : h.conn.authorized = false)
    (htoken : (l.resetScope.select lr).login.terminalUserToken.isSome = true) :
    (l.resetScope.select lr).scoped = true := by
  have hbefore : h.conn.terminalUserToken.isSome = true := by
    rw [select_terminalUserToken] at htoken
    exact (congrArg isSome hstored.terminalUserToken_eq).symm.trans htoken
  have hnotNone : h.conn.terminalUserToken.isNone = false := by simpa using hbefore
  apply UnyDesk.scoped_select hstored.lr_eq
  simpa [plainRequestGuard, halive, hauth, hnotNone] using hguard

/-- A switch-sides response that is taken up while a token is there leaves a scope. -/
theorem Stored.scoped_switch {s : SwitchSidesResponse} (hstored : Stored h.ledger lr l)
    (htaken : switchTaken env s = some lr)
    (hguard : plainRequestGuard env h (.message (.switchSidesResponse s)) = true) (halive : h.alive = true)
    (hauth : h.conn.authorized = false) (htoken : l.login.terminalUserToken.isSome = true) :
    l.scoped = true := by
  have hbefore : h.conn.terminalUserToken.isSome = true :=
    (congrArg isSome hstored.terminalUserToken_eq).symm.trans htoken
  have hnotNone : h.conn.terminalUserToken.isNone = false := by simpa using hbefore
  have hscoped : (h.conn.fileTransfer.isSome || h.conn.viewCamera || h.conn.terminal
      || lr.tunnelTarget.isSome) = true := by
    simpa [plainRequestGuard, halive, hauth, hnotNone, htaken] using hguard
  cases hstored <;> exact hscoped

theorem Pending.scoped (hpending : Pending env h e l') (hguard : plainRequestGuard env h e = true)
    (halive : h.alive = true) (hauth : h.conn.authorized = false)
    (hwaiting : h.conn.terminalUserToken.isSome = true → h.ledger.scoped = true) :
    l'.login.terminalUserToken.isSome = true → l'.scoped = true := by
  intro htoken
  cases hpending with
  | kept hkept =>
    rw [hkept.login] at htoken
    rw [hkept.sameScope.scoped_eq]
    exact hwaiting htoken
  | worldChange w => exact hwaiting htoken
  | silent hstored _ heq =>
    rcases heq with rfl | ⟨method, rfl⟩
    · exact hstored.scoped_select hguard halive hauth htoken
    · exact hstored.scoped_select hguard halive hauth htoken
  | @asked lr l l' login hstored hasked _ =>
    change l'.scoped = true
    rw [hasked.sameScope.scoped_eq]
    rcases hasked.token_eq_or with hsame | hterminal
    · refine hstored.scoped_select hguard halive hauth ?_
      rw [← hsame]
      exact htoken
    · simp [Ledger.scoped, hterminal]
  | switchUnmatched htaken _ hstored => exact hstored.scoped_switch htaken hguard halive hauth htoken

theorem GrantBase.scoped (hbase : GrantBase env h e l) (hguard : plainRequestGuard env h e = true)
    (halive : h.alive = true) (hauth : h.conn.authorized = false)
    (hwaiting : h.conn.terminalUserToken.isSome = true → h.ledger.scoped = true) :
    l.login.terminalUserToken.isSome = true → l.scoped = true := by
  intro htoken
  cases hbase with
  | login method hstored => exact hstored.scoped_select hguard halive hauth htoken
  | auth2fa _ => exact hwaiting htoken
  | switch htaken _ hstored => exact hstored.scoped_switch htaken hguard halive hauth htoken
  | authorize => exact hwaiting htoken

/-- A grant of plain remote control has no token. -/
theorem Grants.token_none {g : Grant} {marks : List Mark} (hgrants : Grants env l l' g marks)
    (hscoped : l.login.terminalUserToken.isSome = true → l.scoped = true) (hremote : g.kind = .remote) :
    g.terminalUserToken = none := by
  have hkind := hgrants.kind
  rw [hremote, hgrants.socket] at hkind
  unfold Ledger.kindWith at hkind
  split_ifs at hkind with hft hsocket hvc hterminal
  have hplain : l.scoped = false := by
    have htarget : l.login.lr.tunnelTarget.isSome = false := by
      rw [isSome_or, Bool.or_eq_true, not_or] at hsocket
      exact Bool.eq_false_iff.mpr hsocket.2
    simp [Ledger.scoped, hft, hvc, hterminal, htarget]
  rcases hgrants.user with ⟨-, hsame⟩ | ⟨token, hfilled, -⟩
  · rw [hsame]
    by_contra hsome
    have htoken : l.login.terminalUserToken.isSome = true := isSome_iff_ne_none.mpr hsome
    exact Bool.noConfusion (hplain.symm.trans (hscoped htoken))
  · exact absurd hfilled hterminal

/-- Every terminal action on the way was one of a terminal session. -/
def QuietlyExtends (l l' : Ledger) : Prop :=
  ∃ marks, l'.trail = marks ++ l.trail ∧ ∀ m ∈ marks, m.isTerminalSession = true

theorem Mark.isTerminalSession_of_isPlain {m : Mark} (h : m.isPlain = true) : m.isTerminalSession = true := by
  cases m <;> first | rfl | cases h

theorem PlainlyExtends.quietly (h : PlainlyExtends l l') : QuietlyExtends l l' := by
  obtain ⟨marks, htrail, hplain⟩ := h
  exact ⟨marks, htrail, fun m hm => Mark.isTerminalSession_of_isPlain (hplain m hm)⟩

theorem QuietlyExtends.of_eq (htrail : l'.trail = l.trail) : QuietlyExtends l l' := ⟨[], by simp [htrail]⟩

theorem QuietlyExtends.cons {m : Mark} (hm : m.isTerminalSession = true) (htrail : l'.trail = m :: l.trail) :
    QuietlyExtends l l' :=
  ⟨[m], htrail, by simp [hm]⟩

theorem QuietlyExtends.trans {l₁ : Ledger} (h : QuietlyExtends l l₁) (h' : QuietlyExtends l₁ l') :
    QuietlyExtends l l' := by
  obtain ⟨marks, htrail, hquiet⟩ := h
  obtain ⟨marks', htrail', hquiet'⟩ := h'
  refine ⟨marks' ++ marks, by rw [htrail', htrail, List.append_assoc], fun m hm => ?_⟩
  rcases List.mem_append.mp hm with hmem | hmem
  · exact hquiet' m hmem
  · exact hquiet m hmem

theorem Logon.quietly (h : Logon env l l' keep) : QuietlyExtends l l' := by
  cases h with
  | waits _ _ => exact .of_eq rfl
  | refused hrefused => exact hrefused.trail.quietly
  | @granted l₁ l₂ hsecond huser serviceId =>
    refine (hsecond.plainlyExtends.trans huser.plainlyExtends).quietly.trans ?_
    have htrail : (l₂.tunnel.authorize.nameService serviceId).trail = .granted l₂.tunnel.grant :: l₂.trail := by
      rw [← l₂.tunnel_trail]
      rfl
    exact .cons rfl htrail

theorem Resumed.quietly (h : Resumed env l l' keep) : QuietlyExtends l l' := by
  cases h with
  | refused hrefused => exact hrefused.trail.quietly
  | granted hlogon _ _ => exact hlogon.quietly

theorem LoginRequested.quietly {silent : Prop} (h : LoginRequested env silent l lr l' keep) : QuietlyExtends l l' := by
  cases h with
  | refused hrefused => exact hrefused.trail.quietly
  | approved hstored happroval =>
    refine hstored.plainlyExtends_select.quietly.trans ?_
    cases happroval with
    | silent _ => exact .of_eq rfl
    | silentFactor _ _ => exact .cons rfl rfl
    | refused hrefused => exact hrefused.trail.quietly
    | asked hasked _ => exact hasked.plainlyExtends.quietly
    | granted method hlogon _ _ => exact QuietlyExtends.trans (.cons rfl rfl) hlogon.quietly

/-- A terminal action that gets through belongs to a terminal session, if no remote session has
a token. -/
theorem terminalAction_isTerminalSession {body : Bytes} (hwf : h.ledger.WellFormed)
    (hauth : h.conn.authorized = true) (htoken : h.conn.terminalUserToken.isSome = true)
    (hscope : authorizedScopeViolation env.build h.conn.authedConnId (.terminalAction body) = none)
    (hremote : h.conn.authedConnId = some .remote → h.conn.terminalUserToken = none) :
    (Mark.terminalAction true h.conn.authedConnId).isTerminalSession = true := by
  obtain ⟨g, -, hkind, -⟩ := hwf.granted hauth
  have hkind : h.conn.authedConnId = some g.kind := hkind
  rw [hkind] at hscope hremote ⊢
  have hnotRemote : g.kind ≠ .remote := by
    intro heq
    have hnone := hremote (congrArg some heq)
    simp [hnone] at htoken
  by_contra hother
  have hnotTerminal : g.kind ≠ .terminal := by
    intro heq
    simp [Mark.isTerminalSession, heq] at hother
  have hviolation : (authorizedScopeViolation env.build (some g.kind) (.terminalAction body)).isSome = true :=
    authorizedScopeViolation_limited hnotRemote (.inr (.inr ⟨⟨body, rfl⟩, hnotTerminal⟩))
  simp [hscope] at hviolation

/-- The terminal actions of one event belong to a terminal session. -/
theorem Reaction.quietly (hreaction : Reaction env h e l') (hinv : TerminalInvariant h.ledger) :
    QuietlyExtends h.ledger l' := by
  have hloop : ∀ {l l' : Ledger} {keep : Bool}, Continues l keep l' → QuietlyExtends h.ledger l →
      QuietlyExtends h.ledger l' :=
    fun hcontinues hquiet => hquiet.trans (.of_eq hcontinues.trail_eq)
  cases hreaction with
  | kept hkept => exact .of_eq hkept.trail
  | worldChange w => exact .of_eq rfl
  | loginRequest _ hlogin hcontinues => exact hloop hcontinues hlogin.quietly
  | auth2fa _ _ hresumed hcontinues =>
    exact hloop hcontinues (QuietlyExtends.trans (.cons rfl rfl) hresumed.quietly)
  | auth2faAgain _ _ _ _ hcontinues => exact hloop hcontinues (.cons rfl rfl)
  | switchUnmatched _ _ _ hstored hcontinues => exact hloop hcontinues hstored.plainlyExtends.quietly
  | switchMatched _ _ _ hstored hresumed hcontinues =>
    refine hloop hcontinues (hstored.plainlyExtends.quietly.trans ?_)
    exact QuietlyExtends.trans (.cons rfl rfl) hresumed.quietly
  | switchAgain _ _ _ _ _ hstored hcontinues =>
    exact hloop hcontinues (hstored.plainlyExtends.quietly.trans (.cons rfl rfl))
  | authorize _ hlogon hcontinues =>
    exact hloop hcontinues (QuietlyExtends.trans (.cons rfl rfl) hlogon.quietly)
  | authorizeAgain _ hcontinues => exact hloop hcontinues (.cons rfl rfl)
  | terminalAction hauth htoken hscope hcontinues =>
    refine hloop hcontinues (.cons ?_ rfl)
    exact terminalAction_isTerminalSession hinv.wellFormed hauth htoken hscope (hinv.remote hauth)

theorem TerminalInvariant.step (hinv : TerminalInvariant h.ledger)
    (hguard : plainRequestGuard env h e = true) : TerminalInvariant (h.step env e).ledger := by
  refine step_ledger_invariant hinv fun l' halive hreaction => ?_
  refine ⟨wellFormed_reaction halive hinv.wellFormed hreaction, fun m hm => ?_, ?_, ?_⟩
  · obtain ⟨marks, htrail, hquiet⟩ := hreaction.quietly hinv
    rw [htrail] at hm
    rcases List.mem_append.mp hm with hmem | hmem
    · exact hquiet m hmem
    · exact hinv.actions m hmem
  · intro hauth' halive'
    have hauth := hreaction.unauthorized_before hauth'
    exact (hreaction.pending hauth' halive').scoped hguard halive hauth (hinv.waiting hauth halive)
  · intro hgranted hremote
    cases hreaction.authorized hgranted with
    | before hauth hlogin =>
      rw [hlogin] at hremote ⊢
      exact hinv.remote hauth hremote
    | granted hauth hbase hgrants hlogin =>
      have hwaiting := hbase.scoped hguard halive hauth (hinv.waiting hauth halive)
      rw [hlogin, hgrants.login] at hremote ⊢
      exact hgrants.token_none hwaiting (some.inj hremote)

end Actions

/-- Terminal access needs a terminal session: in every run in which no plain request is stored
while a token is there, every terminal action was run by an authorized terminal session. -/
theorem terminal_action_needs_terminal (env : Env) (world : World) (hash : HashMsg)
    (require2fa : Option Bytes) (events : List Event)
    (hguard : RunMeets (step env) (fun h e => plainRequestGuard env h e = true)
      (start env world hash require2fa) events) :
    let h := (start env world hash require2fa).run env events
    ∀ authorized kind, .terminalAction authorized kind ∈ h.trail → authorized = true ∧ kind = some .terminal := by
  intro h authorized kind hmem
  have hstart : TerminalInvariant (start env world hash require2fa).ledger := by
    refine ⟨wellFormed_start world hash require2fa, ?_, ?_, ?_⟩ <;> rw [start_ledger] <;> simp
  have hinv : TerminalInvariant h.ledger :=
    runEvents_invariant (I := fun h : Host => TerminalInvariant h.ledger)
      (fun _ _ hinv hok => hinv.step hok) hstart hguard
  simpa [Mark.isTerminalSession] using hinv.actions _ hmem

/-- A host that knows one administrator. -/
def terminalWorld : World :=
  { sampleWorld with
    logonUser := fun user password =>
      if user = "admin" && password = "right" then .administrator else .failed }

def terminalRequest : LoginRequest :=
  { sampleRequest with
    union := some (.terminal "")
    osLogin := some { username := "admin", password := "right" } }

/-- A terminal session runs a terminal action. -/
theorem terminal_action_needs_terminal_run :
    let h := (start sampleEnv terminalWorld sampleHash none).run sampleEnv
      [.message (.loginRequest terminalRequest), .authorize, .message (.terminalAction [])]
    .terminalAction true (some .terminal) ∈ h.trail ∧
      ∀ authorized kind, .terminalAction authorized kind ∈ h.trail → authorized = true ∧ kind = some .terminal :=
  ⟨by decide, terminal_action_needs_terminal sampleEnv terminalWorld sampleHash none _ (by decide)⟩

/-- A remote session runs a terminal action with the token of an earlier terminal request. -/
theorem remote_runs_terminal_action :
    let h := (start sampleEnv terminalWorld sampleHash none).run sampleEnv
      [.message (.loginRequest terminalRequest), .message (.loginRequest sampleRequest), .authorize,
        .message (.terminalAction [])]
    .terminalAction true (some .remote) ∈ h.trail := by
  decide

end UnyDesk
