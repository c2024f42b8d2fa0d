import UnyDesk.Connection.Terminal

/-!
# The user of a terminal session

A terminal session runs with the token that was obtained for the OS credentials of its request,
and the persistent service it attaches to belongs to the same kind of user. Both are checked
when the token is obtained; once a token is there, the preparation of every later request is
skipped. So the law needs that the requests which come while a token is there repeat its
credentials and its service, and that the service does not change its user meanwhile.
-/

namespace UnyDesk

open Lib List Host

section

variable (lr : LoginRequest)

/-- The OS user name and password that a token is asked for. -/
def LoginRequest.credentials : String × String :=
  (trim lr.osLoginOrDefault.username, lr.osLoginOrDefault.password)

/-- A request for the service that was selected before, if it is for a terminal at all. -/
def LoginRequest.keepsService (serviceId : String) : Bool :=
  match lr.union with
  | some (.terminal requested) => requested = serviceId
  | _ => true

/-- The token was obtained for the credentials. -/
def obtainedFor (token : TerminalUserToken) : Mark :=
  .tokenFilled lr.credentials.1 lr.credentials.2 token

def Mark.isObtainedFor : Mark → Bool
  | .tokenFilled username password _ => (username, password) = lr.credentials
  | _ => false

end

/-- The token and the service of a terminal session, given the decisions before its grant. -/
def UserBound (g : Grant) (earlier : List Mark) : Prop :=
  g.kind = .terminal → ∃ token, g.terminalUserToken = some token ∧ obtainedFor g.lr token ∈ earlier ∧
    ∀ isUser, g.serviceUser = some isUser → isUser = token.toTerminalServiceToken.isSome

/-- While a token is there, requests repeat its credentials and its service, and the user of the
service does not change. -/
def credentialsGuard (env : Env) (h : Host) (e : Event) : Bool :=
  !h.alive || h.conn.authorized || h.conn.terminalUserToken.isNone || match e with
    | .message (.loginRequest lr) =>
      lr.credentials = h.conn.lr.credentials && lr.keepsService h.conn.terminalServiceId
    | .message (.switchSidesResponse s) =>
      (switchTaken env s).all fun lr => lr.credentials = h.conn.lr.credentials
    | .worldChange w =>
      w.isServiceSpecifiedUser h.conn.terminalServiceId = h.world.isServiceSpecifiedUser h.conn.terminalServiceId
    | _ => true

/-- The token of a connection belongs to its request and to its service. -/
structure TokenBound (l : Ledger) : Prop where
  obtained : ∀ token, l.login.terminalUserToken = some token → obtainedFor l.login.lr token ∈ l.trail
  service : ∀ token isUser, l.login.terminalUserToken = some token →
    l.service l.login.terminalServiceId = some isUser → isUser = token.toTerminalServiceToken.isSome

structure UserInvariant (l : Ledger) : Prop where
  wellFormed : l.WellFormed
  grants : GrantsJustified UserBound l.trail
  bound : l.login.authorized = false → l.alive = true → TokenBound l

section Steps

variable {env : Env} {h : Host} {e : Event} {l l' : Ledger} {lr : LoginRequest}

theorem TokenBound.of_none (hnone : l.login.terminalUserToken = none) : TokenBound l := by
  refine ⟨fun token heq => ?_, fun token _ heq _ => ?_⟩ <;> simp [hnone] at heq

/-- The token stays bound as long as its credentials and its service do. -/
theorem TokenBound.mono (hbound : TokenBound l) (htoken : l'.login.terminalUserToken = l.login.terminalUserToken)
    (hcredentials : l'.login.lr.credentials = l.login.lr.credentials)
    (hservice : l'.service l'.login.terminalServiceId = l.service l.login.terminalServiceId)
    (htrail : ∀ m ∈ l.trail, m ∈ l'.trail) : TokenBound l' := by
  refine ⟨fun token heq => ?_, fun token isUser heq hisUser => ?_⟩
  · have hmem := hbound.obtained token (htoken.symm.trans heq)
    unfold obtainedFor at hmem ⊢
    rw [hcredentials]
    exact htrail _ hmem
  · exact hbound.service token isUser (htoken.symm.trans heq) (hservice.symm.trans hisUser)

/-- More decisions on the trail keep the token bound. -/
theorem TokenBound.plainlyExtends (hbound : TokenBound l) (hplain : PlainlyExtends l l')
    (htoken : l'.login.terminalUserToken = l.login.terminalUserToken) (hsame : SameScope l l')
    (hservice : l'.service = l.service) : TokenBound l' := by
  refine hbound.mono htoken ?_ ?_ fun m hm => ?_
  · rw [hsame.lr]
  · rw [hservice, hsame.terminalServiceId]
  · obtain ⟨marks, htrail, -⟩ := hplain
    rw [htrail]
    exact mem_append_right marks hm

@[simp] theorem select_service (lr : LoginRequest) : (l.select lr).service = l.service := by
  unfold Ledger.select
  split <;> rfl

theorem Stored.service_eq (hstored : Stored l lr l') : l'.service = l.service := by
  cases hstored <;> rfl

theorem Stored.terminalServiceId_eq (hstored : Stored l lr l') :
    l'.login.terminalServiceId = l.login.terminalServiceId := by
  cases hstored <;> rfl

/-- A request that keeps the service selects the service that was selected before. -/
theorem select_terminalServiceId (hkeeps : lr.keepsService l.login.terminalServiceId = true) :
    (l.select lr).login.terminalServiceId = l.login.terminalServiceId := by
  unfold LoginRequest.keepsService at hkeeps
  unfold Ledger.select
  cases hunion : lr.union with
  | none => rfl
  | some union =>
    cases union with
    | terminal serviceId => simpa [hunion] using hkeeps
    | fileTransfer dir showHidden => rfl
    | viewCamera => rfl
    | portForward pf => rfl

section

variable (hstored : Stored h.ledger lr l)
include hstored

/-- The token of a connection that is about to store a request is the one it had. -/
theorem Stored.tokenBound (hbound : TokenBound h.ledger)
    (hguard : h.conn.terminalUserToken.isSome = true → lr.credentials = h.conn.lr.credentials) :
    TokenBound l := by
  cases htoken : h.conn.terminalUserToken with
  | none => exact .of_none (hstored.terminalUserToken_eq.trans htoken)
  | some token =>
    refine hbound.mono hstored.terminalUserToken_eq ?_ ?_ hstored.mem_trail
    · rw [hstored.lr_eq]
      exact hguard (by simp [htoken])
    · rw [hstored.service_eq, hstored.terminalServiceId_eq]

/-- A login request that is stored while a token is there keeps it bound. -/
theorem Stored.tokenBound_select (hbound : TokenBound h.ledger)
    (hguard : credentialsGuard env h (.message (.loginRequest lr)) = true) (halive : h.alive = true)
    (hauth : h.conn.authorized = false) : TokenBound (l.resetScope.select lr) := by
  have hsame : h.conn.terminalUserToken.isSome = true → lr.credentials = h.conn.lr.credentials ∧
      lr.keepsService h.conn.terminalServiceId = true := by
    intro htoken
    have hnotNone : h.conn.terminalUserToken.isNone = false := by simpa using htoken
    simpa [credentialsGuard, halive, hauth, hnotNone] using hguard
  have htokenEq : (l.resetScope.select lr).login.terminalUserToken = h.conn.terminalUserToken :=
    (select_terminalUserToken lr).trans hstored.terminalUserToken_eq
  cases htoken : h.conn.terminalUserToken with
  | none => exact .of_none (htokenEq.trans htoken)
  | some token =>
    obtain ⟨hcredentials, hkeeps⟩ := hsame (by simp [htoken])
    have hserviceId : l.resetScope.login.terminalServiceId = h.conn.terminalServiceId :=
      hstored.terminalServiceId_eq
    refine (hstored.tokenBound hbound fun _ => hcredentials).mono ?_ ?_ ?_ fun m hm => ?_
    · rw [select_terminalUserToken]
      rfl
    · rw [select_lr]
      rfl
    · rw [select_service, select_terminalServiceId (by rw [hserviceId]; exact hkeeps)]
      rfl
    · obtain ⟨marks, htrail, -⟩ := UnyDesk.plainlyExtends_select l lr
      rw [htrail]
      exact mem_append_right marks hm

theorem Stored.tokenBound_switch {s : SwitchSidesResponse}
    (htaken : switchTaken env s = some lr) (hbound : TokenBound h.ledger)
    (hguard : credentialsGuard env h (.message (.switchSidesResponse s)) = true) (halive : h.alive = true)
    (hauth : h.conn.authorized = false) : TokenBound l := by
  refine hstored.tokenBound hbound fun htoken => ?_
  have hnotNone : h.conn.terminalUserToken.isNone = false := by simpa using htoken
  simpa [credentialsGuard, halive, hauth, hnotNone, htaken] using hguard

end

/-- A token that was just obtained is bound. -/
theorem Prepared.tokenBound (hprepared : Prepared env l l' none) (hbound : TokenBound l) : TokenBound l' := by
  cases hprepared with
  | skipped _ => exact hbound
  | filled value _ _ hservice =>
    refine ⟨fun token heq => ?_, fun token isUser heq hisUser => ?_⟩
    · obtain rfl : value = token := Option.some.inj heq
      exact mem_cons_self
    · obtain rfl : value = token := Option.some.inj heq
      exact hservice isUser hisUser

theorem Asked.tokenBound (hasked : Asked env l l') (hbound : TokenBound l) : TokenBound l' := by
  cases hasked with
  | plain => exact hbound
  | factor _ _ => exact hbound.plainlyExtends (.cons rfl rfl) rfl ⟨rfl, rfl, rfl, rfl, rfl, rfl⟩ rfl
  | user hprepared => exact hprepared.tokenBound hbound

theorem Pending.tokenBound (hpending : Pending env h e l') (hguard : credentialsGuard env h e = true)
    (halive : h.alive = true) (hauth : h.conn.authorized = false) (hbound : TokenBound h.ledger) :
    TokenBound l' := by
  cases hpending with
  | kept hkept =>
    exact hbound.plainlyExtends (.of_eq hkept.trail) (by rw [hkept.login]) hkept.sameScope hkept.service
  | worldChange w =>
    cases htoken : h.conn.terminalUserToken with
    | none => exact .of_none htoken
    | some token =>
      refine hbound.mono rfl rfl ?_ fun _ => id
      simpa [credentialsGuard, halive, hauth, htoken] using hguard
  | silent hstored _ heq =>
    have hselected := hstored.tokenBound_select hbound hguard halive hauth
    rcases heq with rfl | ⟨method, rfl⟩
    · exact hselected
    · exact hselected.plainlyExtends (.cons rfl rfl) rfl ⟨rfl, rfl, rfl, rfl, rfl, rfl⟩ rfl
  | asked hstored hasked _ =>
    have hselected := hstored.tokenBound_select hbound hguard halive hauth
    have hbound' := hasked.tokenBound hselected
    exact ⟨hbound'.obtained, hbound'.service⟩
  | switchUnmatched htaken _ hstored => exact hstored.tokenBound_switch htaken hbound hguard halive hauth

theorem GrantBase.tokenBound (hbase : GrantBase env h e l) (hguard : credentialsGuard env h e = true)
    (halive : h.alive = true) (hauth : h.conn.authorized = false) (hbound : TokenBound h.ledger) :
    TokenBound l := by
  cases hbase with
  | login method hstored =>
    have hselected := hstored.tokenBound_select hbound hguard halive hauth
    exact hselected.plainlyExtends (.cons rfl rfl) rfl ⟨rfl, rfl, rfl, rfl, rfl, rfl⟩ rfl
  | auth2fa _ => exact hbound.plainlyExtends (.cons rfl rfl) rfl ⟨rfl, rfl, rfl, rfl, rfl, rfl⟩ rfl
  | switch htaken _ hstored =>
    have hswitch := hstored.tokenBound_switch htaken hbound hguard halive hauth
    exact hswitch.plainlyExtends (.cons rfl rfl) rfl ⟨rfl, rfl, rfl, rfl, rfl, rfl⟩ rfl
  | authorize => exact hbound.plainlyExtends (.cons rfl rfl) rfl ⟨rfl, rfl, rfl, rfl, rfl, rfl⟩ rfl

/-- A terminal is granted with a token that is bound to its request. -/
theorem Grants.userBound {g : Grant} {marks : List Mark} (hgrants : Grants env l l' g marks)
    (hdesktop : env.build.desktop = true) (hbound : TokenBound l) : UserBound g (marks ++ l.trail) := by
  intro hkind
  have hterminal : l.login.terminal = true := by
    have hkindWith := hgrants.kind
    rw [hkind] at hkindWith
    unfold Ledger.kindWith at hkindWith
    split_ifs at hkindWith
    assumption
  rcases hgrants.user with ⟨hskipped, hsame⟩ | ⟨token, -, -, htoken, hmark, hagrees⟩
  · have hsome : l.login.terminalUserToken.isSome = true := by
      simpa [hdesktop, hterminal] using hskipped
    obtain ⟨token, htoken⟩ := Option.isSome_iff_exists.mp hsome
    refine ⟨token, hsame.trans htoken, ?_, fun isUser hisUser => ?_⟩
    · rw [hgrants.lr]
      exact mem_append_right marks (hbound.obtained token htoken)
    · rw [hgrants.serviceUser] at hisUser
      exact hbound.service token isUser htoken hisUser
  · refine ⟨token, htoken, ?_, hagrees⟩
    rw [hgrants.lr]
    exact mem_append_left l.trail hmark

theorem UserInvariant.step (hdesktop : env.build.desktop = true) (hinv : UserInvariant h.ledger)
    (hguard : credentialsGuard env h e = true) : UserInvariant (h.step env e).ledger := by
  refine step_ledger_invariant hinv fun l' halive hreaction => ?_
  refine ⟨wellFormed_reaction halive hinv.wellFormed hreaction, ?_, fun hauth' halive' => ?_⟩
  · refine hreaction.justified hinv.grants fun hauth l l' g marks hbase hgrants => ?_
    exact hgrants.userBound hdesktop (hbase.tokenBound hguard halive hauth (hinv.bound hauth halive))
  · have hauth := hreaction.unauthorized_before hauth'
    exact (hreaction.pending hauth' halive').tokenBound hguard halive hauth (hinv.bound hauth halive)

end Steps

/-- The user of a terminal session is the one of its request, in every run on a desktop system in
which the requests that come while a token is there repeat its credentials and its service and
the service keeps its user. -/
theorem terminal_user_bound (env : Env) (world : World) (hash : HashMsg) (require2fa : Option Bytes)
    (events : List Event) (hdesktop : env.build.desktop = true)
    (hguard : RunMeets (step env) (fun h e => credentialsGuard env h e = true)
      (start env world hash require2fa) events) :
    let h := (start env world hash require2fa).run env events
    ∀ later g earlier, h.trail = later ++ .granted g :: earlier → g.kind = .terminal →
      ∃ token, g.terminalUserToken = some token ∧
        .tokenFilled (trim g.lr.osLoginOrDefault.username) g.lr.osLoginOrDefault.password token ∈ earlier ∧
        ∀ isUser, g.serviceUser = some isUser → isUser = token.toTerminalServiceToken.isSome := by
  intro h later g earlier htrail
  have hstart : UserInvariant (start env world hash require2fa).ledger := by
    refine ⟨wellFormed_start world hash require2fa, ?_, fun _ _ => .of_none ?_⟩
    · rw [start_ledger]
      trivial
    · rw [start_ledger]
  have hinv : UserInvariant h.ledger :=
    runEvents_invariant (I := fun h : Host => UserInvariant h.ledger)
      (fun _ _ hinv hok => hinv.step hdesktop hok) hstart hguard
  exact justified_iff.mp hinv.grants later _ earlier htrail g rfl

/-- A terminal session of the administrator. -/
theorem terminal_user_bound_administrator :
    let events := [.message (.loginRequest terminalRequest), .authorize]
    let h := (start sampleEnv terminalWorld sampleHash none).run sampleEnv events
    h.conn.authedConnId = some .terminal ∧ ∀ later g earlier, h.trail = later ++ .granted g :: earlier →
      g.kind = .terminal → ∃ token, g.terminalUserToken = some token ∧
        .tokenFilled (trim g.lr.osLoginOrDefault.username) g.lr.osLoginOrDefault.password token ∈ earlier ∧
        ∀ isUser, g.serviceUser = some isUser → isUser = token.toTerminalServiceToken.isSome :=
  ⟨by decide, terminal_user_bound sampleEnv terminalWorld sampleHash none _ (by decide) (by decide)⟩

/-- A terminal session is granted for a wrong password, with the token of an earlier request. -/
theorem wrong_credentials_get_terminal :
    let wrong := { terminalRequest with osLogin := some { username := "admin", password := "wrong" } }
    let h := (start sampleEnv terminalWorld sampleHash none).run sampleEnv
      [.message (.loginRequest terminalRequest), .message (.loginRequest wrong), .authorize]
    h.conn.authedConnId = some .terminal ∧ h.conn.lr = wrong ∧ terminalWorld.logonUser "admin" "wrong" = .failed ∧
      h.trail.any (·.isObtainedFor wrong) = false := by
  decide

end UnyDesk
