import UnyDesk.Connection.Ledger

/-!
# What a logon can do

The phases of `send_logon_response_and_keep_alive`, read on the ledger: the second factor, the
terminal user, the tunnel and the grant. Each phase has one rule for each way it can end, and a
theorem says that the code follows one of them. Later results take the rules apart and never the
code.
-/

namespace UnyDesk

open Ledger List

variable {l l' : Ledger} {env : Env} {l l₁ : Ledger}

/-- The address that a request wants to reach through the host. -/
def LoginRequest.tunnelTarget (lr : LoginRequest) : Option String :=
  match lr.union with
  | some (.portForward pf) => some (normalizePortForwardTarget pf).1
  | _ => none

/-- Decisions other than a grant and a terminal action, which are the ones to be justified. -/
def Mark.isPlain : Mark → Bool
  | .granted _ => false
  | .terminalAction _ _ => false
  | _ => true

def Mark.isLoginStored : Mark → Bool
  | .loginStored _ => true
  | _ => false

/-- Decisions that stand for something the peer or the user has shown. -/
def Mark.isProof : Mark → Bool
  | .primaryAuth _ => true
  | .twoFactor _ _ _ => true
  | .tokenFilled _ _ _ => true
  | _ => false

/-- Nothing was granted and no terminal action was run on the way. -/
def PlainlyExtends (l l' : Ledger) : Prop :=
  ∃ marks, l'.trail = marks ++ l.trail ∧ ∀ m ∈ marks, m.isPlain = true

/-- The connection is given up. -/
structure Refused (l l' : Ledger) : Prop where
  authorized : l'.login.authorized = false
  trail : PlainlyExtends l l'

theorem Mark.not_isLoginStored_of_isProof {m : Mark} (h : m.isProof = true) : m.isLoginStored = false := by
  cases m <;> first | rfl | cases h

namespace Ledger

/-- The kind of session that the scope and a port stand for. -/
def kindWith (l : Ledger) (socket : Option String) : AuthConnType :=
  if l.login.fileTransfer.isSome then .fileTransfer
  else if socket.isSome then .portForward
  else if l.login.viewCamera then .viewCamera
  else if l.login.terminal then .terminal
  else .remote

def grantKind (l : Ledger) : AuthConnType := l.kindWith l.socket

/-- A token was obtained for the credentials of the stored request. -/
def fillUser (l : Ledger) (token : TerminalUserToken) : Ledger :=
  { l with login := { l.login with terminalUserToken := some token } }.push
    (.tokenFilled (trim l.login.lr.osLoginOrDefault.username) l.login.lr.osLoginOrDefault.password token)

/-- The tunnel of the stored request is open. -/
def tunnel (l : Ledger) : Ledger :=
  match l.socket, l.login.lr.tunnelTarget with
  | none, some addr =>
    { l with login := { l.login with portForwardAddress := addr }, socket := some addr }
  | _, _ => l

theorem tunnel_of_open (h : l.socket.isSome = true) : l.tunnel = l := by
  obtain ⟨addr, haddr⟩ := Option.isSome_iff_exists.mp h
  simp [tunnel, haddr]

theorem tunnel_of_no_target (h : l.login.lr.tunnelTarget = none) : l.tunnel = l := by
  simp [tunnel, h]

theorem tunnel_of_target {addr : String} (hclosed : l.socket = none) (h : l.login.lr.tunnelTarget = some addr) :
    l.tunnel = { l with login := { l.login with portForwardAddress := addr }, socket := some addr } := by
  simp [tunnel, hclosed, h]

section Tunnel

variable (l : Ledger)

/-- Opening the tunnel changes the address and the socket only. -/
theorem tunnel_login : l.tunnel.login = { l.login with portForwardAddress := l.tunnel.login.portForwardAddress } := by
  unfold tunnel
  split <;> rfl

@[simp] theorem tunnel_trail : l.tunnel.trail = l.trail := by
  unfold tunnel
  split <;> rfl

@[simp] theorem tunnel_service : l.tunnel.service = l.service := by
  unfold tunnel
  split <;> rfl

@[simp] theorem tunnel_alive : l.tunnel.alive = l.alive := by
  unfold tunnel
  split <;> rfl

@[simp] theorem tunnel_lastLogin : l.tunnel.lastLogin = l.lastLogin := by
  unfold tunnel
  split <;> rfl

theorem tunnel_socket : l.tunnel.socket = l.socket.or l.login.lr.tunnelTarget := by
  unfold tunnel
  split
  · next hclosed htarget => simp [hclosed, htarget]
  · next hother =>
    cases hsocket : l.socket with
    | some addr => rfl
    | none =>
      cases htarget : l.login.lr.tunnelTarget with
      | none => rfl
      | some addr => exact absurd htarget (hother addr hsocket)

@[simp] theorem tunnel_lr : l.tunnel.login.lr = l.login.lr := by
  rw [tunnel_login]

@[simp] theorem tunnel_fileTransfer : l.tunnel.login.fileTransfer = l.login.fileTransfer := by
  rw [tunnel_login]

@[simp] theorem tunnel_viewCamera : l.tunnel.login.viewCamera = l.login.viewCamera := by
  rw [tunnel_login]

@[simp] theorem tunnel_terminal : l.tunnel.login.terminal = l.login.terminal := by
  rw [tunnel_login]

@[simp] theorem tunnel_terminalUserToken :
    l.tunnel.login.terminalUserToken = l.login.terminalUserToken := by
  rw [tunnel_login]

@[simp] theorem tunnel_terminalServiceId :
    l.tunnel.login.terminalServiceId = l.login.terminalServiceId := by
  rw [tunnel_login]

end Tunnel

section

variable (l : Ledger)

def grant : Grant :=
  { kind := l.grantKind
    portForwardSocket := l.socket
    lr := l.login.lr
    terminalUserToken := l.login.terminalUserToken
    serviceUser := l.service l.login.terminalServiceId }

def authorize : Ledger :=
  { l with login := { l.login with authorized := true, authedConnId := some l.grantKind } }.push (.granted l.grant)

def nameService (serviceId : String) : Ledger :=
  { l with login := { l.login with terminalServiceId := serviceId } }

def clear2fa : Ledger := { l with login := { l.login with require2fa := none } }

/-- A second factor for the stored request. -/
def second (method : ConnAuditTwoFactor) : Ledger :=
  l.push (.twoFactor method l.login.lr.myId l.login.lr.myName)

def announce (login : CmLogin) : Ledger := { l with lastLogin := some login }

end

end Ledger

/-- The ways in which the second factor lets a logon pass. -/
inductive SecondFactor (l : Ledger) : Ledger → Prop
  | notRequired (h : l.login.require2fa = none) : SecondFactor l l
  | fromSwitch (h : l.login.fromSwitch = true) : SecondFactor l l
  | recent : SecondFactor l (l.second .totp)

/-- The ways in which the preparation of the terminal user ends. -/
inductive Prepared (env : Env) (l : Ledger) : Ledger → Option Bool → Prop
  | skipped (h : env.build.desktop = false ∨ l.login.terminal = false ∨
      l.login.terminalUserToken.isSome = true) : Prepared env l l none
  | failed : Prepared env l l (some false)
  | mismatch (token : TerminalUserToken) : Prepared env l (l.fillUser token) (some false)
  | filled (token : TerminalUserToken) (hterminal : l.login.terminal = true) (htoken : l.login.terminalUserToken = none)
      (hservice : ∀ isUser, l.service l.login.terminalServiceId = some isUser →
        isUser = token.toTerminalServiceToken.isSome) : Prepared env l (l.fillUser token) none

/-- The ways in which a logon ends; the flag says whether the connection is kept. -/
inductive Logon (env : Env) (l : Ledger) : Ledger → Bool → Prop
  | waits (hrequired : l.login.require2fa.isSome = true) (hswitch : l.login.fromSwitch = false) : Logon env l l true
  | refused {l' : Ledger} (h : Refused l l') : Logon env l l' false
  | granted {l₁ l₂ : Ledger} (hsecond : SecondFactor l l₁) (huser : Prepared env l₁ l₂ none)
      (serviceId : String) : Logon env l (l₂.tunnel.authorize.nameService serviceId) true

/-- A grant in full: what was recorded on the way and what the session got. -/
structure Grants (env : Env) (l l' : Ledger) (g : Grant) (marks : List Mark) : Prop where
  trail : l'.trail = .granted g :: (marks ++ l.trail)
  proofs : ∀ m ∈ marks, m.isProof = true
  second : l.login.require2fa = none ∨ l.login.fromSwitch = true ∨
    .twoFactor .totp l.login.lr.myId l.login.lr.myName ∈ marks
  lr : g.lr = l.login.lr
  socket : g.portForwardSocket = l.socket.or l.login.lr.tunnelTarget
  kind : g.kind = l.kindWith g.portForwardSocket
  serviceUser : g.serviceUser = l.service l.login.terminalServiceId
  user : ((env.build.desktop = false ∨ l.login.terminal = false ∨
        l.login.terminalUserToken.isSome = true) ∧ g.terminalUserToken = l.login.terminalUserToken) ∨
    ∃ token, l.login.terminal = true ∧ l.login.terminalUserToken = none ∧ g.terminalUserToken = some token ∧
      .tokenFilled (trim l.login.lr.osLoginOrDefault.username) l.login.lr.osLoginOrDefault.password token ∈ marks ∧
      ∀ isUser, g.serviceUser = some isUser → isUser = token.toTerminalServiceToken.isSome
  login : l'.login = { l.login with
    authorized := true
    authedConnId := some g.kind
    portForwardAddress := l'.login.portForwardAddress
    terminalUserToken := g.terminalUserToken
    terminalServiceId := l'.login.terminalServiceId }
  openSocket : l'.socket = g.portForwardSocket
  lastLogin : l'.lastLogin = l.lastLogin

/-! ## Refusals compose -/

section Refusal

variable {l l₁ l₂ : Ledger}

theorem PlainlyExtends.of_eq (htrail : l₁.trail = l.trail) : PlainlyExtends l l₁ := ⟨[], by simp [htrail]⟩

theorem PlainlyExtends.cons {m : Mark} (hm : m.isPlain = true) (htrail : l₁.trail = m :: l.trail) :
    PlainlyExtends l l₁ :=
  ⟨[m], htrail, by simp [hm]⟩

theorem PlainlyExtends.trans (h : PlainlyExtends l l₁) (h' : PlainlyExtends l₁ l₂) : PlainlyExtends l l₂ := by
  obtain ⟨marks, htrail, hplain⟩ := h
  obtain ⟨marks', htrail', hplain'⟩ := h'
  refine ⟨marks' ++ marks, by rw [htrail', htrail, append_assoc], fun m hm => ?_⟩
  rcases mem_append.mp hm with hmem | hmem
  · exact hplain' m hmem
  · exact hplain m hmem

theorem Refused.of_eq (h : l₁.login.authorized = false) (htrail : l₁.trail = l.trail) : Refused l l₁ :=
  ⟨h, .of_eq htrail⟩

/-- What was recorded before a refusal belongs to it. -/
theorem Refused.after (hbefore : PlainlyExtends l l₁) (h : Refused l₁ l₂) : Refused l l₂ :=
  ⟨h.authorized, hbefore.trans h.trail⟩

theorem SecondFactor.plainlyExtends (h : SecondFactor l l₁) : PlainlyExtends l l₁ := by
  cases h with
  | notRequired _ => exact .of_eq rfl
  | fromSwitch _ => exact .of_eq rfl
  | recent => exact .cons rfl rfl

theorem Prepared.plainlyExtends {keep : Option Bool} (h : Prepared env l l₁ keep) : PlainlyExtends l l₁ := by
  cases h with
  | skipped _ => exact .of_eq rfl
  | failed => exact .of_eq rfl
  | mismatch _ => exact .cons rfl rfl
  | filled _ _ _ _ => exact .cons rfl rfl

end Refusal

theorem SecondFactor.login_eq (h : SecondFactor l l') : l'.login = l.login := by
  cases h <;> rfl

section Prepared

variable {env : Env} {l l' : Ledger} {keep : Option Bool} (h : Prepared env l l' keep)
include h

/-- The preparation writes the token and nothing else of the login. -/
theorem Prepared.login_eq : l'.login = { l.login with terminalUserToken := l'.login.terminalUserToken } := by
  cases h <;> rfl

theorem Prepared.authorized_eq : l'.login.authorized = l.login.authorized := by
  rw [h.login_eq]

theorem Prepared.lr_eq : l'.login.lr = l.login.lr := by
  rw [h.login_eq]

theorem Prepared.socket_eq : l'.socket = l.socket := by
  cases h <;> rfl

end Prepared

/-- A preparation that stops the logon gives the connection up. -/
theorem Prepared.eq_false {keep : Bool} (h : Prepared env l l' (some keep)) : keep = false := by
  cases h <;> rfl

/-! ## A grant in full -/

theorem SecondFactor.exists_marks (h : SecondFactor l l₁) :
    ∃ marks, l₁ = { l with trail := marks ++ l.trail } ∧ (∀ m ∈ marks, m.isProof = true) ∧
      (l.login.require2fa = none ∨ l.login.fromSwitch = true ∨
        .twoFactor .totp l.login.lr.myId l.login.lr.myName ∈ marks) := by
  cases h with
  | notRequired hnone => exact ⟨[], rfl, by simp, .inl hnone⟩
  | fromSwitch hfrom => exact ⟨[], rfl, by simp, .inr (.inl hfrom)⟩
  | recent => exact ⟨[_], rfl, by simp [Mark.isProof], .inr (.inr (mem_singleton.mpr rfl))⟩

theorem Prepared.exists_marks (h : Prepared env l l₁ none) : ∃ marks token, l₁ = { l with
        login := { l.login with terminalUserToken := token }, trail := marks ++ l.trail } ∧
      (∀ m ∈ marks, m.isProof = true) ∧
      (((env.build.desktop = false ∨ l.login.terminal = false ∨
          l.login.terminalUserToken.isSome = true) ∧ token = l.login.terminalUserToken) ∨
        ∃ value, l.login.terminal = true ∧ l.login.terminalUserToken = none ∧ token = some value ∧
          .tokenFilled (trim l.login.lr.osLoginOrDefault.username) l.login.lr.osLoginOrDefault.password value ∈ marks ∧
          ∀ isUser, l.service l.login.terminalServiceId = some isUser →
            isUser = value.toTerminalServiceToken.isSome) := by
  cases h with
  | skipped hskip => exact ⟨[], _, rfl, by simp, .inl ⟨hskip, rfl⟩⟩
  | filled value hterminal htoken hservice =>
    exact ⟨[_], _, rfl, by simp [Mark.isProof], .inr ⟨value, hterminal, htoken, rfl, mem_singleton.mpr rfl, hservice⟩⟩

/-- A logon that authorizes the connection is a grant in full. -/
theorem Logon.exists_grants (h : Logon env l l' true)
    (hgranted : l'.login.authorized = true) (hbefore : l.login.authorized = false) :
    ∃ g marks, Grants env l l' g marks := by
  cases h with
  | waits _ _ => simp [hbefore] at hgranted
  | @granted l₁ l₂ hsecond huser serviceId =>
    obtain ⟨factors, heq₁, hfactors, hpassed⟩ := hsecond.exists_marks
    obtain ⟨users, token, heq₂, husers, huser⟩ := huser.exists_marks
    rw [heq₁] at heq₂ huser
    have hlogin : l₂.login = { l.login with terminalUserToken := token } := by rw [heq₂]
    have htrail : l₂.trail = users ++ (factors ++ l.trail) := by rw [heq₂]
    have hsocket : l₂.socket = l.socket := by rw [heq₂]
    have hservice : l₂.service = l.service := by rw [heq₂]
    have hserviceUser : l₂.tunnel.grant.serviceUser = l.service l.login.terminalServiceId := by
      simp [grant, hservice, hlogin]
    have htoken : l₂.tunnel.grant.terminalUserToken = token := by simp [grant, hlogin]
    refine ⟨l₂.tunnel.grant, users ++ factors, ?_⟩
    refine
      { trail := ?_
        proofs := ?_
        second := ?_
        lr := by simp [grant, hlogin]
        socket := by simp [grant, tunnel_socket, hsocket, hlogin]
        kind := by simp [grant, grantKind, kindWith, hlogin]
        serviceUser := hserviceUser
        user := ?_
        login := ?_
        openSocket := rfl
        lastLogin := ?_ }
    · change .granted _ :: l₂.tunnel.trail = _
      rw [tunnel_trail, htrail, append_assoc]
    · intro m hm
      rcases mem_append.mp hm with hmem | hmem
      · exact husers m hmem
      · exact hfactors m hmem
    · exact hpassed.imp_right fun hrest => hrest.imp_right (mem_append_right users)
    · rw [htoken, hserviceUser]
      exact huser.imp_right fun ⟨value, hterminal, hnone, hvalue, hmark, hagrees⟩ =>
        ⟨value, hterminal, hnone, hvalue, mem_append_left factors hmark, hagrees⟩
    · obtain ⟨addr, htunnel⟩ : ∃ addr, l₂.tunnel.login = { l₂.login with portForwardAddress := addr } :=
        ⟨_, l₂.tunnel_login⟩
      ext <;> simp [nameService, authorize, push, grant, htunnel, hlogin]
    · change l₂.tunnel.lastLogin = _
      rw [tunnel_lastLogin, heq₂]

namespace Host

variable (env : Env) (h : Host)

/-! ## The code follows the rules -/

theorem isRecentSession_ledger (tfa : Bool) :
    ((h.isRecentSession env tfa).2 = false ∧ (h.isRecentSession env tfa).1.ledger = h.ledger) ∨
      (h.isRecentSession env tfa).2 = true ∧ (h.isRecentSession env tfa).1.ledger =
        if tfa then h.ledger.second .totp else h.ledger.push (.primaryAuth .temporaryPassword) := by
  unfold isRecentSession
  dsimp only
  cases recentSession env h tfa with
  | false => exact .inl ⟨rfl, rfl⟩
  | true => cases tfa <;> exact .inr ⟨rfl, rfl⟩

theorem checkTerminalServiceUser_prepared (h' : Host) (token : TerminalUserToken) (isTerminalOsLogin : Bool)
    (hledger : h'.ledger = h.ledger.fillUser token) (hterminal : h.conn.terminal = true)
    (htoken : h.conn.terminalUserToken = none) :
    Prepared env h.ledger (h'.checkTerminalServiceUser token isTerminalOsLogin).1.ledger
      (h'.checkTerminalServiceUser token isTerminalOsLogin).2 := by
  have hservice : h'.world.isServiceSpecifiedUser h'.conn.terminalServiceId =
      h.ledger.service h.ledger.login.terminalServiceId :=
    congrArg (fun l : Ledger => l.service l.login.terminalServiceId) hledger
  have hipc : (if isTerminalOsLogin then h'.tryStartCmIpc else h').ledger = h.ledger.fillUser token := by
    rw [← hledger]
    split_ifs <;> rfl
  unfold checkTerminalServiceUser
  split
  · next isUser heq =>
    by_cases hdiffer : isUser ≠ token.toTerminalServiceToken.isSome
    · simp only [if_pos hdiffer, ledger_sendLoginError, hledger]
      exact .mismatch token
    · simp only [if_neg hdiffer, hipc]
      refine .filled token hterminal htoken fun isUser' heq' => ?_
      rw [← hservice, heq] at heq'
      cases heq'
      exact not_not.mp hdiffer
  · next heq =>
    rw [hipc]
    refine .filled token hterminal htoken fun isUser' heq' => ?_
    rw [← hservice, heq] at heq'
    cases heq'

theorem fillTerminalUser_prepared (check : Option FailureCheck) (hterminal : h.conn.terminal = true)
    (htoken : h.conn.terminalUserToken = none) :
    Prepared env h.ledger (h.fillTerminalUser env check).1.ledger (h.fillTerminalUser env check).2 := by
  unfold fillTerminalUser
  dsimp only
  split
  · cases check <;> simp only [ledger_sendLoginError, ledger_updateWorld, updateFailureWithScope_service] <;>
      exact .failed
  · next token _ =>
    apply checkTerminalServiceUser_prepared env h _ token _ _ hterminal htoken
    cases check
    · rfl
    · simp only [ledger_updateWorld, updateFailureWithScope_service]
      rfl

/-- The terminal user is prepared by one of the rules. -/
theorem prepareTerminalLoginForAuthorization_prepared :
    Prepared env h.ledger (h.prepareTerminalLoginForAuthorization env).1.ledger
      (h.prepareTerminalLoginForAuthorization env).2 := by
  unfold prepareTerminalLoginForAuthorization
  split_ifs with hskip hos
  · apply Prepared.skipped
    simpa [or_assoc] using hskip
  all_goals
    obtain ⟨⟨-, hterminal⟩, htoken⟩ : (env.build.desktop = true ∧ h.conn.terminal = true) ∧
        h.conn.terminalUserToken = none := by simpa [not_or] using hskip
  · dsimp only
    have hnote := ledger_noteFailureCheck h .terminalOsLogin (checkFailureWithScope env h.world 0 .terminalOsLogin)
    have hlogin := congrArg login hnote
    split_ifs
    · rw [hnote]
      exact .failed
    · simp only [ledger_emit, ledger_sendLoginError, hnote]
      exact .failed
    · rw [← hnote]
      apply fillTerminalUser_prepared
      · exact (congrArg LoginState.terminal hlogin).trans hterminal
      · exact (congrArg LoginState.terminalUserToken hlogin).trans htoken
  · exact fillTerminalUser_prepared env h none hterminal htoken

/-- The tunnel is opened, or the connection is given up. -/
theorem connectPortForwardIfNeeded_ledger :
    ((h.connectPortForwardIfNeeded).2 = true ∧ (h.connectPortForwardIfNeeded).1.ledger = h.ledger.tunnel) ∨
      (h.connectPortForwardIfNeeded).2 = false ∧ (h.connectPortForwardIfNeeded).1.conn.authorized = h.conn.authorized ∧
        (h.connectPortForwardIfNeeded).1.trail = h.trail := by
  unfold connectPortForwardIfNeeded
  by_cases hsocket : h.conn.portForwardSocket.isSome = true
  · rw [if_pos hsocket]
    exact .inl ⟨rfl, (tunnel_of_open hsocket).symm⟩
  · have hclosed : h.conn.portForwardSocket = none := by simpa using hsocket
    rw [if_neg hsocket]
    split
    · next pf hunion =>
      have htarget : h.conn.lr.tunnelTarget = some (normalizePortForwardTarget pf).1 := by
        simp [LoginRequest.tunnelTarget, hunion]
      dsimp only
      split
      · refine .inl ⟨rfl, ?_⟩
        rw [tunnel_of_target (l := h.ledger) hclosed htarget]
        rfl
      · exact .inr ⟨rfl, rfl, rfl⟩
    · next hunion =>
      have htarget : h.conn.lr.tunnelTarget = none := by
        unfold LoginRequest.tunnelTarget
        split
        · next pf heq => exact absurd heq (hunion pf)
        · rfl
      exact .inl ⟨rfl, (tunnel_of_no_target htarget).symm⟩

theorem authorize_ledger : h.authorize.ledger = h.ledger.authorize := by
  unfold authorize normalizeConnAuditAuthFields
  dsimp only
  split_ifs <;> rfl

theorem updateScopedLoginOptions_ledger : (h.updateScopedLoginOptions env).ledger = h.ledger := by
  unfold updateScopedLoginOptions
  split
  · rfl
  · dsimp only
    split
    · rfl
    · split
      · rw [ledger_updateOptions]
        rfl
      · rfl

theorem initTerminalService_ledger : ∃ serviceId, h.initTerminalService.ledger = h.ledger.nameService serviceId := by
  unfold initTerminalService
  split
  · exact ⟨_, rfl⟩
  · exact ⟨h.conn.terminalServiceId, rfl⟩

theorem startSession_ledger (subService waitSessionIdConfirm : Bool) :
    ∃ serviceId, (h.startSession env subService waitSessionIdConfirm).ledger = h.ledger.nameService serviceId := by
  unfold startSession
  split
  · dsimp only
    split_ifs <;> exact ⟨h.conn.terminalServiceId, rfl⟩
  · split_ifs
    · exact initTerminalService_ledger (h.updateConn fun c => { c with keyboard := false })
    · exact ⟨h.conn.terminalServiceId, rfl⟩
    · exact ⟨h.conn.terminalServiceId, rfl⟩
    · exact ⟨h.conn.terminalServiceId, by rw [ledger_trySubMonitorServices]; rfl⟩
    · exact ⟨h.conn.terminalServiceId, rfl⟩

theorem respondLogon_ledger : ∃ serviceId, (h.respondLogon env).ledger = h.ledger.nameService serviceId := by
  unfold respondLogon
  split_ifs
  · exact ⟨h.conn.terminalServiceId, rfl⟩
  · exact ⟨h.conn.terminalServiceId, rfl⟩
  · dsimp only
    obtain ⟨serviceId, heq⟩ := startSession_ledger env
      ((h.emit (.loginResponse (if (h.conn.fileTransfer.isNone && !h.conn.terminal && !h.conn.viewCamera)
        then h.world.displaysError else none))).updateScopedLoginOptions env) _ _
    exact ⟨serviceId, by rw [heq, updateScopedLoginOptions_ledger, ledger_emit]⟩

/-- What remains of a logon once the second factor is settled. -/
theorem logon_of_secondFactor (hauth : h.conn.authorized = false) (hsecond : SecondFactor l h.ledger) :
    let r : Host × Bool := match h.prepareTerminalLoginForAuthorization env with
      | (h, some keepAlive) => (h, keepAlive)
      | (h, none) =>
        match h.connectPortForwardIfNeeded with
        | (h, false) => (h, false)
        | (h, true) => (h.authorize.respondLogon env, true)
    Logon env l r.1.ledger r.2 := by
  have hprepared := prepareTerminalLoginForAuthorization_prepared env h
  rcases hprepare : h.prepareTerminalLoginForAuthorization env with ⟨h₁, _ | keep⟩
  · rw [hprepare] at hprepared
    have hauth₁ : h₁.conn.authorized = false := hprepared.authorized_eq.trans hauth
    have htunnel := connectPortForwardIfNeeded_ledger h₁
    rcases hconnect : h₁.connectPortForwardIfNeeded with ⟨h₂, _ | _⟩
    · rw [hconnect] at htunnel
      obtain ⟨hkept, -⟩ | ⟨-, hauth₂, htrail⟩ := htunnel
      · cases hkept
      · have hrefused : Refused h₁.ledger h₂.ledger := .of_eq (hauth₂.trans hauth₁) htrail
        simp only [hconnect]
        exact .refused (.after (hsecond.plainlyExtends.trans hprepared.plainlyExtends) hrefused)
    · rw [hconnect] at htunnel
      obtain ⟨-, hledger⟩ | ⟨hkept, -⟩ := htunnel
      · obtain ⟨serviceId, hrespond⟩ := respondLogon_ledger env h₂.authorize
        simp only [hconnect, hrespond, authorize_ledger, hledger]
        exact .granted hsecond hprepared serviceId
      · cases hkept
  · rw [hprepare] at hprepared
    have hkeep := hprepared.eq_false
    subst hkeep
    exact .refused ⟨hprepared.authorized_eq.trans hauth, hsecond.plainlyExtends.trans hprepared.plainlyExtends⟩

/-- Every logon of a connection that is not authorized follows the rules. -/
theorem sendLogonResponseAndKeepAlive_logon (hauth : h.conn.authorized = false) :
    Logon env h.ledger (h.sendLogonResponseAndKeepAlive env).1.ledger (h.sendLogonResponseAndKeepAlive env).2 := by
  unfold sendLogonResponseAndKeepAlive
  rw [if_neg (by simp [hauth])]
  by_cases hrequired : h.conn.require2fa.isSome = true
  · rcases hrecent : h.isRecentSession env true with ⟨h₁, recent⟩
    have hledger := isRecentSession_ledger env h true
    simp only [hrecent] at hledger
    simp only [if_pos hrequired]
    obtain ⟨rfl, hsame⟩ | ⟨rfl, hsecond⟩ := hledger
    · have hswitch : h₁.conn.fromSwitch = h.conn.fromSwitch := congrArg (·.login.fromSwitch) hsame
      have hauth₁ : h₁.conn.authorized = false := (congrArg (·.login.authorized) hsame).trans hauth
      cases hfrom : h.conn.fromSwitch with
      | false =>
        simp only [hswitch, hfrom, Bool.not_false, Bool.and_self, if_true, ledger_sendLoginError, hsame]
        exact .waits hrequired hfrom
      | true =>
        simp only [hswitch, hfrom, Bool.not_true, Bool.and_false, Bool.false_eq_true, if_false]
        exact logon_of_secondFactor env h₁ hauth₁ (by rw [hsame]; exact .fromSwitch hfrom)
    · have hauth₁ : h₁.conn.authorized = false := (congrArg (·.login.authorized) hsecond).trans hauth
      simp only [Bool.not_true, Bool.false_and, Bool.false_eq_true, if_false]
      exact logon_of_secondFactor env h₁ hauth₁ (by rw [hsecond]; exact .recent)
  · have hnone : h.ledger.login.require2fa = none := by simpa using hrequired
    simp only [if_neg hrequired, Bool.false_eq_true, if_false]
    exact logon_of_secondFactor env h hauth (.notRequired hnone)

/-- A connection that is authorized already is left as it is. -/
theorem sendLogonResponseAndKeepAlive_of_authorized (hauth : h.conn.authorized = true) :
    h.sendLogonResponseAndKeepAlive env = (h, true) := by
  unfold sendLogonResponseAndKeepAlive
  rw [if_pos hauth]

end Host

end UnyDesk
