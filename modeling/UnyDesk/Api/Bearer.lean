import UnyDesk.Api.Server

/-!
# Who is let through

A token that lets a request through was returned by a login, and its user exists and is enabled at that moment. The
table of sessions is written and never read: a logout deletes the session of its token, and the token lets requests
through until it expires. Where nobody uses a token behind its logout, the session of every token that lets a request
through still exists.
-/

namespace UnyDesk.Api

open Lib List Option List.Subset

/-- The user of the token exists and is enabled. -/
def Server.Enabled (s : Server) (t : Token) : Prop := ∃ row ∈ s.users.rows, row.guid = t.sub ∧ row.status ≠ 0

/-- What a token needs to be let through. -/
structure Server.Entitled (s : Server) (t : Token) : Prop where
  returned : t ∈ s.returned
  enabled : s.Enabled t
  live : s.now < t.exp
  notLoggedOut : t ∉ s.loggedOut
  session : ∃ session ∈ s.sessions, session.token = t

/-- When the row for a token is read, the token has not expired since it was verified, and no logout with it has
deleted its session. -/
def Server.TaskInSession (s : Server) : Task → Prop
  | .authenticate t _ => s.now < t.exp ∧ t ∉ s.deleted
  | _ => True

def Server.InSession (s : Server) : Step → Prop
  | .advance i => ∀ task ∈ s.tasks i, s.TaskInSession task
  | _ => True

instance (s : Server) (task : Task) : Decidable (s.TaskInSession task) := by
  cases task <;> unfold Server.TaskInSession <;> infer_instance

instance (s : Server) (e : Step) : Decidable (s.InSession e) := by
  cases e <;> unfold Server.InSession <;> infer_instance

namespace Server

/-- The session of the token is there, unless a logout or the end of its user has deleted it. -/
def Kept (s : Server) (t : Token) : Prop :=
  (∃ session ∈ s.sessions, session.token = t) ∨ t ∈ s.deleted ∨ ∀ row ∈ s.users.rows, row.guid ≠ t.sub

/-- What is known of a task where it waits. -/
def Justifies (s : Server) : Task → Prop
  | .login .. => True
  | .compare row _ => row.guid < s.users.nextGuid
  | .insertSession session => session.token ∈ s.signed ∧ session.userGuid = session.token.sub
  | .loggedIn t => t ∈ s.signed ∧ s.Kept t
  | .authenticate t _ | .handle t _ _ => t ∈ s.returned
  | .loggedOut t => t ∈ s.deleted

structure Sound (s : Server) : Prop where
  tasks : ∀ i task, s.tasks i = some task → s.Justifies task
  signed : ∀ t ∈ s.signed, t.sub < s.users.nextGuid
  returned : ∀ t ∈ s.returned, t ∈ s.signed ∧ s.Kept t
  loggedOut : ∀ t ∈ s.loggedOut, t ∈ s.deleted
  sessions : ∀ session ∈ s.sessions, session.userGuid = session.token.sub

/-- What every step does to the tables: nothing that was justified is lost. -/
structure Extends (s s' : Server) : Prop where
  nextGuid : s.users.nextGuid ≤ s'.users.nextGuid
  signed : s.signed ⊆ s'.signed
  returned : s.returned ⊆ s'.returned
  deleted : s.deleted ⊆ s'.deleted
  kept : ∀ t, t.sub < s.users.nextGuid → s.Kept t → s'.Kept t

section Steps

variable {s s' : Server} {i : ℕ} {token : Token} {task : Task}

theorem Extends.justifies (h : s.Extends s') (hsound : s.Sound) (htask : s.Justifies task) : s'.Justifies task := by
  cases task with
  | login => trivial
  | compare row => exact Nat.lt_of_lt_of_le htask h.nextGuid
  | insertSession session => exact ⟨h.signed htask.1, htask.2⟩
  | loggedIn t => exact ⟨h.signed htask.1, h.kept t (hsound.signed t htask.1) htask.2⟩
  | authenticate => exact h.returned htask
  | handle => exact h.returned htask
  | loggedOut => exact h.deleted htask

section

variable (hsound : s.Sound)
include hsound

namespace Sound

/-- The rule for a change of the tables: it extends them, and what is new in them is justified. -/
theorem extend (h : s.Extends s') (htasks : s'.tasks = s.tasks)
    (hsigned : ∀ t ∈ s'.signed, t ∈ s.signed ∨ t.sub < s'.users.nextGuid)
    (hreturned : ∀ t ∈ s'.returned, t ∈ s.returned ∨ t ∈ s.signed ∧ s.Kept t)
    (hloggedOut : ∀ t ∈ s'.loggedOut, t ∈ s.loggedOut ∨ t ∈ s.deleted)
    (hsessions : ∀ session ∈ s'.sessions, session ∈ s.sessions ∨ session.userGuid = session.token.sub) : s'.Sound where
  tasks i task hi := h.justifies hsound (hsound.tasks i task (htasks ▸ hi))
  signed t ht := (hsigned t ht).elim (fun hold => Nat.lt_of_lt_of_le (hsound.signed t hold) h.nextGuid) id
  returned t ht := by
    obtain ⟨hsig, hkept⟩ := (hreturned t ht).elim (hsound.returned t) id
    exact ⟨h.signed hsig, h.kept t (hsound.signed t hsig) hkept⟩
  loggedOut t ht := h.deleted ((hloggedOut t ht).elim (hsound.loggedOut t) id)
  sessions session hmem := (hsessions session hmem).elim (hsound.sessions session) id

/-- The rule for a change of the database alone. -/
theorem extendRows {users : UserTable} {sessions : List Session} (hguid : s.users.nextGuid ≤ users.nextGuid)
    (hkept : ∀ t, t.sub < s.users.nextGuid → s.Kept t → Kept { s with users, sessions } t)
    (hsessions : ∀ session ∈ sessions, session ∈ s.sessions ∨ session.userGuid = session.token.sub) :
    Sound { s with users, sessions } :=
  hsound.extend ⟨hguid, refl _, refl _, refl _, hkept⟩ rfl (fun _ => .inl) (fun _ => .inl) (fun _ => .inl) hsessions

/-- The rule for a task that goes on or ends. -/
theorem setTask {next : Option Task} (hnext : ∀ task, next = some task → s.Justifies task) :
    Sound { s with tasks := Function.update s.tasks i next } where
  tasks j task hj := by
    change s.Justifies task
    by_cases hji : j = i
    · subst hji
      exact hnext task ((Function.update_self (f := s.tasks) ..).symm.trans hj)
    · exact hsound.tasks j task ((Function.update_of_ne hji ..).symm.trans hj)
  signed := hsound.signed
  returned := hsound.returned
  loggedOut := hsound.loggedOut
  sessions := hsound.sessions

theorem park (htask : s.Justifies task) : (s.park i task).Sound :=
  hsound.setTask fun _ heq => some.inj heq ▸ htask

theorem finish : (s.finish i).Sound := hsound.setTask nofun

theorem setStatus (guid : ℕ) (status : Int) : Sound { s with users := s.users.setStatus guid status } := by
  refine @extendRows s hsound _ s.sessions (Nat.le_refl _) (fun t _ hkept => ?_) fun _ => .inl
  refine hkept.imp_right (Or.imp_right fun hgone row hrow => ?_)
  obtain ⟨old, hold, rfl⟩ := mem_map.mp hrow
  split <;> exact hgone old hold

theorem insertUser {name passwordHash : String} {isAdmin : Bool} {users : UserTable}
    (hinsert : s.users.insert name passwordHash isAdmin = some users) : Sound { s with users } := by
  unfold UserTable.insert at hinsert
  split at hinsert
  · exact nomatch hinsert
  · obtain rfl := some.inj hinsert
    refine @extendRows s hsound _ s.sessions (Nat.le_succ _) (fun t hsub hkept => ?_) fun _ => .inl
    refine hkept.imp_right (Or.imp_right fun hgone row hrow => ?_)
    rcases mem_append.mp hrow with hold | hnew
    · exact hgone row hold
    · rw [mem_singleton.mp hnew]
      exact (Nat.ne_of_lt hsub).symm

/-- The sessions that go with a user are those of its own tokens. -/
theorem deleteUser (guid : ℕ) : (s.deleteUser guid).Sound := by
  refine hsound.extendRows (Nat.le_refl _) (fun t _ hkept => ?_) fun session hmem => .inl (mem_of_mem_filter hmem)
  rcases hkept with ⟨session, hmem, rfl⟩ | hdeleted | hgone
  · by_cases howner : session.userGuid = guid
    · right; right
      intro row hrow
      rw [← hsound.sessions session hmem, howner]
      simpa using (mem_filter.mp hrow).2
    · exact .inl ⟨session, mem_filter.mpr ⟨hmem, by simpa using howner⟩, rfl⟩
  · exact .inr (.inl hdeleted)
  · exact .inr (.inr fun row hrow => hgone row (mem_of_mem_filter hrow))

theorem insertSession {session : Session} (howner : session.userGuid = session.token.sub)
    (hinsert : s.insertSession session = some s') : s'.Sound ∧ s'.signed = s.signed ∧ s'.Kept session.token := by
  unfold Server.insertSession at hinsert
  split at hinsert
  · exact nomatch hinsert
  · obtain rfl := some.inj hinsert
    refine ⟨?_, rfl, .inl ⟨session, mem_cons_self, rfl⟩⟩
    refine @extendRows s hsound s.users _ (Nat.le_refl _) (fun t _ hkept => ?_) fun session' hmem => ?_
    · exact hkept.imp_left fun ⟨old, hold, heq⟩ => ⟨old, mem_cons_of_mem _ hold, heq⟩
    · rcases mem_cons.mp hmem with rfl | hold
      · exact .inr howner
      · exact .inl hold

/-- A logout deletes the session of its token and of no other. -/
theorem deleteSession (token : Token) :
    Sound { s with sessions := s.sessions.filter (·.token ≠ token), deleted := token :: s.deleted } := by
  refine hsound.extend ⟨Nat.le_refl _, List.Subset.refl _, List.Subset.refl _, subset_cons_self .., ?_⟩ rfl
    (fun _ => .inl) (fun _ => .inl) (fun _ => .inl) fun session hmem => .inl (mem_of_mem_filter hmem)
  intro t _ hkept
  by_cases heq : t = token
  · subst heq
    exact .inr (.inl mem_cons_self)
  · refine hkept.imp (fun hsession => ?_) (Or.imp_left (mem_cons_of_mem _))
    obtain ⟨session, hmem, rfl⟩ := hsession
    exact ⟨session, mem_filter.mpr ⟨hmem, by simpa using heq⟩, rfl⟩

theorem sign {row : UserRow} (hrow : row.guid < s.users.nextGuid) :
    Sound { s with signed := s.sign row :: s.signed } := by
  refine hsound.extend ⟨Nat.le_refl _, subset_cons_self .., List.Subset.refl _, List.Subset.refl _, fun _ _ => id⟩
    rfl (fun t ht => ?_) (fun _ => .inl) (fun _ => .inl) fun _ => .inl
  rcases mem_cons.mp ht with rfl | hold
  · exact .inr hrow
  · exact .inl hold

theorem answerLogin (htoken : s.Justifies (.loggedIn token)) :
    Sound { s with returned := token :: s.returned } := by
  refine hsound.extend ⟨Nat.le_refl _, List.Subset.refl _, subset_cons_self .., List.Subset.refl _, fun _ _ => id⟩
    rfl (fun _ => .inl) (fun t ht => ?_) (fun _ => .inl) fun _ => .inl
  rcases mem_cons.mp ht with rfl | hold
  · exact .inr htoken
  · exact .inl hold

theorem answerLogout (htoken : token ∈ s.deleted) : Sound { s with loggedOut := token :: s.loggedOut } := by
  refine hsound.extend ⟨Nat.le_refl _, List.Subset.refl _, List.Subset.refl _, List.Subset.refl _, fun _ _ => id⟩
    rfl (fun _ => .inl) (fun _ => .inl) (fun t ht => ?_) fun _ => .inl
  rcases mem_cons.mp ht with rfl | hold
  · exact .inr htoken
  · exact .inl hold

end Sound

end

theorem Sound.handle (bcrypt : Bcrypt) (hsound : s.Sound) (token : Token) (user : UserRow) (route : Route) :
    (s.handle bcrypt i token user route).Sound := by
  cases route with
  | logout => exact (hsound.deleteSession token).park mem_cons_self
  | currentUser => exact hsound.finish
  | createUser name password salt isAdmin =>
    simp only [Server.handle]
    split
    · exact hsound.finish
    · split
      · exact hsound.finish
      next users hinsert => exact (hsound.insertUser hinsert).finish
  | disableUser guid => exact (hsound.setStatus guid 0).finish
  | enableUser guid => exact (hsound.setStatus guid 1).finish
  | deleteUser guid canonical =>
    simp only [Server.handle]
    split
    · exact hsound.finish
    · exact (hsound.deleteUser guid).finish
  | other admin => exact hsound.finish

theorem Sound.advance (bcrypt : Bcrypt) (hsound : s.Sound) (htask : s.Justifies task) :
    (s.advance bcrypt i task).Sound := by
  cases task with
  | login username password =>
    simp only [Server.advance]
    split
    · exact hsound.finish
    next row hrow =>
      split
      · exact hsound.finish
      · exact hsound.park (s.users.fresh row (mem_of_find?_eq_some hrow))
  | compare row password =>
    simp only [Server.advance]
    split
    · exact (hsound.sign htask).park ⟨mem_cons_self, rfl⟩
    · exact hsound.finish
  | insertSession session =>
    simp only [Server.advance]
    split
    · exact hsound.finish
    next s' hinsert =>
      obtain ⟨hsound', hsigned, hkept⟩ := hsound.insertSession htask.2 hinsert
      exact hsound'.park ⟨hsigned ▸ htask.1, hkept⟩
  | loggedIn token => exact (hsound.answerLogin htask).finish
  | authenticate token route =>
    simp only [Server.advance]
    split
    · exact hsound.finish
    · exact hsound.park htask
  | handle token user route => exact hsound.handle bcrypt token user route
  | loggedOut token => exact (hsound.answerLogout htask).finish

theorem Sound.step (bcrypt : Bcrypt) (hsound : s.Sound) (e : Step) : (s.step bcrypt e).Sound := by
  cases e with
  | login i username password =>
    simp only [Server.step]
    split
    · exact hsound
    · exact hsound.park trivial
  | request i bearer route =>
    simp only [Server.step]
    split
    · exact hsound
    next hfree =>
      have hknown : s.Known bearer := by simp_all
      split
      · exact hsound
      next token hverify =>
        refine hsound.park ?_
        cases bearer with
        | forged text => exact nomatch hverify
        | token t =>
          simp only [verify] at hverify
          split at hverify
          · exact some.inj hverify ▸ hknown
          · exact nomatch hverify
  | advance i =>
    simp only [Server.step]
    split
    · exact hsound
    next task htask => exact hsound.advance bcrypt (hsound.tasks i task htask)
  | wait ms => exact ⟨hsound.tasks, hsound.signed, hsound.returned, hsound.loggedOut, hsound.sessions⟩

/-- The row that lets a token through is that of an enabled user. -/
theorem enabled_of_preHandler {route : Route} {user : UserRow}
    (h : s.preHandler token route = some user) : s.Enabled token := by
  have hauth : s.requireAuth token = some user := by
    simp only [preHandler, requireAdmin] at h
    split at h
    · split at h
      · exact nomatch h
      next row hrow =>
        split at h
        · rwa [some.inj h] at hrow
        · exact nomatch h
    · exact h
  simp only [requireAuth] at hauth
  split at hauth
  · exact nomatch hauth
  next row hrow =>
    split at hauth
    · exact nomatch hauth
    next hstatus => exact ⟨row, mem_of_find?_eq_some hrow, by simpa using find?_some hrow, hstatus⟩

/-- Whoever is let through presents a token of a login, and its user is enabled. -/
theorem Sound.letsThrough (hsound : s.Sound) {e : Step} {t : Token} (hlets : s.LetsThrough t e) :
    t ∈ s.returned ∧ s.Enabled t := by
  cases e with
  | advance i =>
    obtain ⟨route, user, htask, hpre⟩ := hlets
    exact ⟨hsound.tasks i _ htask, enabled_of_preHandler hpre⟩
  | login | request | wait => exact hlets.elim

theorem Sound.entitled (hsound : s.Sound) {e : Step} (hsession : s.InSession e) {t : Token} (hlets : s.LetsThrough t e) :
    s.Entitled t := by
  obtain ⟨hreturned, row, hrow, hguid, hstatus⟩ := hsound.letsThrough hlets
  have hopen : s.now < t.exp ∧ t ∉ s.deleted := by
    cases e with
    | advance i =>
      obtain ⟨route, user, htask, -⟩ := hlets
      exact hsession _ htask
    | login | request | wait => exact hlets.elim
  refine ⟨hreturned, ⟨row, hrow, hguid, hstatus⟩, hopen.1, fun hout => hopen.2 (hsound.loggedOut t hout), ?_⟩
  rcases (hsound.returned t hreturned).2 with hrows | hdeleted | hgone
  · exact hrows
  · exact absurd hdeleted hopen.2
  · exact absurd hguid (hgone row hrow)

end Steps

def start (users : UserTable) : Server := { users }

theorem sound_start (users : UserTable) : (start users).Sound :=
  ⟨nofun, nofun, nofun, nofun, nofun⟩

end Server

open Server

/-- In every run whoever is let through presents a token of a login, and its user is enabled. -/
theorem runMeets_letsThrough (bcrypt : Bcrypt) (users : UserTable) (steps : List Step) :
    RunMeets (step bcrypt) (fun s e => ∀ t, s.LetsThrough t e → t ∈ s.returned ∧ s.Enabled t) (start users) steps := by
  have hall : RunMeets (step bcrypt) (fun _ _ => True) (start users) steps := runMeets_of_forall (fun _ _ => trivial) _
  exact runMeets_of_invariant (fun _ e h _ => h.step bcrypt e) (fun _ _ h _ _ => h.letsThrough) (sound_start users) hall

/-- API sessions end: in every run in which nobody is let through with a token behind its logout, and no token expires
while the row of its user is read, whoever is let through presents a token that a login returned, that has not expired
and that nobody has logged out, its user exists and is enabled, and its session still exists. -/
theorem letsThrough_entitled (bcrypt : Bcrypt) (users : UserTable) {steps : List Step}
    (hsession : RunMeets (step bcrypt) InSession (start users) steps) :
    RunMeets (step bcrypt) (fun s e => ∀ t, s.LetsThrough t e → s.Entitled t) (start users) steps := by
  refine runMeets_of_invariant (fun _ e h _ => h.step bcrypt e) (fun s e h hin => ?_) (sound_start users) hsession
  exact fun t hlets => h.entitled hin hlets

def sampleRow : UserRow := { guid := 0, name := "admin", passwordHash := "secret", status := 1, isAdmin := true }

def sampleUsers : UserTable := { rows := [sampleRow], nextGuid := 1, fresh := by decide }

def sampleBcrypt : Bcrypt := { hash := fun _ password => password, compare := fun password hash => password == hash }

def sampleToken : Token := { sub := 0, name := "admin", isAdmin := true, iat := 0, exp := sevenDays }

/-- A login, answered with the token. -/
def loginSteps : List Step := [.login 0 "admin" "secret", .advance 0, .advance 0, .advance 0, .advance 0]

/-- A request for the list of users, in a session. -/
theorem letsThrough_entitled_request :
    (runEvents (step sampleBcrypt) (start sampleUsers) (loginSteps ++ [.request 1 (.token sampleToken) (.other false)])).LetsThrough
      sampleToken (.advance 1) ∧
    RunMeets (step sampleBcrypt) (fun s e => ∀ t, s.LetsThrough t e → s.Entitled t) (start sampleUsers)
      (loginSteps ++ [.request 1 (.token sampleToken) (.other false), .advance 1]) := by
  refine ⟨⟨.other false, sampleRow, rfl, rfl⟩, letsThrough_entitled sampleBcrypt sampleUsers ?_⟩
  decide

/-- A logout, answered, and a request for the list of users with the same token. -/
def requestAfterLogout : List Step :=
  loginSteps ++ [.request 1 (.token sampleToken) .logout, .advance 1, .advance 1, .advance 1,
    .request 2 (.token sampleToken) (.other false)]

/-- The token lets the request through behind its logout. -/
theorem letsThrough_after_logout :
    ¬ RunMeets (step sampleBcrypt) (fun s e => ∀ t, s.LetsThrough t e → s.Entitled t) (start sampleUsers)
      (requestAfterLogout ++ [.advance 2]) := by
  intro h
  have hlast := (runMeets_append.mp h).2.1
  have hentitled := hlast sampleToken ⟨.other false, sampleRow, rfl, rfl⟩
  exact hentitled.notLoggedOut (by decide)

end UnyDesk.Api
