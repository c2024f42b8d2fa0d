import UnyDesk.Api.Bearer

/-!
# Logins

A token says whose it is and in which second it was signed, and it is the primary key of the sessions. Two logins of one
user whose passwords are found right in the same second sign the same token: the row of the second one is refused, or,
where a logout has deleted the first row, both logins get the token. Where this does not happen, and no user is deleted
under one of its logins, every login with the right password of an enabled user is answered with a token of its own,
which has a row of its own.
-/

namespace UnyDesk.Api

open Lib Function Server List Option List.Sublist

/-- The token that a login waits with. -/
def Task.token : Task → Option Token
  | .insertSession session => some session.token
  | .loggedIn token => some token
  | .login .. | .compare .. | .authenticate .. | .handle .. | .loggedOut _ => none

/-- How many steps a login is away from its end. -/
def Task.stepsLeft : Task → ℕ
  | .login .. => 4
  | .compare .. => 3
  | .insertSession _ => 2
  | .loggedIn _ => 1
  | .authenticate .. | .handle .. | .loggedOut _ => 0

/-- The task of this number waits with the token. -/
def Waits (tasks : ℕ → Option Task) (i : ℕ) (t : Token) : Prop := ∃ task, tasks i = some task ∧ task.token = some t

namespace Server

section

variable (bcrypt : Bcrypt)

/-- The task is a login with the right password of a user that is enabled when its row is read. -/
def Accepted (s : Server) : Task → Prop
  | .login username password =>
    ∃ row, s.users.byName username = some row ∧ row.status ≠ 0 ∧ bcrypt.compare password row.passwordHash = true
  | .compare row password => bcrypt.compare password row.passwordHash = true
  | .insertSession _ | .loggedIn _ => True
  | .authenticate .. | .handle .. | .loggedOut _ => False

/-- A password that is found right is the first one of its user in this second, and the user is still there when the
session is inserted. -/
def TaskUnrivalled (s : Server) : Task → Prop
  | .compare row password => bcrypt.compare password row.passwordHash = true →
    ∀ t ∈ s.signed, t.sub = row.guid → t.name = row.name → t.isAdmin = row.isAdmin → t.iat ≠ s.now
  | .insertSession session => ∃ row ∈ s.users.rows, row.guid = session.userGuid
  | .login .. | .loggedIn _ | .authenticate .. | .handle .. | .loggedOut _ => True

def Unrivalled (s : Server) : Step → Prop
  | .advance i => ∀ task ∈ s.tasks i, s.TaskUnrivalled bcrypt task
  | .login .. | .request .. | .wait _ => True

instance (bcrypt : Bcrypt) (s : Server) (task : Task) : Decidable (s.TaskUnrivalled bcrypt task) :=
  match task with
  | .compare .. => inferInstanceAs (Decidable (_ → ∀ t ∈ s.signed, _ → _ → _ → _))
  | .insertSession _ => inferInstanceAs (Decidable (∃ row ∈ s.users.rows, _))
  | .login .. | .loggedIn _ | .authenticate .. | .handle .. | .loggedOut _ => inferInstanceAs (Decidable True)

instance (bcrypt : Bcrypt) (s : Server) (e : Step) : Decidable (s.Unrivalled bcrypt e) :=
  match e with
  | .advance i => inferInstanceAs (Decidable (∀ task ∈ s.tasks i, _))
  | .login .. | .request .. | .wait _ => inferInstanceAs (Decidable True)

/-- A login request with both texts becomes a task. An accepted login goes on with every step of its own, up to the
answer with a token that was not returned before and whose session is there, unless its user is gone. No other step
touches it. -/
def Serves (s : Server) (e : Step) : Prop :=
  (∀ i username password, e = .login i username password → s.tasks i = none → username ≠ "" → password ≠ "" →
    (s.step bcrypt e).tasks i = some (.login username password)) ∧
  ∀ i task, s.tasks i = some task → s.Accepted bcrypt task → if e = .advance i then
      (∃ next, (s.step bcrypt e).tasks i = some next ∧ (s.step bcrypt e).Accepted bcrypt next ∧
        next.stepsLeft + 1 = task.stepsLeft) ∨
      ∃ t, task = .loggedIn t ∧ (s.step bcrypt e).returned = t :: s.returned ∧ t ∉ s.returned ∧
        ((∃ session ∈ (s.step bcrypt e).sessions, session.token = t) ∨ ∀ row ∈ s.users.rows, row.guid ≠ t.sub)
    else (s.step bcrypt e).tasks i = some task

end

/-- Every login has a token of its own, and every session is one of them. -/
structure OwnTokens (s : Server) : Prop where
  waits : ∀ i j t, Waits s.tasks i t → Waits s.tasks j t → i = j
  fresh : ∀ i t, Waits s.tasks i t → t ∉ s.returned
  returned : s.returned.Nodup
  sessions : ∀ session ∈ s.sessions, session.token ∈ s.returned ∨ ∃ i, s.tasks i = some (.loggedIn session.token)
  keys : (s.sessions.map (·.token)).Nodup
  deleted : ∀ t ∈ s.deleted, t ∈ s.returned

section Steps

variable {bcrypt : Bcrypt} {s s' : Server} {i j : ℕ} {t : Token} {task : Task} {session : Session} {e : Step}
  {next : Option Task}

theorem waits_update (h : Waits (update s.tasks i next) j t) :
    (j = i ∧ ∃ task, next = some task ∧ task.token = some t) ∨ (j ≠ i ∧ Waits s.tasks j t) := by
  obtain ⟨task, htask, htoken⟩ := h
  by_cases hji : j = i
  · subst hji
    rw [update_self] at htask
    exact .inl ⟨rfl, task, htask, htoken⟩
  · rw [update_of_ne hji] at htask
    exact .inr ⟨hji, task, htask, htoken⟩

/-- A token that a task waits with has been signed. -/
theorem Sound.signed_of_waits (hsound : s.Sound) (h : Waits s.tasks i t) : t ∈ s.signed := by
  obtain ⟨task, htask, htoken⟩ := h
  have hjustified := hsound.tasks i task htask
  cases task with
  | insertSession session => exact some.inj htoken ▸ hjustified.1
  | loggedIn token => exact some.inj htoken ▸ hjustified.1
  | _ => cases htoken

section OwnTokens

variable (h : s.OwnTokens)
include h

namespace OwnTokens

/-- The rule for a task without a token that goes on without one or ends, while rows may go. -/
theorem setTask (hnext : ∀ task, next = some task → task.token = none)
    (hnow : ∀ task, s.tasks i = some task → task.token = none ∨ ∃ session, task = .insertSession session)
    (htasks : s'.tasks = update s.tasks i next) (hreturned : s'.returned = s.returned)
    (hsessions : s'.sessions.Sublist s.sessions) (hdeleted : ∀ t ∈ s'.deleted, t ∈ s.returned) : s'.OwnTokens := by
  have hold : ∀ j t, Waits s'.tasks j t → j ≠ i ∧ Waits s.tasks j t := by
    intro j t hwaits
    rw [htasks] at hwaits
    rcases waits_update hwaits with ⟨-, task, htask, htoken⟩ | hother
    · rw [hnext task htask] at htoken
      cases htoken
    · exact hother
  constructor
  case waits => exact fun j k t hj hk => h.waits j k t (hold j t hj).2 (hold k t hk).2
  case fresh =>
    intro j t hj
    rw [hreturned]
    exact h.fresh j t (hold j t hj).2
  case returned => rw [hreturned]; exact h.returned
  case sessions =>
    intro session hmem
    rw [hreturned, htasks]
    refine (h.sessions session (hsessions.subset hmem)).imp_right ?_
    rintro ⟨j, hj⟩
    refine ⟨j, ?_⟩
    by_cases hji : j = i
    · subst hji
      rcases hnow _ hj with hnone | ⟨session', hinsert⟩
      · cases hnone
      · cases hinsert
    · rw [update_of_ne hji]
      exact hj
  case keys => exact h.keys.sublist (hsessions.map _)
  case deleted =>
    intro t ht
    rw [hreturned]
    exact hdeleted t ht

/-- The rule for a task that goes on without touching the tables. -/
theorem park (hnext : task.token = none)
    (hnow : ∀ task, s.tasks i = some task → task.token = none ∨ ∃ session, task = .insertSession session) :
    (s.park i task).OwnTokens :=
  h.setTask (fun _ heq => some.inj heq ▸ hnext) hnow rfl rfl (refl _) h.deleted

theorem finish
    (hnow : ∀ task, s.tasks i = some task → task.token = none ∨ ∃ session, task = .insertSession session) :
    (s.finish i).OwnTokens :=
  h.setTask (fun _ heq => by cases heq) hnow rfl rfl (refl _) h.deleted

/-- A token that has not been signed before is nobody's. -/
theorem sign (hsound : s.Sound) (hnew : session.token ∉ s.signed)
    (hnow : ∀ task, s.tasks i = some task → task.token = none) :
    (Server.park { s with signed := session.token :: s.signed } i (.insertSession session)).OwnTokens := by
  have hcase : ∀ j t, Waits (update s.tasks i (some (.insertSession session))) j t →
      (j = i ∧ t = session.token) ∨ (j ≠ i ∧ Waits s.tasks j t) := by
    intro j t hwaits
    refine (waits_update hwaits).imp_left ?_
    rintro ⟨hji, task, htask, htoken⟩
    obtain rfl := some.inj htask
    exact ⟨hji, (some.inj htoken).symm⟩
  constructor
  case waits =>
    intro j k t hj hk
    rcases hcase j t hj with ⟨hji, htj⟩ | ⟨-, hjold⟩
    · rcases hcase k t hk with ⟨hki, -⟩ | ⟨-, hkold⟩
      · rw [hji, hki]
      · exact absurd (htj ▸ hsound.signed_of_waits hkold) hnew
    · rcases hcase k t hk with ⟨-, htk⟩ | ⟨-, hkold⟩
      · exact absurd (htk ▸ hsound.signed_of_waits hjold) hnew
      · exact h.waits j k t hjold hkold
  case fresh =>
    intro j t hj hreturned
    rcases hcase j t hj with ⟨rfl, rfl⟩ | ⟨-, hj⟩
    · exact hnew (hsound.returned session.token hreturned).1
    · exact h.fresh j t hj hreturned
  case returned => exact h.returned
  case sessions =>
    intro row hrow
    refine (h.sessions row hrow).imp_right ?_
    rintro ⟨j, hj⟩
    refine ⟨j, ?_⟩
    have hji : j ≠ i := by
      rintro rfl
      cases hnow _ hj
    exact (update_of_ne hji ..).trans hj
  case keys => exact h.keys
  case deleted => exact h.deleted

/-- The row of a login that waits with its session. -/
theorem insertSession (hnow : s.tasks i = some (.insertSession session))
    (hinsert : s.insertSession session = some s') : (s'.park i (.loggedIn session.token)).OwnTokens := by
  unfold Server.insertSession at hinsert
  split at hinsert
  · cases hinsert
  next hfree =>
  obtain rfl := some.inj hinsert
  have hkeep : ∀ j t, Waits (Function.update s.tasks i (some (.loggedIn session.token))) j t → Waits s.tasks j t := by
    intro j t hwaits
    rcases waits_update hwaits with ⟨rfl, task, htask, htoken⟩ | ⟨-, hother⟩
    · obtain rfl := some.inj htask
      exact ⟨_, hnow, htoken⟩
    · exact hother
  constructor
  case waits => exact fun j k t hj hk => h.waits j k t (hkeep j t hj) (hkeep k t hk)
  case fresh => exact fun j t hj => h.fresh j t (hkeep j t hj)
  case returned => exact h.returned
  case sessions =>
    intro row hrow
    rcases mem_cons.mp hrow with rfl | hold
    · exact .inr ⟨i, Function.update_self ..⟩
    · refine (h.sessions row hold).imp_right ?_
      rintro ⟨j, hj⟩
      refine ⟨j, ?_⟩
      have hji : j ≠ i := by
        rintro rfl
        cases hnow.symm.trans hj
      exact (Function.update_of_ne hji ..).trans hj
  case keys =>
    refine nodup_cons.mpr ⟨fun hmem => hfree ?_, h.keys⟩
    obtain ⟨row, hrow, htoken⟩ := mem_map.mp hmem
    exact Bool.or_eq_true_iff.mpr (.inl (any_eq_true.mpr ⟨row, hrow, decide_eq_true htoken⟩))
  case deleted => exact h.deleted

/-- A login that is answered gives its token away. -/
theorem answerLogin (hnow : s.tasks i = some (.loggedIn t)) :
    (Server.finish { s with returned := t :: s.returned } i).OwnTokens := by
  have hwaits : Waits s.tasks i t := ⟨_, hnow, rfl⟩
  have hkeep : ∀ j t, Waits (update s.tasks i none) j t → j ≠ i ∧ Waits s.tasks j t := by
    intro j t hwaits
    rcases waits_update hwaits with ⟨-, task, htask, -⟩ | hother
    · cases htask
    · exact hother
  constructor
  case waits => exact fun j k t hj hk => h.waits j k t (hkeep j t hj).2 (hkeep k t hk).2
  case fresh =>
    intro j t' hj hmem
    obtain ⟨hji, hjold⟩ := hkeep j t' hj
    rcases mem_cons.mp hmem with heq | hold
    · exact hji (h.waits j i t (heq ▸ hjold) hwaits)
    · exact h.fresh j t' hjold hold
  case returned => exact nodup_cons.mpr ⟨h.fresh i t hwaits, h.returned⟩
  case sessions =>
    intro row hrow
    rcases h.sessions row hrow with hold | ⟨j, hj⟩
    · exact .inl (mem_cons_of_mem t hold)
    · by_cases hji : j = i
      · subst hji
        obtain heq : t = row.token := by simpa using hnow.symm.trans hj
        exact .inl (heq ▸ mem_cons_self)
      · refine .inr ⟨j, ?_⟩
        exact (update_of_ne hji ..).trans hj
  case keys => exact h.keys
  case deleted => exact fun t' ht' => mem_cons_of_mem t (h.deleted t' ht')

theorem handle {token : Token} {user : UserRow} {route : Route}
    (htoken : token ∈ s.returned) (hnow : s.tasks i = some (.handle token user route)) :
    (s.handle bcrypt i token user route).OwnTokens := by
  have hnone : ∀ task, s.tasks i = some task → task.token = none ∨ ∃ session, task = .insertSession session := by
    intro task htask
    obtain rfl := some.inj (hnow.symm.trans htask)
    exact .inl rfl
  have htables : ∀ (users : UserTable) (sessions : List Session), sessions.Sublist s.sessions →
      (Server.finish { s with users, sessions } i).OwnTokens := fun users sessions hsub =>
    h.setTask (fun _ heq => by cases heq) hnone rfl rfl hsub h.deleted
  cases route with
  | logout =>
    refine h.setTask (fun _ heq => some.inj heq ▸ rfl) hnone rfl rfl filter_sublist ?_
    intro t ht
    rcases mem_cons.mp ht with rfl | hold
    · exact htoken
    · exact h.deleted t hold
  | currentUser => exact h.finish hnone
  | createUser name password salt isAdmin =>
    simp only [Server.handle]
    split
    · exact h.finish hnone
    · split
      · exact h.finish hnone
      next users _ => exact htables users s.sessions (refl _)
  | disableUser guid => exact htables _ s.sessions (refl _)
  | enableUser guid => exact htables _ s.sessions (refl _)
  | deleteUser guid canonical =>
    simp only [Server.handle]
    split
    · exact h.finish hnone
    · exact htables _ _ filter_sublist
  | other admin => exact h.finish hnone

end OwnTokens

end OwnTokens

/-- Nobody has signed the token of an unrivalled login. -/
theorem sign_notMem {row : UserRow} {password : String} (hright : bcrypt.compare password row.passwordHash = true)
    (h : s.TaskUnrivalled bcrypt (.compare row password)) : s.sign row ∉ s.signed :=
  fun hmem => h hright (s.sign row) hmem rfl rfl rfl rfl

theorem OwnTokens.advance (h : s.OwnTokens) (hsound : s.Sound) (hnow : s.tasks i = some task)
    (hfresh : s.TaskUnrivalled bcrypt task) : (s.advance bcrypt i task).OwnTokens := by
  have hnone (hplain : task.token = none ∨ ∃ session, task = .insertSession session) :
      ∀ task, s.tasks i = some task → task.token = none ∨ ∃ session, task = .insertSession session := by
    intro task' htask'
    obtain rfl := some.inj (hnow.symm.trans htask')
    exact hplain
  cases task with
  | login username password =>
    simp only [advance]
    split
    · exact h.finish (hnone (.inl rfl))
    · split
      · exact h.finish (hnone (.inl rfl))
      · exact h.park rfl (hnone (.inl rfl))
  | compare row password =>
    simp only [advance]
    split
    next hright =>
      refine h.sign hsound (sign_notMem hright hfresh) fun task htask => ?_
      obtain rfl := some.inj (hnow.symm.trans htask)
      rfl
    · exact h.finish (hnone (.inl rfl))
  | insertSession session =>
    simp only [advance]
    split
    · exact h.finish (hnone (.inr ⟨session, rfl⟩))
    next s' hinsert => exact h.insertSession hnow hinsert
  | loggedIn token => exact h.answerLogin hnow
  | authenticate token route =>
    simp only [advance]
    split
    · exact h.finish (hnone (.inl rfl))
    · exact h.park rfl (hnone (.inl rfl))
  | handle token user route => exact h.handle (hsound.tasks i _ hnow) hnow
  | loggedOut token =>
    exact h.setTask (fun _ heq => by cases heq) (hnone (.inl rfl)) rfl rfl (refl _) h.deleted

theorem OwnTokens.step (h : s.OwnTokens) (hsound : s.Sound) (hfresh : s.Unrivalled bcrypt e) :
    (s.step bcrypt e).OwnTokens := by
  cases e with
  | login i username password =>
    simp only [Server.step]
    split
    · exact h
    next hfree =>
      refine h.park rfl fun task htask => ?_
      simp [htask] at hfree
  | request i bearer route =>
    simp only [Server.step]
    split
    · exact h
    next hfree =>
      split
      · exact h
      · refine h.park rfl fun task htask => ?_
        simp [htask] at hfree
  | advance i =>
    simp only [Server.step]
    split
    · exact h
    next task htask => exact h.advance hsound htask (hfresh task htask)
  | wait ms => exact ⟨h.waits, h.fresh, h.returned, h.sessions, h.keys, h.deleted⟩

theorem tasks_advance_of_ne (hji : j ≠ i) : (s.advance bcrypt j task).tasks i = s.tasks i := by
  have hother : ∀ next, update s.tasks j next i = s.tasks i := fun next => update_of_ne hji.symm ..
  cases task with
  | login username password =>
    simp only [advance]
    split
    · exact hother none
    · split <;> exact hother _
  | compare row password =>
    simp only [advance]
    split <;> exact hother _
  | insertSession session =>
    simp only [advance, insertSession]
    split
    · exact hother none
    next s' hinsert =>
      split at hinsert
      · cases hinsert
      · obtain rfl := some.inj hinsert
        exact hother _
  | loggedIn token => exact hother none
  | authenticate token route =>
    simp only [advance]
    split <;> exact hother _
  | handle token user route =>
    cases route with
    | createUser name password salt isAdmin =>
      simp only [advance, handle]
      split
      · exact hother none
      · split <;> exact hother none
    | deleteUser guid canonical =>
      simp only [advance, handle]
      split <;> exact hother none
    | _ => exact hother _
  | loggedOut token => exact hother none

/-- Only a step of its own moves a task. -/
theorem tasks_step_of_ne (htask : s.tasks i = some task) (he : e ≠ .advance i) :
    (s.step bcrypt e).tasks i = some task := by
  have hother : ∀ j next, j ≠ i → update s.tasks j next i = some task := by
    intro j next hji
    rw [update_of_ne hji.symm]
    exact htask
  cases e with
  | login j username password =>
    simp only [step]
    split
    · exact htask
    next hfree =>
      refine hother j _ ?_
      rintro rfl
      simp [htask] at hfree
  | request j bearer route =>
    simp only [step]
    split
    · exact htask
    next hfree =>
      split
      · exact htask
      · refine hother j _ ?_
        rintro rfl
        simp [htask] at hfree
  | advance j =>
    have hji : j ≠ i := fun heq => he (heq ▸ rfl)
    simp only [step]
    split
    · exact htask
    next task' htask' => exact (tasks_advance_of_ne hji).trans htask
  | wait ms => exact htask

/-- The session of an unrivalled login is not refused. -/
theorem OwnTokens.insertSession_isSome (h : s.OwnTokens)
    (hnow : s.tasks i = some (.insertSession session)) (hfresh : s.TaskUnrivalled bcrypt (.insertSession session)) :
    ∃ s', s.insertSession session = some s' := by
  have hwaits : Waits s.tasks i session.token := ⟨_, hnow, rfl⟩
  have hkey : s.sessions.any (·.token = session.token) = false := by
    refine any_eq_false.mpr fun row hrow => ?_
    intro htoken
    have heq : row.token = session.token := of_decide_eq_true htoken
    rcases h.sessions row hrow with hreturned | ⟨j, hj⟩
    · exact h.fresh i session.token hwaits (heq ▸ hreturned)
    · obtain rfl := h.waits i j session.token hwaits ⟨_, hj, congrArg some heq⟩
      cases hnow.symm.trans hj
  have huser : s.users.rows.all (·.guid ≠ session.userGuid) = false := by
    obtain ⟨row, hrow, hguid⟩ := hfresh
    exact all_eq_false.mpr ⟨row, hrow, by simpa using hguid⟩
  exact ⟨_, if_neg (by rw [hkey, huser]; decide)⟩

/-- A login request with a free number. -/
theorem step_login {username password : String} (hfree : s.tasks i = none) (husername : username ≠ "")
    (hpassword : password ≠ "") :
    s.step bcrypt (.login i username password) = s.park i (.login username password) := by
  have htexts : username.isEmpty = false ∧ password.isEmpty = false := by simp [husername, hpassword]
  simp only [Server.step, hfree, htexts, isSome_none, Bool.or_self, Bool.false_eq_true, if_false]

theorem OwnTokens.serves (h : s.OwnTokens) (hsound : s.Sound) (hfresh : s.Unrivalled bcrypt e) : s.Serves bcrypt e := by
  constructor
  · rintro i username password rfl hfree husername hpassword
    rw [step_login hfree husername hpassword]
    exact update_self ..
  intro i task htask haccepted
  split
  case isFalse hother => exact tasks_step_of_ne htask hother
  case isTrue hown =>
    subst hown
    have hstep : s.step bcrypt (.advance i) = s.advance bcrypt i task := by simp only [Server.step, htask]
    have hunrivalled : s.TaskUnrivalled bcrypt task := hfresh task htask
    rw [hstep]
    cases task with
    | login username password =>
      obtain ⟨row, hrow, hstatus, hright⟩ := haccepted
      refine .inl ⟨.compare row password, ?_, hright, rfl⟩
      simp only [Server.advance, hrow, if_neg hstatus]
      exact Function.update_self ..
    | compare row password =>
      have hright : bcrypt.compare password row.passwordHash = true := haccepted
      refine .inl ⟨.insertSession ⟨s.sign row, row.guid, s.nowMs + sevenDays * 1000⟩, ?_, trivial, rfl⟩
      simp only [Server.advance, if_pos hright]
      exact Function.update_self ..
    | insertSession session =>
      obtain ⟨s', hinsert⟩ := h.insertSession_isSome htask hunrivalled
      refine .inl ⟨.loggedIn session.token, ?_, trivial, rfl⟩
      simp only [Server.advance, hinsert]
      exact Function.update_self ..
    | loggedIn t =>
      have hnew : t ∉ s.returned := h.fresh i t ⟨_, htask, rfl⟩
      refine .inr ⟨t, rfl, rfl, hnew, ?_⟩
      rcases (hsound.tasks i _ htask).2 with hsession | hdeleted | hgone
      · exact .inl hsession
      · exact absurd (h.deleted t hdeleted) hnew
      · exact .inr hgone
    | _ => cases haccepted

theorem ownTokens_start (users : UserTable) : (start users).OwnTokens := by
  constructor
  case waits =>
    rintro i j t ⟨task, htask, -⟩
    cases htask
  case fresh =>
    rintro i t ⟨task, htask, -⟩
    cases htask
  case returned => exact nodup_nil
  case sessions => exact fun session hmem => absurd hmem not_mem_nil
  case keys => exact nodup_nil
  case deleted => exact fun t ht => absurd ht not_mem_nil

end Steps

end Server

open Server

/-- Logins yield fresh tokens: in every run in which no two passwords of one user are found right in the same second,
and no user is deleted while one of its sessions is about to be inserted, every login with the right password of an
enabled user becomes a task and goes on to its answer, the tokens of different logins are different, and each has a row
of its own, until a logout with it or the end of its user. -/
theorem logins_served (bcrypt : Bcrypt) (users : UserTable) {steps : List Step}
    (hfresh : RunMeets (step bcrypt) (Unrivalled bcrypt) (start users) steps) :
    RunMeets (step bcrypt) (Serves bcrypt) (start users) steps ∧
      let s := runEvents (step bcrypt) (start users) steps
      s.returned.Nodup ∧ (∀ t ∈ s.returned, t ∈ s.signed ∧ s.Kept t) ∧
        (s.sessions.map (·.token)).Nodup ∧ ∀ session ∈ s.sessions, session.userGuid = session.token.sub := by
  have hstep : ∀ (s : Server) e, s.Sound ∧ s.OwnTokens → s.Unrivalled bcrypt e →
      (s.step bcrypt e).Sound ∧ (s.step bcrypt e).OwnTokens :=
    fun s e h hunrivalled => ⟨h.1.step bcrypt e, h.2.step h.1 hunrivalled⟩
  have hstart : (start users).Sound ∧ (start users).OwnTokens := ⟨sound_start users, ownTokens_start users⟩
  obtain ⟨hsound, hown⟩ := runEvents_invariant hstep hstart hfresh
  have hserves := runMeets_of_invariant hstep (fun s e h hunrivalled => h.2.serves h.1 hunrivalled) hstart hfresh
  exact ⟨hserves, hown.returned, hsound.returned, hown.keys, hsound.sessions⟩

/-- Two logins of the administrator, a second apart. -/
def twoLogins : List Step :=
  [.login 0 "admin" "secret", .login 1 "admin" "secret", .advance 0, .advance 1, .advance 0, .wait 1000, .advance 1,
    .advance 0, .advance 1, .advance 0, .advance 1]

theorem logins_served_two : RunMeets (step sampleBcrypt) (Serves sampleBcrypt) (start sampleUsers) twoLogins ∧
    let s := runEvents (step sampleBcrypt) (start sampleUsers) twoLogins
    s.returned.map (·.iat) = [1, 0] ∧ s.returned.Nodup ∧ (∀ t ∈ s.returned, t ∈ s.signed ∧ s.Kept t) ∧
      (s.sessions.map (·.token)).Nodup ∧ ∀ session ∈ s.sessions, session.userGuid = session.token.sub := by
  have hfresh : RunMeets (step sampleBcrypt) (Unrivalled sampleBcrypt) (start sampleUsers) twoLogins := by decide
  obtain ⟨hserves, hsound⟩ := logins_served sampleBcrypt sampleUsers hfresh
  exact ⟨hserves, by decide, hsound⟩

/-- Two logins of the administrator whose passwords are found right in the same second. -/
def rivalLogins : List Step :=
  [.login 0 "admin" "secret", .login 1 "admin" "secret", .advance 0, .advance 1, .advance 0, .advance 1, .advance 0]

/-- The second login ends without a token. -/
theorem not_serves_rival :
    ¬ RunMeets (step sampleBcrypt) (Serves sampleBcrypt) (start sampleUsers) (rivalLogins ++ [.advance 1]) := by
  intro h
  have hlast := (runMeets_append.mp h).2.1
  have hnone : ((runEvents (step sampleBcrypt) (start sampleUsers) rivalLogins).step sampleBcrypt
      (.advance 1)).tasks 1 = none := by decide
  have hserved := hlast.2 1 (.insertSession ⟨sampleToken, 0, 604800000⟩) (by decide) trivial
  rw [if_pos rfl] at hserved
  rcases hserved with ⟨next, hnext, -⟩ | ⟨t, ht, -⟩
  · cases hnone.symm.trans hnext
  · cases ht

end UnyDesk.Api
