import UnyDesk.Api.Bearer

/-!
# Administrators

The routes for administrators check the row of their user before they write, and the write is a statement of its own.
An administrator can disable himself, and two can remove each other. Some administrator stays enabled exactly as long
as no disable or delete statement meets the last one, which it never does while whoever acts is still an administrator
when his statement runs and acts on others only. The list of users, which the README marks for administrators, is open
to every user.
-/

namespace UnyDesk.Api

open Lib Server Function List Option

namespace UserTable

section

variable (users : UserTable)

def HasAdmin : Prop := ∃ row ∈ users.rows, row.isAdmin = true ∧ row.status ≠ 0

/-- An administrator other than the user is enabled. -/
def HasAdminBut (guid : ℕ) : Prop :=
  ∃ row ∈ users.rows, row.isAdmin = true ∧ row.status ≠ 0 ∧ row.guid ≠ guid

instance (users : UserTable) : Decidable users.HasAdmin := by unfold HasAdmin; infer_instance

/-- The row of the name becomes that of an enabled administrator. -/
def restoreAdmin (name passwordHash : String) : UserTable :=
  { users with
    rows := users.rows.map fun row =>
      if row.name = name then { row with passwordHash, status := 1, isAdmin := true } else row
    fresh := by
      intro row hrow
      obtain ⟨old, hold, rfl⟩ := List.mem_map.mp hrow
      split <;> exact users.fresh old hold }

/-- `ensureAdmin`, before the server listens. -/
def ensureAdmin (adminUser passwordHash : String) : UserTable :=
  match users.byName adminUser with
  | none => (users.insert adminUser passwordHash true).getD users
  | some _ => users.restoreAdmin adminUser passwordHash

end

variable {users users' : UserTable} {guid : ℕ}

theorem hasAdmin_ensureAdmin (users : UserTable) (adminUser passwordHash : String) :
    (users.ensureAdmin adminUser passwordHash).HasAdmin := by
  unfold ensureAdmin
  cases hname : users.byName adminUser with
  | none =>
    have hfree : users.rows.any (·.name = adminUser) = false := by
      rw [List.any_eq_false]
      exact List.find?_eq_none.mp hname
    simp only [insert, hfree, Bool.false_eq_true, if_false, Option.getD_some]
    exact ⟨_, List.mem_append_right _ (List.mem_singleton_self _), rfl, Int.one_ne_zero⟩
  | some row =>
    have hrow : row ∈ users.rows := List.mem_of_find?_eq_some hname
    have hadmin : row.name = adminUser := by simpa using List.find?_some hname
    refine ⟨_, List.mem_map.mpr ⟨row, hrow, rfl⟩, ?_⟩
    simp [hadmin]

theorem hasAdmin_disable : (users.setStatus guid 0).HasAdmin ↔ users.HasAdminBut guid := by
  constructor
  · rintro ⟨row, hrow, hadmin, hstatus⟩
    obtain ⟨old, hold, rfl⟩ := mem_map.mp hrow
    by_cases hguid : old.guid = guid
    · simp [hguid] at hstatus
    · simp only [hguid, if_false] at hadmin hstatus
      exact ⟨old, hold, hadmin, hstatus, hguid⟩
  · rintro ⟨row, hrow, hadmin, hstatus, hguid⟩
    refine ⟨row, mem_map.mpr ⟨row, hrow, ?_⟩, hadmin, hstatus⟩
    simp [hguid]

theorem hasAdmin_delete : (users.delete guid).HasAdmin ↔ users.HasAdminBut guid := by
  simp only [HasAdmin, HasAdminBut, delete, mem_filter, decide_eq_true_eq]
  constructor
  · rintro ⟨row, ⟨hrow, hguid⟩, hadmin, hstatus⟩
    exact ⟨row, hrow, hadmin, hstatus, hguid⟩
  · rintro ⟨row, hrow, hadmin, hstatus, hguid⟩
    exact ⟨row, ⟨hrow, hguid⟩, hadmin, hstatus⟩

theorem HasAdmin.enable (h : users.HasAdmin) : (users.setStatus guid 1).HasAdmin := by
  obtain ⟨row, hrow, hadmin, hstatus⟩ := h
  refine ⟨_, mem_map.mpr ⟨row, hrow, rfl⟩, ?_⟩
  by_cases hguid : row.guid = guid <;> simp [hguid, hadmin, hstatus]

theorem HasAdmin.insert (h : users.HasAdmin) {name passwordHash : String} {isAdmin : Bool}
    (hinsert : users.insert name passwordHash isAdmin = some users') : users'.HasAdmin := by
  unfold UserTable.insert at hinsert
  split at hinsert
  · cases hinsert
  · obtain ⟨row, hrow, hadmin, hstatus⟩ := h
    obtain rfl := some.inj hinsert
    exact ⟨row, mem_append_left _ hrow, hadmin, hstatus⟩

end UserTable

/-- The endpoints that the README marks for administrators, and the others. -/
inductive Endpoint
  | listUsers
  | createUser (name password salt : String) (isAdmin : Bool)
  | disableUser (guid : ℕ)
  | enableUser (guid : ℕ)
  | deleteUser (guid : ℕ) (canonical : Bool)
  | deployTokens
  | unmarked (route : Route)

/-- What serves the endpoint; the list of users is registered with `requireAuth`. -/
def Endpoint.route : Endpoint → Route
  | .listUsers => .other false
  | .createUser name password salt isAdmin => .createUser name password salt isAdmin
  | .disableUser guid => .disableUser guid
  | .enableUser guid => .enableUser guid
  | .deleteUser guid canonical => .deleteUser guid canonical
  | .deployTokens => .other true
  | .unmarked route => route

def Endpoint.marked : Endpoint → Bool
  | .unmarked _ => false
  | _ => true

/-- The server, with the endpoint that each request came in at. -/
structure Console where
  server : Server
  endpoints : ℕ → Option Endpoint := fun _ => none

inductive ConsoleStep
  | login (i : ℕ) (username password : String)
  | request (i : ℕ) (bearer : Bearer) (endpoint : Endpoint)
  | advance (i : ℕ)
  | wait (ms : ℕ)

def ConsoleStep.toStep : ConsoleStep → Step
  | .login i username password => .login i username password
  | .request i bearer endpoint => .request i bearer endpoint.route
  | .advance i => .advance i
  | .wait ms => .wait ms

/-- Whose power the statement of a route takes away. -/
def Route.removes (user : UserRow) : Route → Option ℕ
  | .disableUser guid => some guid
  | .deleteUser guid canonical => if guid = user.guid ∧ canonical = true then none else some guid
  | _ => none

namespace Console

def step (bcrypt : Bcrypt) (c : Console) (e : ConsoleStep) : Console where
  server := c.server.step bcrypt e.toStep
  endpoints :=
    match e with
    | .request i _ endpoint =>
      if (c.server.tasks i).isNone then Function.update c.endpoints i (some endpoint) else c.endpoints
    | _ => c.endpoints

/-- After `ensureAdmin`. -/
def start (users : UserTable) (adminUser passwordHash : String) : Console :=
  { server := { users := users.ensureAdmin adminUser passwordHash } }

section

variable (c : Console)

/-- The user that the task is checked for, if the step lets it through. -/
def letThrough (i : ℕ) : Option UserRow :=
  match c.server.tasks i with
  | some (.authenticate token route) => c.server.preHandler token route
  | _ => none

/-- A request to a marked endpoint that is let through is that of an enabled administrator. -/
def AdminOnly : ConsoleStep → Prop
  | .advance i => ∀ endpoint ∈ c.endpoints i, endpoint.marked = true →
      ∀ user ∈ c.letThrough i, user.isAdmin = true ∧ user.status ≠ 0
  | _ => True

/-- A statement that takes an administrator's power away leaves another one. -/
def SparesAdmin : ConsoleStep → Prop
  | .advance i =>
    match c.server.tasks i with
    | some (.handle _ user route) => ∀ guid ∈ route.removes user, c.server.users.HasAdminBut guid
    | _ => True
  | _ => True

/-- The list of users is only asked for by administrators. -/
def ListedToAdmin : ConsoleStep → Prop
  | .advance i => c.endpoints i = some .listUsers → ∀ user ∈ c.letThrough i, user.isAdmin = true
  | _ => True

/-- The endpoint of a request is known until its row has been read. -/
def Recorded : Prop :=
  ∀ i token route, c.server.tasks i = some (.authenticate token route) →
    ∃ endpoint, c.endpoints i = some endpoint ∧ endpoint.route = route

end

section Steps

variable {c : Console} {bcrypt : Bcrypt} {s : Server} {i j : ℕ}

/-- The other tasks are untouched. -/
theorem of_tasks_park {task found : Task} (h : (s.park i task).tasks j = some found) :
    j = i ∧ task = found ∨ s.tasks j = some found := by
  by_cases hji : j = i
  · subst hji
    exact .inl ⟨rfl, some.inj ((update_self (f := s.tasks) ..).symm.trans h)⟩
  · exact .inr ((update_of_ne hji ..).symm.trans h)

theorem of_tasks_finish {found : Task} (h : (s.finish i).tasks j = some found) : s.tasks j = some found := by
  by_cases hji : j = i
  · subst hji
    exact nomatch (update_self (f := s.tasks) ..).symm.trans h
  · exact (update_of_ne hji ..).symm.trans h

/-- No task begins to authenticate behind its request. -/
theorem tasks_advance {task : Task} {token : Token} {route : Route}
    (h : (s.advance bcrypt i task).tasks j = some (.authenticate token route)) :
    s.tasks j = some (.authenticate token route) := by
  cases task with
  | login username password =>
    simp only [advance] at h
    split at h
    · exact of_tasks_finish h
    · split at h
      · exact of_tasks_finish h
      · exact (of_tasks_park h).resolve_left fun hnew => by cases hnew.2
  | compare row password =>
    simp only [advance] at h
    split at h
    · exact (of_tasks_park h).resolve_left fun hnew => by cases hnew.2
    · exact of_tasks_finish h
  | insertSession session =>
    simp only [advance] at h
    split at h
    · exact of_tasks_finish h
    next s' hinsert =>
      have hold := (of_tasks_park h).resolve_left fun hnew => by cases hnew.2
      unfold insertSession at hinsert
      split at hinsert
      · cases hinsert
      · rwa [← some.inj hinsert] at hold
  | loggedIn token => exact of_tasks_finish h
  | authenticate token route =>
    simp only [advance] at h
    split at h
    · exact of_tasks_finish h
    · exact (of_tasks_park h).resolve_left fun hnew => by cases hnew.2
  | handle token user route =>
    cases route with
    | logout => exact (of_tasks_park h).resolve_left fun hnew => by cases hnew.2
    | currentUser | disableUser | enableUser | other => exact of_tasks_finish h
    | createUser name password salt isAdmin =>
      simp only [advance, handle] at h
      split at h
      · exact of_tasks_finish h
      · split at h <;> exact of_tasks_finish h
    | deleteUser guid canonical =>
      simp only [advance, handle] at h
      split at h <;> exact of_tasks_finish h
  | loggedOut token => exact of_tasks_finish h

theorem Recorded.step (h : c.Recorded) (bcrypt : Bcrypt) (e : ConsoleStep) : (c.step bcrypt e).Recorded := by
  intro j token route htask
  cases e with
  | login i username password =>
    simp only [Console.step, ConsoleStep.toStep, Server.step] at htask
    split at htask
    · exact h j token route htask
    · exact h j token route ((of_tasks_park htask).resolve_left fun hnew => by cases hnew.2)
  | request i bearer endpoint =>
    -- Either the request is parked with its endpoint, or the task was there before.
    have hcases : j = i ∧ c.server.tasks i = none ∧ endpoint.route = route ∨
        c.server.tasks j = some (.authenticate token route) := by
      simp only [Console.step, ConsoleStep.toStep, Server.step] at htask
      split at htask
      · exact .inr htask
      next hfree =>
        split at htask
        · exact .inr htask
        · refine (of_tasks_park htask).imp_left fun hnew => ⟨hnew.1, ?_, (Task.authenticate.inj hnew.2).2⟩
          simp only [Bool.or_eq_true, not_or, Bool.not_eq_true, isSome_eq_false_iff, isNone_iff_eq_none] at hfree
          exact hfree.1
    simp only [Console.step]
    rcases hcases with ⟨rfl, hfree, hroute⟩ | hold
    · rw [hfree, isNone_none, if_pos rfl, Function.update_self]
      exact ⟨endpoint, rfl, hroute⟩
    · obtain ⟨known, hknown, hroute⟩ := h j token route hold
      refine ⟨known, ?_, hroute⟩
      split
      next hfree =>
        have hji : j ≠ i := by
          rintro rfl
          rw [hold] at hfree
          cases hfree
        rwa [Function.update_of_ne hji]
      next => exact hknown
  | advance i =>
    simp only [Console.step, ConsoleStep.toStep, Server.step] at htask
    split at htask
    · exact h j token route htask
    · exact h j token route (tasks_advance htask)
  | wait ms => exact h j token route htask

/-- What a task does to the users, if it does anything. -/
theorem hasAdmin_advance {i : ℕ} {task : Task} (hadmin : s.users.HasAdmin) : (s.advance bcrypt i task).users.HasAdmin ↔
      match task with
      | .handle _ user route => ∀ guid ∈ route.removes user, s.users.HasAdminBut guid
      | _ => True := by
  cases task with
  | login username password =>
    refine iff_of_true ?_ trivial
    simp only [advance]
    split
    · exact hadmin
    · split <;> exact hadmin
  | compare row password =>
    refine iff_of_true ?_ trivial
    simp only [advance]
    split <;> exact hadmin
  | insertSession session =>
    refine iff_of_true ?_ trivial
    simp only [advance]
    split
    · exact hadmin
    next s' hinsert =>
      unfold insertSession at hinsert
      split at hinsert
      · cases hinsert
      · exact some.inj hinsert ▸ hadmin
  | loggedIn token => exact iff_of_true hadmin trivial
  | authenticate token route =>
    refine iff_of_true ?_ trivial
    simp only [advance]
    split <;> exact hadmin
  | handle token user route =>
    have hremoved : ∀ guid ∈ (none : Option ℕ), s.users.HasAdminBut guid := fun guid hguid => by cases hguid
    cases route with
    | logout | currentUser | other => exact iff_of_true hadmin hremoved
    | createUser name password salt isAdmin =>
      refine iff_of_true ?_ hremoved
      simp only [advance, handle]
      split
      · exact hadmin
      · split
        · exact hadmin
        next users hinsert => exact hadmin.insert hinsert
    | disableUser guid =>
      simp only [Route.removes, mem_some_iff, forall_eq']
      exact UserTable.hasAdmin_disable
    | enableUser guid => exact iff_of_true hadmin.enable hremoved
    | deleteUser guid canonical =>
      simp only [advance, handle, Route.removes]
      split
      · exact iff_of_true hadmin hremoved
      · simp only [mem_some_iff, forall_eq']
        exact UserTable.hasAdmin_delete
  | loggedOut token => exact iff_of_true hadmin trivial

theorem hasAdmin_step (hadmin : c.server.users.HasAdmin) (bcrypt : Bcrypt) (e : ConsoleStep) :
    (c.step bcrypt e).server.users.HasAdmin ↔ c.SparesAdmin e := by
  cases e with
  | login i username password =>
    refine iff_of_true ?_ trivial
    simp only [Console.step, ConsoleStep.toStep, Server.step]
    split <;> exact hadmin
  | request i bearer endpoint =>
    refine iff_of_true ?_ trivial
    simp only [Console.step, ConsoleStep.toStep, Server.step]
    split
    · exact hadmin
    · split <;> exact hadmin
  | advance i =>
    simp only [Console.step, ConsoleStep.toStep, Server.step, SparesAdmin]
    cases c.server.tasks i with
    | none => exact iff_of_true hadmin trivial
    | some task =>
      refine (hasAdmin_advance hadmin).trans ?_
      cases task <;> rfl
  | wait ms => exact iff_of_true hadmin trivial

/-- Whoever is let through is enabled, and an administrator where the route asks for one. -/
theorem of_preHandler {token : Token} {route : Route} {user : UserRow}
    (h : s.preHandler token route = some user) : user.status ≠ 0 ∧ (route.admin = true → user.isAdmin = true) := by
  have hauth : ∀ {user}, s.requireAuth token = some user → user.status ≠ 0 := by
    intro user hauth
    simp only [requireAuth] at hauth
    split at hauth
    · cases hauth
    next row hrow =>
      split at hauth
      · cases hauth
      next hstatus => exact some.inj hauth ▸ hstatus
  simp only [preHandler, requireAdmin] at h
  split at h
  · split at h
    · cases h
    next row hrow =>
      split at h
      next hadmin =>
        obtain rfl := some.inj h
        exact ⟨hauth hrow, fun _ => hadmin⟩
      next => cases h
  next hroute => exact ⟨hauth h, fun hadmin => absurd hadmin hroute⟩

theorem adminOnly_iff (hrecorded : c.Recorded) (e : ConsoleStep) : c.AdminOnly e ↔ c.ListedToAdmin e := by
  cases e with
  | advance i =>
    constructor
    · intro h hlist user huser
      exact (h .listUsers hlist rfl user huser).1
    · intro h endpoint hendpoint hmarked user huser
      unfold letThrough at huser
      split at huser
      next token route htask =>
        obtain ⟨known, hknown, hroute⟩ := hrecorded i token route htask
        obtain rfl : known = endpoint := some.inj (hknown.symm.trans hendpoint)
        obtain ⟨hstatus, hadmin⟩ := of_preHandler huser
        refine ⟨?_, hstatus⟩
        cases known with
        | listUsers =>
          refine h hknown user ?_
          unfold letThrough
          rw [htask]
          exact huser
        | unmarked route => exact nomatch hmarked
        | createUser | disableUser | enableUser | deleteUser | deployTokens =>
          subst hroute
          exact hadmin rfl
      next => exact nomatch huser
  | login | request | wait => exact Iff.rfl

end Steps

end Console

open Console

/-- Administration is never locked out and stays with administrators: in every run after `ensureAdmin`, an administrator
is enabled after every step and the marked endpoints let only enabled administrators through, exactly when no disable or
delete statement meets the last enabled administrator and only administrators ask for the list of users. -/
theorem administration_kept (bcrypt : Bcrypt) (users : UserTable) (adminUser passwordHash : String)
    (steps : List ConsoleStep) :
    (Console.start users adminUser passwordHash).server.users.HasAdmin ∧
      (RunMeets (Console.step bcrypt) (fun c e => (c.step bcrypt e).server.users.HasAdmin ∧ c.AdminOnly e)
          (Console.start users adminUser passwordHash) steps ↔
        RunMeets (Console.step bcrypt) (fun c e => c.SparesAdmin e ∧ c.ListedToAdmin e)
          (Console.start users adminUser passwordHash) steps) := by
  have hadmin := UserTable.hasAdmin_ensureAdmin users adminUser passwordHash
  have hrecorded : (Console.start users adminUser passwordHash).Recorded := nofun
  refine ⟨hadmin, runMeets_congr (I := fun c => c.Recorded ∧ c.server.users.HasAdmin) ?_ ?_ ⟨hrecorded, hadmin⟩⟩
  · exact fun c e h hmeets => ⟨h.1.step bcrypt e, hmeets.1⟩
  · exact fun c e h => and_congr (hasAdmin_step h.2 bcrypt e) (adminOnly_iff h.1 e)

/-- A user of the sample server who is no administrator. -/
def guestToken : Token := { sub := 1, name := "guest", isAdmin := false, iat := 0, exp := sevenDays }

/-- The administrator logs in. -/
def adminLogin : List ConsoleStep := [.login 0 "admin" "secret", .advance 0, .advance 0, .advance 0, .advance 0]

def selfDisable : List ConsoleStep :=
  adminLogin ++ [.request 1 (.token sampleToken) (.disableUser 0), .advance 1, .advance 1]

/-- The administrator creates a user, who logs in and asks for the list of users. -/
def guestLists : List ConsoleStep :=
  adminLogin ++ [.request 1 (.token sampleToken) (.createUser "guest" "secret" "" false), .advance 1, .advance 1,
    .login 0 "guest" "secret", .advance 0, .advance 0, .advance 0, .advance 0,
    .request 1 (.token guestToken) .listUsers]

/-- The only administrator can disable himself, and a user who is none gets the list of users. -/
theorem administration_lost :
    (¬ (runEvents (Console.step sampleBcrypt) (Console.start sampleUsers "admin" "secret") selfDisable).server.users.HasAdmin) ∧
      ¬ (runEvents (Console.step sampleBcrypt) (Console.start sampleUsers "admin" "secret") guestLists).AdminOnly
        (.advance 1) := by
  refine ⟨by decide, fun honly => ?_⟩
  have hguest := honly .listUsers rfl rfl { guid := 1, name := "guest", passwordHash := "secret", status := 1, isAdmin := false } rfl
  exact nomatch hguest.1

end UnyDesk.Api
