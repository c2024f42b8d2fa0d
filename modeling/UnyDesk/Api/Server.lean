import UnyDesk.Lib.Machine
import UnyDesk.Lib.Utf16

/-!
# The management API

The server keeps users and sessions in a database and gives its clients signed tokens. A request is a task that other
tasks interleave with at every query and at every password check; a query is one step. Signatures are ideal: a token
is what it carries, and only what the server has signed verifies. A client can present what was returned to some
client, or a text that nobody has signed.
-/

namespace UnyDesk

namespace Api

/-- The columns of `users` that the routes of this model read; a status of `0` is disabled. -/
structure UserRow where
  guid : ℕ
  name : String
  passwordHash : String
  status : Int
  isAdmin : Bool
deriving DecidableEq

/-- The table of users: a new row gets a guid that no row had before. -/
structure UserTable where
  rows : List UserRow
  nextGuid : ℕ
  fresh : ∀ row ∈ rows, row.guid < nextGuid

namespace UserTable

section

variable (users : UserTable)

def byName (name : String) : Option UserRow := users.rows.find? (·.name = name)

def byGuid (guid : ℕ) : Option UserRow := users.rows.find? (·.guid = guid)

def setStatus (guid : ℕ) (status : Int) : UserTable :=
  { users with
    rows := users.rows.map fun row => if row.guid = guid then { row with status } else row
    fresh := by
      intro row hrow
      obtain ⟨old, hold, rfl⟩ := List.mem_map.mp hrow
      split <;> exact users.fresh old hold }

def delete (guid : ℕ) : UserTable :=
  { users with
    rows := users.rows.filter (·.guid ≠ guid)
    fresh := fun row hrow => users.fresh row (List.mem_of_mem_filter hrow) }

/-- A name that a row has already is refused. -/
def insert (name passwordHash : String) (isAdmin : Bool) : Option UserTable :=
  if users.rows.any (·.name = name) then none
  else some {
    rows := users.rows ++ [{ guid := users.nextGuid, name, passwordHash, status := 1, isAdmin }]
    nextGuid := users.nextGuid + 1
    fresh := by
      intro row hrow
      rcases List.mem_append.mp hrow with hold | hnew
      · exact Nat.lt_succ_of_lt (users.fresh row hold)
      · rw [List.mem_singleton.mp hnew]
        exact Nat.lt_succ_self _ }

end

end UserTable

/-- What a token carries; two tokens that carry the same are the same text. -/
structure Token where
  sub : ℕ
  name : String
  isAdmin : Bool
  /-- In seconds, as `exp`. -/
  iat : ℕ
  exp : ℕ
deriving DecidableEq

structure Session where
  token : Token
  userGuid : ℕ
  /-- In milliseconds. -/
  expiresAt : ℕ
deriving DecidableEq

/-- What the header of a request presents. -/
inductive Bearer
  | forged (text : String)
  | token (t : Token)
deriving DecidableEq

/-- The routes behind `requireAuth` and `requireAdmin`; the others neither read nor write what this model keeps. -/
inductive Route
  | logout
  | currentUser
  | createUser (name password salt : String) (isAdmin : Bool)
  | disableUser (guid : ℕ)
  | enableUser (guid : ℕ)
  /-- `canonical`: the path has the text that the database gives the guid. -/
  | deleteUser (guid : ℕ) (canonical : Bool)
  | other (admin : Bool)
deriving DecidableEq

def Route.admin : Route → Bool
  | .logout | .currentUser => false
  | .createUser .. | .disableUser _ | .enableUser _ | .deleteUser .. => true
  | .other admin => admin

/-- Where a request that is being served waits. -/
inductive Task
  /-- For the row of the name. -/
  | login (username password : String)
  /-- For the comparison with the hash of the row. -/
  | compare (row : UserRow) (password : String)
  | insertSession (session : Session)
  /-- To be answered with the token. -/
  | loggedIn (token : Token)
  /-- With a token that has been verified, for the row of its user. -/
  | authenticate (token : Token) (route : Route)
  /-- Let through, for the query of its route. -/
  | handle (token : Token) (user : UserRow) (route : Route)
  | loggedOut (token : Token)
deriving DecidableEq

/-- `bcrypt`, which the server calls. -/
structure Bcrypt where
  hash : String → String → String
  compare : String → String → Bool

structure Server where
  users : UserTable
  sessions : List Session := []
  nowMs : ℕ := 0
  tasks : ℕ → Option Task := fun _ => none
  /-- The tokens that verify. -/
  signed : List Token := []
  /-- The tokens that a login was answered with. -/
  returned : List Token := []
  /-- The tokens whose session a logout has deleted. -/
  deleted : List Token := []
  /-- The tokens of the logouts that were answered. -/
  loggedOut : List Token := []

inductive Step
  | login (i : ℕ) (username password : String)
  | request (i : ℕ) (bearer : Bearer) (route : Route)
  | advance (i : ℕ)
  | wait (ms : ℕ)
deriving DecidableEq

def sevenDays : ℕ := 7 * 24 * 3600

namespace Server

variable (bcrypt : Bcrypt) (s : Server)

def now : ℕ := s.nowMs / 1000

/-- `jwt.verify`. -/
def verify : Bearer → Option Token
  | .forged _ => none
  | .token t => if t ∈ s.signed && decide (s.now < t.exp) then some t else none

/-- What a client can present. -/
def Known : Bearer → Prop
  | .forged _ => True
  | .token t => t ∈ s.returned

instance (bearer : Bearer) : Decidable (s.Known bearer) := by
  cases bearer <;> unfold Known <;> infer_instance

def park (i : ℕ) (task : Task) : Server := { s with tasks := Function.update s.tasks i (some task) }

def finish (i : ℕ) : Server := { s with tasks := Function.update s.tasks i none }

/-- The claims of a token that is signed now. -/
def sign (row : UserRow) : Token :=
  { sub := row.guid, name := row.name, isAdmin := row.isAdmin, iat := s.now, exp := s.now + sevenDays }

/-- The row for a verified token, if its user may go on. -/
def requireAuth (token : Token) : Option UserRow :=
  match s.users.byGuid token.sub with
  | none => none
  | some row => if row.status = 0 then none else some row

def requireAdmin (token : Token) : Option UserRow :=
  match s.requireAuth token with
  | none => none
  | some row => if row.isAdmin then some row else none

def preHandler (token : Token) (route : Route) : Option UserRow :=
  if route.admin then s.requireAdmin token else s.requireAuth token

/-- The token is the primary key, and the user is a foreign one. -/
def insertSession (session : Session) : Option Server :=
  if s.sessions.any (·.token = session.token) || s.users.rows.all (·.guid ≠ session.userGuid) then none
  else some { s with sessions := session :: s.sessions }

/-- The sessions of a user go with its row. -/
def deleteUser (guid : ℕ) : Server :=
  { s with users := s.users.delete guid, sessions := s.sessions.filter (·.userGuid ≠ guid) }

def handle (i : ℕ) (token : Token) (user : UserRow) : Route → Server
  | .logout =>
    Server.park
      { s with sessions := s.sessions.filter (·.token ≠ token), deleted := token :: s.deleted } i (.loggedOut token)
  | .currentUser => s.finish i
  | .createUser name password salt isAdmin =>
    if name.isEmpty || decide ((password.toList.flatMap Lib.Utf16.charUnits).length < 6) then s.finish i
    else
      match s.users.insert name (bcrypt.hash salt password) isAdmin with
      | none => s.finish i
      | some users => Server.finish { s with users } i
  | .disableUser guid => Server.finish { s with users := s.users.setStatus guid 0 } i
  | .enableUser guid => Server.finish { s with users := s.users.setStatus guid 1 } i
  | .deleteUser guid canonical =>
    if guid = user.guid ∧ canonical = true then s.finish i else (s.deleteUser guid).finish i
  | .other _ => s.finish i

/-- A task goes on to where it waits next. -/
def advance (i : ℕ) : Task → Server
  | .login username password =>
    match s.users.byName username with
    | none => s.finish i
    | some row => if row.status = 0 then s.finish i else s.park i (.compare row password)
  | .compare row password =>
    if bcrypt.compare password row.passwordHash then
      let token := s.sign row
      let session : Session := { token, userGuid := row.guid, expiresAt := s.nowMs + sevenDays * 1000 }
      Server.park { s with signed := token :: s.signed } i (.insertSession session)
    else s.finish i
  | .insertSession session =>
    match s.insertSession session with
    | none => s.finish i
    | some s' => s'.park i (.loggedIn session.token)
  | .loggedIn token => Server.finish { s with returned := token :: s.returned } i
  | .authenticate token route =>
    match s.preHandler token route with
    | none => s.finish i
    | some user => s.park i (.handle token user route)
  | .handle token user route => s.handle bcrypt i token user route
  | .loggedOut token => Server.finish { s with loggedOut := token :: s.loggedOut } i

def step : Step → Server
  | .login i username password =>
    if (s.tasks i).isSome || username.isEmpty || password.isEmpty then s else s.park i (.login username password)
  | .request i bearer route =>
    if (s.tasks i).isSome || !decide (s.Known bearer) then s
    else
      match s.verify bearer with
      | none => s
      | some token => s.park i (.authenticate token route)
  | .advance i =>
    match s.tasks i with
    | none => s
    | some task => s.advance bcrypt i task
  | .wait ms => { s with nowMs := s.nowMs + ms }

/-- The step lets a request with the token through. -/
def LetsThrough (token : Token) : Step → Prop
  | .advance i => ∃ route user, s.tasks i = some (.authenticate token route) ∧ s.preHandler token route = some user
  | _ => False

end Server

end Api

end UnyDesk
