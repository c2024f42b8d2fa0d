import UnyDesk.Connection.State

/-!
# Login throttling

Failed attempts are counted by address and, for IPv6, by address block, once for passwords and
once for second factors. Operating-system credentials share one counter with exponential
backoff. An attempt is first checked, which may block it, and afterwards reported.
-/

namespace UnyDesk

inductive FailureScope
  | default
  | terminalOsLogin

def osCredentialLoginTotalIdleResetMs : Int := 120 * 60 * 1000

def osCredentialLoginBackoffSeconds (totalFailures : Int) : Int :=
  if totalFailures ≤ 2 then 0
  else min (15 * 2 ^ (min (totalFailures - 3) 7).toNat) (30 * 60)

section

variable (s : OsCredentialFailureState)

section

variable (nowMs : Int)

def OsCredentialFailureState.normalizeBackoff : OsCredentialFailureState :=
  match s.backoffUntilMs with
  | some untilMs => if untilMs ≤ nowMs then { s with backoffUntilMs := none } else s
  | none => s

def OsCredentialFailureState.resetTotalsOnIdle : OsCredentialFailureState :=
  match s.lastFailureMs with
  | some lastMs => if nowMs - lastMs ≥ osCredentialLoginTotalIdleResetMs then {} else s
  | none => s

/-- The state as every access first brings it up to date. -/
def OsCredentialFailureState.refresh : OsCredentialFailureState :=
  (s.resetTotalsOnIdle nowMs).normalizeBackoff nowMs

/-- The error shown while the backoff lasts. -/
def evaluateOsCredentialPolicy : Option String :=
  (s.refresh nowMs).backoffUntilMs.map fun untilMs =>
    let remainingMs := max (untilMs - nowMs) 0
    let remainingSeconds := max ((remainingMs + 999) / 1000) 1
    let label := if remainingSeconds = 1 then "second" else "seconds"
    "Please try again in " ++ toString remainingSeconds ++ " " ++ label ++ "."

def recordOsCredentialFailure :
    OsCredentialFailureState :=
  let s := s.refresh nowMs
  let total := min (s.totalFailures + 1) (2 ^ 31 - 1)
  let backoffSeconds := osCredentialLoginBackoffSeconds total
  { totalFailures := total
    lastFailureMs := some nowMs
    backoffUntilMs :=
      if backoffSeconds > 0 then some (nowMs + backoffSeconds * 1000) else s.backoffUntilMs }

end

end

/-- The failures of a key, none when it is not in the table. -/
def lookupFailure (table : List (String × FailureEntry)) (key : String) : FailureEntry :=
  (table.lookup key).getD {}

def removeFailure (table : List (String × FailureEntry)) (key : String) : List (String × FailureEntry) :=
  table.filter fun entry => entry.1 ≠ key

def bumpFailureEntry (cur : FailureEntry) (time : Int) : FailureEntry :=
  if cur.minute = time then { cur with inMinute := cur.inMinute + 1, total := cur.total + 1 }
  else { minute := time, inMinute := 1, total := cur.total + 1 }

def bumpFailure (time : Int) (table : List (String × FailureEntry)) (key : String) : List (String × FailureEntry) :=
  (key, bumpFailureEntry (lookupFailure table key) time) :: removeFailure table key

/-- `LOGIN_FAILURES[i]`. -/
def World.failures (w : World) (i : ℕ) : List (String × FailureEntry) :=
  if i = 0 then w.loginFailures else w.twoFactorFailures

def World.setFailures (w : World) (i : ℕ) (table : List (String × FailureEntry)) : World :=
  if i = 0 then { w with loginFailures := table } else { w with twoFactorFailures := table }

/-- What a check found: the entry of the address, the current minute and, when the attempt is
blocked, the error and the alarm. -/
structure FailureCheck where
  failure : FailureEntry
  time : Int
  blocked : Option (String × AlarmAuditType)

def checkFailureIpv6Prefix (w : World) (i : ℕ) (time : Int) (block : String) (bits : ℕ) (thresh : Int) :
    Option FailureCheck :=
  let failure := lookupFailure (w.failures i) block
  if failure.total > thresh then
    some ⟨failure, time, some ("Too many wrong attempts for IPv6 prefix /" ++ toString bits, .exceedIPv6PrefixAttempts)⟩
  else none

def checkFailureWithScope (env : Env) (w : World) (i : ℕ) (scope : FailureScope) : FailureCheck :=
  let time := w.now / 60000
  match scope with
  | .terminalOsLogin =>
    ⟨{}, time, (evaluateOsCredentialPolicy w.osCredentialFailures w.now).map (·, .terminalOsLoginBackoff)⟩
  | .default =>
    let byBlock := env.ipv6Prefixes.bind fun (p64, p56, p48) =>
      ((checkFailureIpv6Prefix w i time p64 64 60).or (checkFailureIpv6Prefix w i time p56 56 80)).or
          (checkFailureIpv6Prefix w i time p48 48 100)
    let failure := lookupFailure (w.failures i) env.ip
    let byAddress :=
      if failure.total > 30 then some ("Too many wrong attempts", .exceedThirtyAttempts)
      else if time = failure.minute && failure.inMinute > 6 then
        some ("Please try 1 minute later", .sixAttemptsWithinOneMinute)
      else none
    byBlock.getD ⟨failure, time, byAddress⟩

def checkFailure (env : Env) (w : World) (i : ℕ) : FailureCheck :=
  checkFailureWithScope env w i .default

def updateFailureWithScope (env : Env) (check : FailureCheck) (remove : Bool) (i : ℕ)
    (scope : FailureScope) (w : World) : World :=
  match scope with
  | .terminalOsLogin =>
    if remove then w
    else { w with osCredentialFailures := recordOsCredentialFailure w.osCredentialFailures w.now }
  | .default =>
    let keys := match env.ipv6Prefixes with
      | some (p64, p56, p48) => [p64, p56, p48, env.ip]
      | none => [env.ip]
    if remove then
      if check.failure.minute ≠ 0 then w.setFailures i (keys.foldl removeFailure (w.failures i)) else w
    else w.setFailures i (keys.foldl (bumpFailure check.time) (w.failures i))

def updateFailure (env : Env) (check : FailureCheck) (remove : Bool) (i : ℕ) (w : World) : World :=
  updateFailureWithScope env check remove i .default w

namespace Host

def enableTrustedDevices (h : Host) : Bool :=
  getBoolOption h.world.option keys.optionEnableTrustedDevices

def require2faMsg : String := "2FA Required"

def sendLoginError (h : Host) (err : String) : Host :=
  h.emit (.loginError err (err = require2faMsg && h.enableTrustedDevices))

/-- The effects of a check: the backoff is brought up to date and a block is reported. -/
def noteFailureCheck (h : Host) (scope : FailureScope) (check : FailureCheck) : Host :=
  let h := match scope with
    | .terminalOsLogin =>
      h.updateWorld fun w => { w with osCredentialFailures := w.osCredentialFailures.refresh w.now }
    | .default => h
  match check.blocked with
  | some (err, alarm) => (h.sendLoginError err).emit (.alarm alarm)
  | none => h

end Host

end UnyDesk
