import UnyDesk.Connection.Credentials

/-!
# Rotation of the temporary password

One temporary password is shared by all connections. Wrong passwords are counted against its
value, whichever address they come from, and the tenth in a row replaces it. The count is kept
beside the value it is about: the user may replace the password without touching it, and the
next check that finds another value starts again. Nothing is counted while temporary passwords
are disabled, and a permanent password leaves the count alone.

The run records what was checked against which value, so that the count can be compared with
what happened.
-/

namespace UnyDesk

open Lib World List

def temporaryPasswordLength (options : Options) : ℕ :=
  if options "temporary-password-length" = "8" then 8
  else if options "temporary-password-length" = "10" then 10
  else 6

/-- `NUM_CHARS`. -/
def autoPasswordDigits : List Char := "0123456789".toList

/-- `CHARS`. -/
def autoPasswordChars : List Char := "23456789abcdefghijkmnpqrstuvwxyz".toList

def getAutoPasswordWithChars (draw : ℕ → ℕ) (length : ℕ) (chars : List Char) : String :=
  String.ofList ((List.range length).map fun i => chars.getD (draw i % chars.length) '0')

/-- `get_auto_password`, from the numbers that the generator draws. -/
def getAutoPassword (options : Options) (draw : ℕ → ℕ) : String :=
  let len := temporaryPasswordLength options
  if getBoolOption options "allow-numeric-one-time-password" then
    getAutoPasswordWithChars draw len autoPasswordDigits
  else getAutoPasswordWithChars draw len autoPasswordChars

/-- A generated password is never empty. -/
theorem getAutoPassword_ne_empty (options : Options) (draw : ℕ → ℕ) : getAutoPassword options draw ≠ "" := by
  have hchars : ∀ chars, getAutoPasswordWithChars draw (temporaryPasswordLength options) chars ≠ "" := by
    intro chars hempty
    have hlength := congrArg String.length hempty
    simp only [getAutoPasswordWithChars, String.length_ofList, length_map, length_range,
      String.length_empty, temporaryPasswordLength] at hlength
    split_ifs at hlength
  unfold getAutoPassword
  dsimp only
  split_ifs
  · exact hchars _
  · exact hchars _

/-- The failures that the next check goes on from. -/
def World.countedFailures (w : World) : Int :=
  if w.temporaryPasswordFailures.password = w.temporaryPassword then w.temporaryPasswordFailures.failures else 0

/-- A failure now would replace the temporary password. -/
def World.rotatesTemporaryPassword (w : World) : Bool :=
  temporaryEnabled w.option && w.temporaryPassword ≠ "" && w.countedFailures + 1 ≥ 10

section Check

variable {w : World}

theorem checkUpdateTemporaryPassword_disabled (hdisabled : temporaryEnabled w.option = false) (success : Bool) :
    checkUpdateTemporaryPassword success w = w := by
  simp [checkUpdateTemporaryPassword, hdisabled]

theorem checkUpdateTemporaryPassword_true (henabled : temporaryEnabled w.option = true)
    (hne : w.temporaryPassword ≠ "") :
    checkUpdateTemporaryPassword true w =
      { w with temporaryPasswordFailures := { password := w.temporaryPassword, failures := 0 } } := by
  by_cases hsame : w.temporaryPasswordFailures.password = w.temporaryPassword
  · simp [checkUpdateTemporaryPassword, henabled, hne, hsame]
  · simp [checkUpdateTemporaryPassword, henabled, hne, hsame]

theorem checkUpdateTemporaryPassword_false (henabled : temporaryEnabled w.option = true)
    (hne : w.temporaryPassword ≠ "") :
    checkUpdateTemporaryPassword false w = if w.rotatesTemporaryPassword then
        { w with
          temporaryPassword := w.nextTemporaryPassword
          temporaryPasswordFailures := { password := w.nextTemporaryPassword, failures := 0 } }
      else
        { w with temporaryPasswordFailures :=
            { password := w.temporaryPassword, failures := w.countedFailures + 1 } } := by
  by_cases hsame : w.temporaryPasswordFailures.password = w.temporaryPassword
  · by_cases hfew : w.temporaryPasswordFailures.failures + 1 < 10
    · simp [checkUpdateTemporaryPassword, rotatesTemporaryPassword, countedFailures, henabled, hne,
        hsame, hfew, Int.not_le.mpr hfew]
    · simp [checkUpdateTemporaryPassword, rotatesTemporaryPassword, countedFailures, henabled, hne,
        hsame, hfew, Int.not_lt.mp hfew]
  · simp [checkUpdateTemporaryPassword, rotatesTemporaryPassword, countedFailures, henabled, hne, hsame]

end Check

/-- What happened to a value of the temporary password. -/
inductive PasswordMark
  /-- The value was put in place from outside the check. -/
  | created (value : String)
  /-- The check replaced the old value. -/
  | rotated (old new : String)
  | presented (value : String)
  /-- The value was compared and the whole validation failed. -/
  | failed (value : String)
deriving DecidableEq

namespace PasswordMark

variable {mark : PasswordMark} {value : String}

/-- The value was put in place or presented correctly. -/
def renews (value : String) : PasswordMark → Bool
  | created v => v = value
  | rotated _ v => v = value
  | presented v => v = value
  | failed _ => false

def isCheck : PasswordMark → Bool
  | presented _ | failed _ => true
  | created _ | rotated _ _ => false

/-- The value that was put in place last. -/
def placed : List PasswordMark → Option String
  | created v :: _ | rotated _ v :: _ => some v
  | presented _ :: earlier | failed _ :: earlier => placed earlier
  | [] => none

/-- Failed attempts against a value since it was put in place or presented. -/
def failuresSince (value : String) (log : List PasswordMark) : ℕ :=
  (sinceLast (renews value) log).count (failed value)

/-- A replaced value had failed in each of the ten latest checks. -/
def Supported : PasswordMark → List PasswordMark → Prop
  | rotated old _, earlier => (earlier.filter isCheck).take 10 = List.replicate 10 (failed old)
  | _, _ => True

theorem failuresSince_cons_of_renews (h : mark.renews value = true)
    (log : List PasswordMark) : failuresSince value (mark :: log) = 0 := by
  rw [failuresSince, sinceLast_cons_of_true h, count_nil]

theorem failuresSince_cons_failed (value : String) (log : List PasswordMark) :
    failuresSince value (failed value :: log) = failuresSince value log + 1 := by
  rw [failuresSince, sinceLast_cons_of_false rfl, count_cons_self, failuresSince]

/-- A mark of another kind or about another value is not counted. -/
theorem failuresSince_cons_le (h : mark ≠ failed value)
    (log : List PasswordMark) : failuresSince value (mark :: log) ≤ failuresSince value log := by
  cases hrenews : mark.renews value with
  | true =>
    rw [failuresSince_cons_of_renews hrenews]
    exact Nat.zero_le _
  | false => rw [failuresSince, sinceLast_cons_of_false hrenews, count_cons_of_ne h, failuresSince]

end PasswordMark

/-- The shared state with the record of its checks, newest first. -/
structure PasswordRun where
  world : World
  log : List PasswordMark

/-- What reaches the temporary password. -/
inductive PasswordEvent
  /-- A login of some connection reaches the validation. -/
  | attempt (env : Env) (conn : Connection) (allowPermanentPassword : Bool) (draw : ℕ → ℕ)
  /-- `update_temporary_password` by the user or at the end of a session. -/
  | updateTemporaryPassword (draw : ℕ → ℕ)
  | setVerificationMethod (method : String)
  /-- Anything else, other options and the permanent password among it. -/
  | elsewhere (world : World)

/-- The host of a login attempt, as the validation sees it. -/
def attemptHost (conn : Connection) (w : World) : Host := { conn, world := w, subs := fun _ => false }

/-- The validation of a login with the report of its outcome. -/
def attemptPassword (env : Env) (conn : Connection) (allowPermanentPassword : Bool) (w : World) : World :=
  let validated := (attemptHost conn w).validatePassword env allowPermanentPassword
  if validated.2 then validated.1.world else checkUpdateTemporaryPassword false validated.1.world

/-- What an attempt means for the value in place. -/
def attemptMarks (env : Env) (conn : Connection) (allowPermanentPassword : Bool) (w : World) : List PasswordMark :=
  if temporaryEnabled w.option then
    match provenPassword env (attemptHost conn w) allowPermanentPassword with
    | some .temporaryPassword => [.presented w.temporaryPassword]
    | some _ => []
    | none =>
      if w.rotatesTemporaryPassword then
        [.rotated w.temporaryPassword w.nextTemporaryPassword, .failed w.temporaryPassword]
      else [.failed w.temporaryPassword]
  else []

namespace PasswordRun

def start (w : World) (draw : ℕ → ℕ) : PasswordRun :=
  let password := getAutoPassword w.option draw
  { world := { w with temporaryPassword := password, temporaryPasswordFailures := {} }
    log := [.created password] }

def step (r : PasswordRun) : PasswordEvent → PasswordRun
  | .attempt env conn allow draw =>
    let w := { r.world with nextTemporaryPassword := getAutoPassword r.world.option draw }
    { world := attemptPassword env conn allow w, log := attemptMarks env conn allow w ++ r.log }
  | .updateTemporaryPassword draw =>
    let password := getAutoPassword r.world.option draw
    { world := { r.world with temporaryPassword := password }, log := .created password :: r.log }
  | .setVerificationMethod method =>
    { r with world := { r.world with option := fun name =>
        if name = "verification-method" then method else r.world.option name } }
  | .elsewhere world =>
    { r with world := { world with
        temporaryPassword := r.world.temporaryPassword
        temporaryPasswordFailures := r.world.temporaryPasswordFailures } }

/-- The count is the length of the latest streak of failed checks against the value it is kept for, and it covers the
failures of the value in place. -/
structure Counts (r : PasswordRun) (n : ℕ) : Prop where
  temporaryPassword_ne : r.world.temporaryPassword ≠ ""
  failures_eq : r.world.temporaryPasswordFailures.failures = n
  failures_le : n ≤ 9
  placed_eq : PasswordMark.placed r.log = some r.world.temporaryPassword
  streak : (r.log.filter PasswordMark.isCheck).take n =
    List.replicate n (.failed r.world.temporaryPasswordFailures.password)
  covered : (PasswordMark.failuresSince r.world.temporaryPassword r.log : Int) ≤ r.world.countedFailures
  failuresSince_le : ∀ value, PasswordMark.failuresSince value r.log ≤ 10
  supported : Justified PasswordMark.Supported r.log

end PasswordRun

section Attempt

variable (env : Env) (conn : Connection) (allow : Bool) {w : World}

theorem attemptPassword_of_none (h : provenPassword env (attemptHost conn w) allow = none) :
    attemptPassword env conn allow w = checkUpdateTemporaryPassword false w := by
  simp only [attemptPassword, Host.validatePassword, h]
  rfl

theorem attemptPassword_of_temporary (h : provenPassword env (attemptHost conn w) allow = some .temporaryPassword) :
    ∃ sessions, attemptPassword env conn allow w =
      checkUpdateTemporaryPassword true { w with sessions := sessions } := by
  simp only [attemptPassword, Host.validatePassword, h]
  exact ⟨_, rfl⟩

theorem attemptPassword_of_other {method : ConnAuditPrimaryAuth}
    (h : provenPassword env (attemptHost conn w) allow = some method) (hmethod : method ≠ .temporaryPassword) :
    attemptPassword env conn allow w = w := by
  cases method with
  | temporaryPassword => exact absurd rfl hmethod
  | _ =>
    simp only [attemptPassword, Host.validatePassword, h]
    rfl

/-- A disabled temporary password proves nothing. -/
theorem provenPassword_ne_temporary (hdisabled : temporaryEnabled w.option = false) :
    provenPassword env (attemptHost conn w) allow ≠ some .temporaryPassword := by
  simp only [provenPassword, attemptHost, hdisabled, Bool.false_and, Bool.false_eq_true, ↓reduceIte]
  split_ifs
  · simp
  · simp

/-- While the temporary password is disabled an attempt leaves it alone. -/
theorem attemptPassword_disabled (hdisabled : temporaryEnabled w.option = false) :
    attemptPassword env conn allow w = w ∧ attemptMarks env conn allow w = [] := by
  refine ⟨?_, by simp [attemptMarks, hdisabled]⟩
  cases hproven : provenPassword env (attemptHost conn w) allow with
  | none =>
    rw [attemptPassword_of_none env conn allow hproven]
    exact checkUpdateTemporaryPassword_disabled hdisabled false
  | some method =>
    refine attemptPassword_of_other env conn allow hproven fun hmethod => ?_
    exact provenPassword_ne_temporary env conn allow hdisabled (hmethod ▸ hproven)

/-- A wrong password is counted, or replaces the value. -/
theorem attemptPassword_wrong (henabled : temporaryEnabled w.option = true) (hne : w.temporaryPassword ≠ "")
    (hproven : provenPassword env (attemptHost conn w) allow = none) :
    (attemptMarks env conn allow w = [.failed w.temporaryPassword] ∧ w.countedFailures + 1 < 10 ∧
        attemptPassword env conn allow w = { w with temporaryPasswordFailures :=
          { password := w.temporaryPassword, failures := w.countedFailures + 1 } }) ∨
      (attemptMarks env conn allow w =
          [.rotated w.temporaryPassword w.nextTemporaryPassword, .failed w.temporaryPassword] ∧
        w.countedFailures + 1 ≥ 10 ∧
        attemptPassword env conn allow w = { w with
          temporaryPassword := w.nextTemporaryPassword
          temporaryPasswordFailures := { password := w.nextTemporaryPassword, failures := 0 } }) := by
  have hrotates : w.rotatesTemporaryPassword = true ↔ w.countedFailures + 1 ≥ 10 := by
    simp [rotatesTemporaryPassword, henabled, hne]
  rw [attemptPassword_of_none env conn allow hproven, checkUpdateTemporaryPassword_false henabled hne]
  by_cases hten : w.countedFailures + 1 ≥ 10
  · refine .inr ⟨?_, hten, if_pos (hrotates.mpr hten)⟩
    simp [attemptMarks, henabled, hproven, hrotates.mpr hten]
  · have hnot : ¬w.rotatesTemporaryPassword = true := mt hrotates.mp hten
    refine .inl ⟨?_, Int.not_le.mp hten, if_neg hnot⟩
    simp [attemptMarks, henabled, hproven, hnot]

/-- What one attempt does to the value in place, to its count and to the record. -/
theorem attemptPassword_cases (hne : w.temporaryPassword ≠ "") :
    let w' := attemptPassword env conn allow w
    let marks := attemptMarks env conn allow w
    (marks = [] ∧ w'.temporaryPassword = w.temporaryPassword ∧
        w'.temporaryPasswordFailures = w.temporaryPasswordFailures) ∨
      (marks = [.presented w.temporaryPassword] ∧ w'.temporaryPassword = w.temporaryPassword ∧
        w'.temporaryPasswordFailures = { password := w.temporaryPassword, failures := 0 }) ∨
      (marks = [.failed w.temporaryPassword] ∧ w.countedFailures + 1 < 10 ∧ w'.temporaryPassword = w.temporaryPassword ∧
        w'.temporaryPasswordFailures = { password := w.temporaryPassword, failures := w.countedFailures + 1 }) ∨
      (marks = [.rotated w.temporaryPassword w.nextTemporaryPassword, .failed w.temporaryPassword] ∧
        w.countedFailures + 1 ≥ 10 ∧ w'.temporaryPassword = w.nextTemporaryPassword ∧
        w'.temporaryPasswordFailures = { password := w.nextTemporaryPassword, failures := 0 }) := by
  intro w' marks
  cases henabled : temporaryEnabled w.option with
  | false =>
    obtain ⟨hw', hmarks⟩ := attemptPassword_disabled env conn allow henabled
    exact .inl ⟨hmarks, congrArg _ hw', congrArg _ hw'⟩
  | true =>
    cases hproven : provenPassword env (attemptHost conn w) allow with
    | none =>
      obtain ⟨hmarks, hfew, hw'⟩ | ⟨hmarks, hten, hw'⟩ := attemptPassword_wrong env conn allow henabled hne hproven
      · exact .inr (.inr (.inl ⟨hmarks, hfew, (congrArg temporaryPassword hw' :),
          (congrArg temporaryPasswordFailures hw' :)⟩))
      · exact .inr (.inr (.inr ⟨hmarks, hten, (congrArg temporaryPassword hw' :),
          (congrArg temporaryPasswordFailures hw' :)⟩))
    | some method =>
      by_cases hmethod : method = .temporaryPassword
      · subst hmethod
        obtain ⟨sessions, hw'⟩ := attemptPassword_of_temporary env conn allow hproven
        have hcheck := hw'.trans (checkUpdateTemporaryPassword_true (w := { w with sessions := sessions }) henabled hne)
        exact .inr (.inl ⟨by simp [marks, attemptMarks, henabled, hproven],
          (congrArg temporaryPassword hcheck :), (congrArg temporaryPasswordFailures hcheck :)⟩)
      · have hw' := attemptPassword_of_other env conn allow hproven hmethod
        refine .inl ⟨?_, congrArg _ hw', congrArg _ hw'⟩
        cases method with
        | temporaryPassword => exact absurd rfl hmethod
        | _ => simp [marks, attemptMarks, henabled, hproven]

end Attempt

namespace PasswordRun

section Counts

variable {r : PasswordRun} {n : ℕ} (h : r.Counts n) {world : World}
include h

namespace Counts

theorem of_world_eq (hpassword : world.temporaryPassword = r.world.temporaryPassword)
    (hfailures : world.temporaryPasswordFailures = r.world.temporaryPasswordFailures) :
    Counts { r with world } n where
  temporaryPassword_ne := hpassword ▸ h.temporaryPassword_ne
  failures_eq := hfailures ▸ h.failures_eq
  failures_le := h.failures_le
  placed_eq := hpassword ▸ h.placed_eq
  streak := hfailures ▸ h.streak
  covered := by
    rw [hpassword, countedFailures, hpassword, hfailures]
    exact h.covered
  failuresSince_le := h.failuresSince_le
  supported := h.supported

/-- A value put in place from outside starts without failures. -/
theorem created {password : String} (hne : password ≠ "") :
    Counts { world := { r.world with temporaryPassword := password }, log := .created password :: r.log } n where
  temporaryPassword_ne := hne
  failures_eq := h.failures_eq
  failures_le := h.failures_le
  placed_eq := rfl
  streak := h.streak
  covered := by
    rw [PasswordMark.failuresSince_cons_of_renews (by simp [PasswordMark.renews])]
    have hcount := h.failures_eq
    simp only [countedFailures]
    split_ifs
    · omega
    · omega
  failuresSince_le value := (PasswordMark.failuresSince_cons_le (by simp) _).trans (h.failuresSince_le value)
  supported := ⟨trivial, h.supported⟩

/-- What a check goes on from is a streak against the value in place. -/
theorem counted : ∃ m : ℕ, m ≤ 9 ∧ r.world.countedFailures = m ∧
      (r.log.filter PasswordMark.isCheck).take m = List.replicate m (.failed r.world.temporaryPassword) := by
  by_cases hsame : r.world.temporaryPasswordFailures.password = r.world.temporaryPassword
  · refine ⟨n, h.failures_le, ?_, hsame ▸ h.streak⟩
    rw [countedFailures, if_pos hsame, h.failures_eq]
  · exact ⟨0, Nat.zero_le 9, by rw [countedFailures, if_neg hsame]; rfl, rfl⟩

/-- A check that succeeds starts the count again. -/
theorem presented (hpassword : world.temporaryPassword = r.world.temporaryPassword)
    (hfailures : world.temporaryPasswordFailures = { password := r.world.temporaryPassword, failures := 0 }) :
    Counts { world, log := .presented r.world.temporaryPassword :: r.log } 0 where
  temporaryPassword_ne := hpassword ▸ h.temporaryPassword_ne
  failures_eq := by rw [hfailures]; rfl
  failures_le := Nat.zero_le 9
  placed_eq := hpassword ▸ h.placed_eq
  streak := rfl
  covered := by
    rw [hpassword, PasswordMark.failuresSince_cons_of_renews (by simp [PasswordMark.renews])]
    simp [countedFailures, hpassword, hfailures]
  failuresSince_le value := (PasswordMark.failuresSince_cons_le (by simp) _).trans (h.failuresSince_le value)
  supported := ⟨trivial, h.supported⟩

/-- The record of one more failed check, before the value is replaced or not. -/
theorem failuresSince_failed_le (value : String) :
    PasswordMark.failuresSince value (.failed r.world.temporaryPassword :: r.log) ≤ 10 := by
  by_cases hvalue : value = r.world.temporaryPassword
  · subst hvalue
    obtain ⟨m, hm, hcounted, -⟩ := h.counted
    have hcovered := h.covered
    rw [PasswordMark.failuresSince_cons_failed]
    omega
  · have hother : PasswordMark.failed r.world.temporaryPassword ≠ .failed value := by simpa using Ne.symm hvalue
    exact (PasswordMark.failuresSince_cons_le hother _).trans (h.failuresSince_le value)

/-- A failed check that leaves the value in place. -/
theorem failed (hfew : r.world.countedFailures + 1 < 10)
    (hpassword : world.temporaryPassword = r.world.temporaryPassword) (hfailures : world.temporaryPasswordFailures =
      { password := r.world.temporaryPassword, failures := r.world.countedFailures + 1 }) :
    ∃ m, Counts { world, log := .failed r.world.temporaryPassword :: r.log } m := by
  obtain ⟨m, -, hcounted, hstreak⟩ := h.counted
  have hcovered := h.covered
  refine ⟨m + 1, ?_⟩
  constructor
  case temporaryPassword_ne => exact hpassword ▸ h.temporaryPassword_ne
  case failures_eq =>
    rw [hfailures, hcounted]
    rfl
  case failures_le => omega
  case placed_eq => exact hpassword ▸ h.placed_eq
  case streak =>
    rw [hfailures, filter_cons_of_pos rfl, take_succ_cons, hstreak]
    rfl
  case covered =>
    rw [hpassword, PasswordMark.failuresSince_cons_failed, countedFailures, hfailures, hpassword, if_pos rfl]
    push_cast
    omega
  case failuresSince_le => exact h.failuresSince_failed_le
  case supported => exact ⟨trivial, h.supported⟩

/-- The tenth failed check in a row replaces the value. -/
theorem rotated (hten : r.world.countedFailures + 1 ≥ 10)
    {next : String} (hne : next ≠ "") (hpassword : world.temporaryPassword = next)
    (hfailures : world.temporaryPasswordFailures = { password := next, failures := 0 }) :
    Counts
      { world, log := .rotated r.world.temporaryPassword next :: .failed r.world.temporaryPassword :: r.log } 0 where
  temporaryPassword_ne := hpassword ▸ hne
  failures_eq := by rw [hfailures]; rfl
  failures_le := Nat.zero_le 9
  placed_eq := congrArg some hpassword.symm
  streak := rfl
  covered := by
    rw [hpassword, PasswordMark.failuresSince_cons_of_renews (by simp [PasswordMark.renews])]
    simp [countedFailures, hpassword, hfailures]
  failuresSince_le value :=
    (PasswordMark.failuresSince_cons_le (by simp) _).trans (h.failuresSince_failed_le value)
  supported := by
    obtain ⟨m, hm, hcounted, hstreak⟩ := h.counted
    obtain rfl : m = 9 := by omega
    refine ⟨?_, trivial, h.supported⟩
    rw [PasswordMark.Supported, filter_cons_of_pos rfl, take_succ_cons, hstreak]
    rfl

/-- The step lemma of the count. -/
theorem step (event : PasswordEvent) : ∃ m, (r.step event).Counts m := by
  cases event with
  | attempt env conn allow draw =>
    have hnext := getAutoPassword_ne_empty r.world.option draw
    have hdrawn : Counts
        { r with world := { r.world with nextTemporaryPassword := getAutoPassword r.world.option draw } } n :=
      h.of_world_eq rfl rfl
    obtain ⟨hmarks, hpassword, hfailures⟩ | ⟨hmarks, hpassword, hfailures⟩ | ⟨hmarks, hfew, hpassword, hfailures⟩ |
        ⟨hmarks, hten, hpassword, hfailures⟩ := attemptPassword_cases env conn allow hdrawn.temporaryPassword_ne
    · refine ⟨n, ?_⟩
      simp only [PasswordRun.step, hmarks, nil_append]
      exact h.of_world_eq hpassword hfailures
    · refine ⟨0, ?_⟩
      simp only [PasswordRun.step, hmarks]
      exact hdrawn.presented hpassword hfailures
    · simp only [PasswordRun.step, hmarks]
      exact hdrawn.failed hfew hpassword hfailures
    · refine ⟨0, ?_⟩
      simp only [PasswordRun.step, hmarks]
      exact hdrawn.rotated hten hnext hpassword hfailures
  | updateTemporaryPassword draw => exact ⟨n, h.created (getAutoPassword_ne_empty r.world.option draw)⟩
  | setVerificationMethod method => exact ⟨n, h.of_world_eq rfl rfl⟩
  | elsewhere world => exact ⟨n, h.of_world_eq rfl rfl⟩

end Counts

end Counts

theorem counts_start (w : World) (draw : ℕ → ℕ) : (PasswordRun.start w draw).Counts 0 where
  temporaryPassword_ne := getAutoPassword_ne_empty w.option draw
  failures_eq := rfl
  failures_le := Nat.zero_le 9
  placed_eq := rfl
  streak := rfl
  covered := by
    have hnew : PasswordMark.failuresSince (PasswordRun.start w draw).world.temporaryPassword
        (PasswordRun.start w draw).log = 0 :=
      PasswordMark.failuresSince_cons_of_renews (by simp [PasswordMark.renews, PasswordRun.start]) []
    rw [hnew, countedFailures]
    split_ifs
    · rfl
    · rfl
  failuresSince_le value :=
    (PasswordMark.failuresSince_cons_le (by simp) []).trans (Nat.zero_le 10)
  supported := ⟨trivial, trivial⟩

/-- The run lemma of the count. -/
theorem counts_run (w : World) (draw : ℕ → ℕ) (events : List PasswordEvent) :
    ∃ n, (runEvents PasswordRun.step (PasswordRun.start w draw) events).Counts n := by
  have hstep : ∀ (r : PasswordRun) event, (∃ n, r.Counts n) → ∃ n, (r.step event).Counts n := by
    rintro r event ⟨n, h⟩
    exact h.step event
  exact runEvents_invariant_of_step hstep ⟨0, counts_start w draw⟩ events

/-- The temporary password in every run. At most nine failed attempts were checked against the value in place since it
was put there or last presented, and at most ten against any value; and a value that the check replaced had failed in
each of the ten latest checks. Every change of the value is in the record. -/
theorem temporaryPassword_rotation (w : World) (draw : ℕ → ℕ) (events : List PasswordEvent) :
    let r := runEvents PasswordRun.step (PasswordRun.start w draw) events
    PasswordMark.failuresSince r.world.temporaryPassword r.log ≤ 9 ∧
      (∀ value, PasswordMark.failuresSince value r.log ≤ 10) ∧
      (∀ later old new earlier, r.log = later ++ .rotated old new :: earlier →
        (earlier.filter PasswordMark.isCheck).take 10 = List.replicate 10 (.failed old)) ∧
      PasswordMark.placed r.log = some r.world.temporaryPassword := by
  intro r
  obtain ⟨n, h⟩ : ∃ n, r.Counts n := counts_run w draw events
  refine ⟨?_, h.failuresSince_le, fun later old new earlier hlog => ?_, h.placed_eq⟩
  · obtain ⟨m, hm, hcounted, -⟩ := h.counted
    have hcovered := h.covered
    omega
  · exact justified_iff.mp h.supported later (.rotated old new) earlier hlog

end PasswordRun

end UnyDesk
