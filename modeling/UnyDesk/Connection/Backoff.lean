import UnyDesk.Connection.Throttle

/-!
# The backoff of operating-system credentials

A check blocks a login exactly when the failures recorded so far demand it: the state that is kept and brought
up to date by every access, checks included, never says anything else than the history of the failures.
-/

namespace UnyDesk

open Lib OsCredentialFailureState List Option

/-- A call on the shared state, at a time of the clock. -/
inductive PolicyCall
  | record (nowMs : Int)
  | evaluate (nowMs : Int)

namespace PolicyCall

def nowMs : PolicyCall → Int
  | record nowMs | evaluate nowMs => nowMs

def isRecord : PolicyCall → Bool
  | record _ => true
  | evaluate _ => false

/-- The call leaves the state behind that every access leaves behind. -/
def apply (s : OsCredentialFailureState) : PolicyCall → OsCredentialFailureState
  | record nowMs => recordOsCredentialFailure s nowMs
  | evaluate nowMs => s.refresh nowMs

end PolicyCall

/-- The state after the calls of any connections, in the order of the lock. -/
def osCredentialRun (calls : List PolicyCall) : OsCredentialFailureState := runEvents PolicyCall.apply {} calls

/-- The times of the recorded failures, the last one first. -/
def failureTimes (calls : List PolicyCall) : List Int :=
  ((calls.filter PolicyCall.isRecord).map PolicyCall.nowMs).reverse

/-- The failures since the last idle gap between two of them. -/
def failuresSinceGap : List Int → ℕ
  | [] => 0
  | [_] => 1
  | time :: earlier :: times =>
    if time - earlier ≥ osCredentialLoginTotalIdleResetMs then 1 else failuresSinceGap (earlier :: times) + 1

/-- The policy in terms of the history: from the third failure on, a login has to wait. -/
def Blocks (times : List Int) (t : Int) : Prop :=
  ∃ last ∈ times.head?, 3 ≤ failuresSinceGap times ∧
    t < last + osCredentialLoginBackoffSeconds (failuresSinceGap times) * 1000 ∧
    t - last < osCredentialLoginTotalIdleResetMs

section Backoff

variable {s : OsCredentialFailureState} {times : List Int} {last t t' : Int} {n : ℕ} {calls : List PolicyCall}
  {n : Int}

/-- From the third failure on, the backoff doubles up to a limit. -/
theorem osCredentialLoginBackoffSeconds_of_le (h : 3 ≤ n) :
    osCredentialLoginBackoffSeconds n = min (15 * 2 ^ (min (n - 3) 7).toNat) (30 * 60) := if_neg (by omega)

/-- The shift is one by at most seven bits. -/
theorem backoffShift_le (h : 3 ≤ n) :
    0 ≤ min (n - 3) 7 ∧ min (n - 3) 7 ≤ 7 ∧ (15 : Int) * 2 ^ (min (n - 3) 7).toNat < 2 ^ 63 := by
  have hexp : (min (n - 3) 7).toNat ≤ 7 := by omega
  refine ⟨by omega, by omega, ?_⟩
  calc (15 : Int) * 2 ^ (min (n - 3) 7).toNat ≤ 15 * 2 ^ 7 :=
        Int.mul_le_mul_of_nonneg_left (pow_le_pow_right₀ (by decide) hexp) (by decide)
    _ < 2 ^ 63 := by decide

theorem osCredentialLoginBackoffSeconds_bounds (h : 3 ≤ n) :
    15 ≤ osCredentialLoginBackoffSeconds n ∧ osCredentialLoginBackoffSeconds n ≤ 30 * 60 := by
  have hpow : (1 : Int) ≤ 2 ^ (min (n - 3) 7).toNat := one_le_pow₀ (by decide)
  rw [osCredentialLoginBackoffSeconds_of_le h]
  omega

/-- The backoff grows with the failures. -/
theorem osCredentialLoginBackoffSeconds_mono {m n : Int} (h : m ≤ n) :
    osCredentialLoginBackoffSeconds m ≤ osCredentialLoginBackoffSeconds n := by
  by_cases hm : m ≤ 2
  · have hzero : osCredentialLoginBackoffSeconds m = 0 := if_pos hm
    by_cases hn : n ≤ 2
    · have hzero' : osCredentialLoginBackoffSeconds n = 0 := if_pos hn
      rw [hzero, hzero']
    · have hbounds := osCredentialLoginBackoffSeconds_bounds (show 3 ≤ n by omega)
      omega
  · have hexp : (min (m - 3) 7).toNat ≤ (min (n - 3) 7).toNat := by omega
    have hpow : (2 : Int) ^ (min (m - 3) 7).toNat ≤ 2 ^ (min (n - 3) 7).toNat :=
      pow_le_pow_right₀ (by decide) hexp
    rw [osCredentialLoginBackoffSeconds_of_le (by omega), osCredentialLoginBackoffSeconds_of_le (by omega)]
    omega

/-- A counter that has stopped at its largest value stands for the same backoff. -/
theorem backoff_of_saturated (n : ℕ) :
    osCredentialLoginBackoffSeconds (min (n : Int) (2 ^ 31 - 1)) = osCredentialLoginBackoffSeconds n := by
  by_cases hsmall : (n : Int) ≤ 2 ^ 31 - 1
  · rw [min_eq_left hsmall]
  · have hlarge : (2 : Int) ^ 31 - 1 ≤ n := by omega
    have hexp : min ((n : Int) - 3) 7 = 7 := by omega
    rw [min_eq_right hlarge, osCredentialLoginBackoffSeconds_of_le (n := (n : Int)) (by omega), hexp]
    decide

/-- What an access finds, in terms of the history. -/
def policyState (times : List Int) (t : Int) : OsCredentialFailureState :=
  match times with
  | [] => {}
  | last :: _ =>
    let n := failuresSinceGap times
    let untilMs := last + osCredentialLoginBackoffSeconds n * 1000
    if t - last ≥ osCredentialLoginTotalIdleResetMs then {}
    else
      { totalFailures := min n (2 ^ 31 - 1)
        backoffUntilMs := if 3 ≤ n ∧ t < untilMs then some untilMs else none
        lastFailureMs := some last }

theorem normalizeBackoff_normalizeBackoff (h : t ≤ t') :
    (s.normalizeBackoff t).normalizeBackoff t' = s.normalizeBackoff t' := by
  obtain ⟨total, _ | untilMs, last⟩ := s
  · rfl
  · unfold normalizeBackoff
    dsimp only
    by_cases hover : untilMs ≤ t
    · rw [if_pos hover, if_pos (show untilMs ≤ t' by omega)]
    · rw [if_neg hover]

theorem resetTotalsOnIdle_resetTotalsOnIdle (h : t ≤ t') :
    (s.resetTotalsOnIdle t).resetTotalsOnIdle t' = s.resetTotalsOnIdle t' := by
  obtain ⟨total, untilMs, _ | last⟩ := s
  · rfl
  · unfold resetTotalsOnIdle
    dsimp only
    by_cases hidle : t - last ≥ osCredentialLoginTotalIdleResetMs
    · rw [if_pos hidle, if_pos (show t' - last ≥ osCredentialLoginTotalIdleResetMs by omega)]
    · rw [if_neg hidle]

theorem resetTotalsOnIdle_normalizeBackoff (s : OsCredentialFailureState) (t t' : Int) :
    (s.normalizeBackoff t).resetTotalsOnIdle t' = (s.resetTotalsOnIdle t').normalizeBackoff t := by
  unfold resetTotalsOnIdle normalizeBackoff
  obtain ⟨total, untilMs, last⟩ := s
  cases untilMs with
  | none =>
    cases last with
    | none => rfl
    | some last =>
      dsimp only
      split <;> rfl
  | some untilMs =>
    by_cases hover : untilMs ≤ t
    · cases last with
      | none => simp only [if_pos hover]
      | some last =>
        by_cases hidle : t' - last ≥ osCredentialLoginTotalIdleResetMs
        · simp only [if_pos hover, if_pos hidle]
        · simp only [if_pos hover, if_neg hidle]
    · cases last with
      | none => simp only [if_neg hover]
      | some last =>
        by_cases hidle : t' - last ≥ osCredentialLoginTotalIdleResetMs
        · simp only [if_neg hover, if_pos hidle]
        · simp only [if_neg hover, if_neg hidle]

/-- An earlier access makes no difference to what a later one finds. -/
theorem refresh_refresh (h : t ≤ t') : (s.refresh t).refresh t' = s.refresh t' := by
  unfold refresh
  rw [resetTotalsOnIdle_normalizeBackoff, resetTotalsOnIdle_resetTotalsOnIdle h, normalizeBackoff_normalizeBackoff h]

/-- A failure is one more since the gap, or the first one behind it; without a third one nobody waits. -/
theorem policyState_totals (times : List Int) (t : Int) :
    min ((policyState times t).totalFailures + 1) (2 ^ 31 - 1) = min (failuresSinceGap (t :: times) : Int) (2 ^ 31 - 1) ∧
      (failuresSinceGap (t :: times) ≤ 2 → (policyState times t).backoffUntilMs = none) := by
  cases times with
  | nil => exact ⟨rfl, fun _ => rfl⟩
  | cons last times =>
    rw [policyState, failuresSinceGap]
    by_cases hidle : t - last ≥ osCredentialLoginTotalIdleResetMs
    · rw [if_pos hidle, if_pos hidle]
      exact ⟨rfl, fun _ => rfl⟩
    · rw [if_neg hidle, if_neg hidle]
      refine ⟨?_, fun hfew => if_neg ?_⟩
      · push_cast
        omega
      · omega

/-- After a failure, an access finds what the longer history says. -/
theorem refresh_record (hs : s.refresh t = policyState times t) (t' : Int) :
    (recordOsCredentialFailure s t).refresh t' = policyState (t :: times) t' := by
  obtain ⟨htotal, hfew⟩ := policyState_totals times t
  have hrecord : recordOsCredentialFailure s t =
      { totalFailures := min (failuresSinceGap (t :: times)) (2 ^ 31 - 1)
        lastFailureMs := some t
        backoffUntilMs :=
          if osCredentialLoginBackoffSeconds (failuresSinceGap (t :: times)) > 0 then
            some (t + osCredentialLoginBackoffSeconds (failuresSinceGap (t :: times)) * 1000)
          else (policyState times t).backoffUntilMs } := by
    unfold recordOsCredentialFailure
    dsimp only
    rw [hs, htotal, backoff_of_saturated]
  rw [hrecord, policyState]
  unfold refresh resetTotalsOnIdle
  dsimp only
  by_cases hidle : t' - t ≥ osCredentialLoginTotalIdleResetMs
  · rw [if_pos hidle, if_pos hidle]
    rfl
  · rw [if_neg hidle, if_neg hidle]
    unfold normalizeBackoff
    by_cases hthree : 3 ≤ failuresSinceGap (t :: times)
    · have hbounds := osCredentialLoginBackoffSeconds_bounds (n := (failuresSinceGap (t :: times) : Int)) (by omega)
      rw [if_pos (by omega)]
      dsimp only
      by_cases hover : t + osCredentialLoginBackoffSeconds (failuresSinceGap (t :: times)) * 1000 ≤ t'
      · rw [if_pos hover, if_neg (by omega)]
      · rw [if_neg hover, if_pos ⟨hthree, by omega⟩]
    · have hzero : osCredentialLoginBackoffSeconds (failuresSinceGap (t :: times)) = 0 := if_pos (by omega)
      rw [hzero, if_neg (by decide), hfew (by omega), if_neg (fun hboth => hthree hboth.1)]

/-- From a time on, every access finds what the history says. -/
structure Follows (s : OsCredentialFailureState) (times : List Int) (now : Int) : Prop where
  refresh : ∀ t, now ≤ t → s.refresh t = policyState times t
  nonneg : 0 ≤ s.totalFailures
  le : s.totalFailures ≤ 2 ^ 31 - 1

theorem Follows.start (now : Int) : Follows {} [] now := ⟨fun _ _ => rfl, by decide, by decide⟩

/-- A failure joins the history, a check does not. -/
theorem Follows.apply (h : Follows s times t) {call : PolicyCall} (hclock : t ≤ call.nowMs) :
    Follows (call.apply s) (if call.isRecord then call.nowMs :: times else times) call.nowMs := by
  have htotal : 0 ≤ (s.refresh call.nowMs).totalFailures ∧ (s.refresh call.nowMs).totalFailures ≤ 2 ^ 31 - 1 := by
    rw [h.refresh _ hclock]
    unfold policyState
    split
    · exact ⟨by decide, by decide⟩
    · dsimp only
      split
      · exact ⟨by decide, by decide⟩
      · dsimp only
        omega
  cases call with
  | record nowMs =>
    refine ⟨fun t' _ => refresh_record (h.refresh nowMs hclock) t', ?_, ?_⟩
    · change 0 ≤ min ((s.refresh nowMs).totalFailures + 1) (2 ^ 31 - 1)
      have hnonneg : 0 ≤ (s.refresh nowMs).totalFailures := htotal.1
      omega
    · exact min_le_right _ _
  | evaluate nowMs => exact ⟨fun t' ht' => (refresh_refresh ht').trans (h.refresh t' (Int.le_trans hclock ht')), htotal.1, htotal.2⟩

theorem Follows.run (h : Follows s times t) (hclock : (t :: (calls.map PolicyCall.nowMs ++ [t'])).Pairwise (· ≤ ·)) :
    Follows (runEvents PolicyCall.apply s calls) (failureTimes calls ++ times) t' := by
  induction calls generalizing s times t with
  | nil =>
    have hle : t ≤ t' := rel_of_pairwise_cons hclock (by simp)
    exact ⟨fun t₁ ht₁ => h.refresh t₁ (Int.le_trans hle ht₁), h.nonneg, h.le⟩
  | cons call calls ih =>
    have hle : t ≤ call.nowMs := rel_of_pairwise_cons hclock (by simp)
    have hrest := ih (h.apply hle) (List.Pairwise.of_cons hclock)
    have htimes : failureTimes (call :: calls) ++ times =
        failureTimes calls ++ if call.isRecord then call.nowMs :: times else times := by
      cases call with
      | record nowMs => simp [failureTimes, filter_cons, PolicyCall.isRecord, PolicyCall.nowMs]
      | evaluate nowMs => simp [failureTimes, PolicyCall.isRecord]
    rw [htimes]
    exact hrest

/-- The state follows the history in every run of a clock that does not go back. -/
theorem follows_run (hclock : (calls.map PolicyCall.nowMs ++ [t]).Pairwise (· ≤ ·)) :
    Follows (osCredentialRun calls) (failureTimes calls) t := by
  cases calls with
  | nil => exact Follows.start t
  | cons call calls =>
    have hrun := (Follows.start call.nowMs).run (pairwise_cons.mpr ⟨fun t₁ ht₁ => ?_, hclock⟩)
    · rwa [append_nil] at hrun
    · rcases mem_cons.mp ht₁ with rfl | hlater
      · exact Int.le_refl _
      · exact rel_of_pairwise_cons hclock hlater

/-- The backoff lasts in the state of the policy exactly when the history demands it. -/
theorem policyState_blocks (times : List Int) (t : Int) :
    (policyState times t).backoffUntilMs.isSome ↔ Blocks times t := by
  cases times with
  | nil => simp [policyState, Blocks]
  | cons last times =>
    simp only [policyState, Blocks, head?_cons, mem_def, some.injEq, exists_eq_left']
    by_cases hidle : t - last ≥ osCredentialLoginTotalIdleResetMs
    · rw [if_pos hidle]
      simp only [isSome_none, Bool.false_eq_true, false_iff]
      omega
    · rw [if_neg hidle]
      dsimp only
      split
      next hwait => simp only [isSome_some, true_iff]; omega
      next hfree => simp only [isSome_none, Bool.false_eq_true, false_iff]; omega

end Backoff

/-- The backoff policy: after any run of failures and checks with a clock that does not go back, a check blocks
exactly when the history demands it, and checks leave no trace: later checks and failures do what they would do
had no check been made. The backoff grows with the failures, from fifteen seconds to half an hour, and neither
the counter nor the shift leaves its range. -/
theorem os_credential_backoff (calls : List PolicyCall) (t : Int)
    (hclock : (calls.map PolicyCall.nowMs ++ [t]).Pairwise (· ≤ ·)) :
    ((evaluateOsCredentialPolicy (osCredentialRun calls) t).isSome ↔ Blocks (failureTimes calls) t) ∧
      evaluateOsCredentialPolicy (osCredentialRun calls) t =
        evaluateOsCredentialPolicy (osCredentialRun (calls.filter PolicyCall.isRecord)) t ∧
      recordOsCredentialFailure (osCredentialRun calls) t =
        recordOsCredentialFailure (osCredentialRun (calls.filter PolicyCall.isRecord)) t ∧
      (0 ≤ (osCredentialRun calls).totalFailures ∧ (osCredentialRun calls).totalFailures ≤ 2 ^ 31 - 1) ∧
      (∀ m n : Int, m ≤ n → osCredentialLoginBackoffSeconds m ≤ osCredentialLoginBackoffSeconds n) ∧
      ∀ n : Int, 3 ≤ n → (15 ≤ osCredentialLoginBackoffSeconds n ∧ osCredentialLoginBackoffSeconds n ≤ 30 * 60) ∧
        0 ≤ min (n - 3) 7 ∧ min (n - 3) 7 ≤ 7 ∧ (15 : Int) * 2 ^ (min (n - 3) 7).toNat < 2 ^ 63 := by
  have hfollows := follows_run hclock
  have hfiltered : (((calls.filter PolicyCall.isRecord).map PolicyCall.nowMs) ++ [t]).Pairwise (· ≤ ·) :=
    hclock.sublist ((List.filter_sublist.map _).append_right _)
  have hsame : (osCredentialRun calls).refresh t = (osCredentialRun (calls.filter PolicyCall.isRecord)).refresh t := by
    have hrecords : failureTimes (calls.filter PolicyCall.isRecord) = failureTimes calls := by
      simp [failureTimes]
    rw [hfollows.refresh t (Int.le_refl t), (follows_run hfiltered).refresh t (Int.le_refl t), hrecords]
  refine ⟨?_, ?_, ?_, ⟨hfollows.nonneg, hfollows.le⟩, fun m n h => osCredentialLoginBackoffSeconds_mono h,
    fun n h => ⟨osCredentialLoginBackoffSeconds_bounds h, backoffShift_le h⟩⟩
  · rw [evaluateOsCredentialPolicy, Option.isSome_map, hfollows.refresh t (Int.le_refl t)]
    exact policyState_blocks _ t
  · rw [evaluateOsCredentialPolicy, evaluateOsCredentialPolicy, hsame]
  · rw [recordOsCredentialFailure, recordOsCredentialFailure, hsame]

/-- Three failures in a row, with a check between them, block for fifteen seconds. -/
theorem os_credential_backoff_third :
    (evaluateOsCredentialPolicy (osCredentialRun [.record 0, .record 1000, .evaluate 1500, .record 2000]) 16999).isSome ↔
      Blocks (failureTimes [.record 0, .record 1000, .evaluate 1500, .record 2000]) 16999 :=
  (os_credential_backoff [.record 0, .record 1000, .evaluate 1500, .record 2000] 16999 (by decide)).1

end UnyDesk
