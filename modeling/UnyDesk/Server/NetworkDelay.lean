import Mathlib.Data.Rat.Floor
import UnyDesk.Lib.Window

/-!
# The delay of a connection

A test delay is measured once a second. What counts is the mean of the last few delays without the round-trip time,
which is estimated by the smallest delays: of all, or half of all and half of the last minute. The estimate is never
above the mean. Where the two are equal nothing is subtracted, so that a link whose delay does not change counts with all
of its delay.
-/

namespace UnyDesk

open Lib Window List Option Nat

def historyDelayLen : ℕ := 2

/-- In milliseconds. -/
def delayThreshold150ms : ℕ := 150

structure RttCalculator where
  /-- The smallest delay of all. -/
  minRtt : Option ℕ := none
  /-- The smallest delay among the samples. -/
  windowMinRtt : Option ℕ := none
  smoothedRtt : Option ℕ := none
  samples : List ℕ := []
deriving DecidableEq

namespace RttCalculator

def windowSamples : ℕ := 60

def minSamples : ℕ := 10

def alpha : ℚ := 1 / 2

variable (rtt : RttCalculator)

def update (delay : ℕ) : RttCalculator :=
  let minRtt :=
    match rtt.minRtt with
    | some minRtt => if delay < minRtt then some delay else some minRtt
    | none => some delay
  let samples := Window.push windowSamples rtt.samples delay
  let windowMinRtt := samples.min?
  let smoothedRtt :=
    if windowSamples ≤ samples.length then
      match minRtt, windowMinRtt with
      | some min, some windowMin => some ⌊(1 - alpha) * min + alpha * windowMin⌋₊
      | _, _ => rtt.smoothedRtt
    else rtt.smoothedRtt
  { minRtt, windowMinRtt, smoothedRtt, samples }

def getRtt : Option ℕ :=
  match rtt.smoothedRtt with
  | some rtt => some rtt
  | none => if minSamples ≤ rtt.samples.length then rtt.minRtt else none

end RttCalculator

structure UserDelay where
  responseDelayed : Bool := false
  delayHistory : List ℕ := []
  fps : Option ℕ := none
  rttCalculator : RttCalculator := {}
  quickIncreaseFpsCount : ℕ := 0
  increaseFpsCount : ℕ := 0
deriving DecidableEq

namespace UserDelay

variable (user : UserDelay)

def addDelay (delay : ℕ) : UserDelay :=
  { user with
    rttCalculator := user.rttCalculator.update delay
    delayHistory := Window.push (historyDelayLen + 1) user.delayHistory delay }

/-- The sum is one of `u32`. -/
def avgDelay : ℕ :=
  let len := user.delayHistory.length
  if 0 < len then
    let avgDelay := user.delayHistory.sum % 2 ^ 32 / len
    match user.rttCalculator.getRtt with
    | some rtt => if rtt < avgDelay then avgDelay - rtt else avgDelay
    | none => avgDelay
  else delayThreshold150ms

/-- A connection that was given these delays. -/
def addDelays (samples : List ℕ) : UserDelay := samples.foldl addDelay {}

end UserDelay

namespace RttCalculator

/-- Half of the one and half of the other. -/
theorem smoothed_eq (low windowLow : ℕ) : ⌊(1 - alpha) * low + alpha * windowLow⌋₊ = (low + windowLow) / 2 := by
  have hhalf : (1 - alpha) * low + alpha * windowLow = ((low + windowLow : ℕ) : ℚ) / (2 : ℕ) := by
    rw [alpha]
    push_cast
    ring
  rw [hhalf, Rat.natFloor_natCast_div_natCast]

/-- What the calculator knows of the delays that it was given. -/
structure Knows (given : List ℕ) (rtt : RttCalculator) : Prop where
  minRtt : rtt.minRtt = given.min?
  samples : rtt.samples = given.rtake windowSamples
  unsmoothed : given.length < windowSamples → rtt.smoothedRtt = none
  smoothed : windowSamples ≤ given.length → ∃ low windowLow, given.min? = some low ∧
    (given.rtake windowSamples).min? = some windowLow ∧ rtt.smoothedRtt = some ((low + windowLow) / 2)

variable {rtt : RttCalculator} {given : List ℕ}

theorem min?_concat {low : ℕ} (h : given.min? = some low) (delay : ℕ) :
    (given ++ [delay]).min? = some (min low delay) := by
  obtain ⟨hmem, hle⟩ := min?_eq_some_iff.mp h
  refine min?_eq_some_iff.mpr ⟨?_, ?_⟩
  · rcases min_choice low delay with heq | heq
    · rw [heq]
      exact mem_append_left [delay] hmem
    · rw [heq]
      exact mem_append_right given mem_cons_self
  · intro other hother
    rcases mem_append.mp hother with hother | hother
    · exact (min_le_left low delay).trans (hle other hother)
    · rw [mem_singleton.mp hother]
      exact min_le_right low delay

theorem minRtt_update (h : rtt.minRtt = given.min?) (delay : ℕ) :
    (rtt.update delay).minRtt = (given ++ [delay]).min? := by
  rw [update, h]
  cases hlow : given.min? with
  | none =>
    rw [min?_eq_none_iff.mp hlow]
    rfl
  | some low =>
    rw [min?_concat hlow]
    dsimp only
    split
    · rename_i hlt
      rw [min_eq_right hlt.le]
    · rename_i hge
      rw [min_eq_left (not_lt.mp hge)]

theorem samples_update (h : rtt.samples = given.rtake windowSamples) (delay : ℕ) :
    (rtt.update delay).samples = (given ++ [delay]).rtake windowSamples := by
  change push windowSamples rtt.samples delay = _
  rw [h, push_rtake (by decide)]

theorem smoothedRtt_update (rtt : RttCalculator) (delay : ℕ) : (rtt.update delay).smoothedRtt =
      if windowSamples ≤ (rtt.update delay).samples.length then
        match (rtt.update delay).minRtt, (rtt.update delay).samples.min? with
        | some min, some windowMin => some ⌊(1 - alpha) * min + alpha * windowMin⌋₊
        | _, _ => rtt.smoothedRtt
      else rtt.smoothedRtt :=
  rfl

theorem knows_new : Knows [] {} := by
  refine ⟨rfl, rfl, fun _ => rfl, ?_⟩
  intro h
  exact absurd h (by decide)

theorem Knows.update (h : Knows given rtt) (delay : ℕ) : Knows (given ++ [delay]) (rtt.update delay) := by
  have hmin := minRtt_update h.minRtt delay
  have hsamples := samples_update h.samples delay
  have hsmoothed := smoothedRtt_update rtt delay
  rw [hmin, hsamples, length_rtake] at hsmoothed
  refine ⟨hmin, hsamples, ?_, ?_⟩
  · intro hfew
    rw [if_neg (by omega)] at hsmoothed
    rw [length_append] at hfew
    rw [hsmoothed, h.unsmoothed (Nat.lt_of_le_of_lt (Nat.le_add_right _ _) hfew)]
  · intro hmany
    rw [if_pos (Nat.le_min.mpr ⟨le_rfl, hmany⟩)] at hsmoothed
    have hnonempty : given ++ [delay] ≠ [] := append_ne_nil_of_right_ne_nil given (cons_ne_nil delay [])
    obtain ⟨low, hlow⟩ := isSome_iff_exists.mp (isSome_min?_of_ne_nil hnonempty)
    obtain ⟨windowLow, hwindowLow⟩ := isSome_iff_exists.mp
      (isSome_min?_of_ne_nil (rtake_ne_nil hnonempty (show 0 < windowSamples by decide)))
    refine ⟨low, windowLow, hlow, hwindowLow, ?_⟩
    rw [hsmoothed, hlow, hwindowLow]
    exact congrArg some (smoothed_eq low windowLow)

/-- There is an estimate from the tenth delay on. -/
theorem Knows.isSome_getRtt (h : Knows given rtt) : rtt.getRtt.isSome = true ↔ minSamples ≤ given.length := by
  rw [getRtt, h.samples, length_rtake, h.minRtt]
  rcases lt_or_ge given.length windowSamples with hfew | hmany
  · rw [h.unsmoothed hfew]
    dsimp only
    split
    · rename_i hten
      have hlength : minSamples ≤ given.length := by omega
      have hnonempty : given ≠ [] := length_pos_iff.mp (lt_of_lt_of_le (by decide) hlength)
      simp [hlength, isSome_min?_of_ne_nil hnonempty]
    · rename_i hten
      have hlength : ¬ minSamples ≤ given.length := by omega
      simp [hlength]
  · obtain ⟨low, windowLow, -, -, hsmoothed⟩ := h.smoothed hmany
    rw [hsmoothed]
    have hten : minSamples ≤ windowSamples := by decide
    simp only [isSome_some, true_iff]
    exact hten.trans hmany

/-- The estimate is the smallest delay, or between it and all delays of the window. -/
theorem Knows.getRtt_bounds (h : Knows given rtt) {estimate : ℕ} (hestimate : rtt.getRtt = some estimate) :
    ∃ low, given.min? = some low ∧
      (estimate = low ∨ low ≤ estimate ∧ ∀ delay ∈ given.rtake windowSamples, estimate < delay) := by
  rcases lt_or_ge given.length windowSamples with hfew | hmany
  · rw [getRtt, h.unsmoothed hfew, h.minRtt] at hestimate
    dsimp only at hestimate
    split at hestimate
    · exact ⟨estimate, hestimate, .inl rfl⟩
    · cases hestimate
  · obtain ⟨low, windowLow, hlow, hwindowLow, hsmoothed⟩ := h.smoothed hmany
    rw [getRtt, hsmoothed] at hestimate
    cases hestimate
    refine ⟨low, hlow, ?_⟩
    obtain ⟨hmem, hle⟩ := min?_eq_some_iff.mp hwindowLow
    have hbelow : low ≤ windowLow := (min?_eq_some_iff.mp hlow).2 windowLow (mem_of_mem_rtake hmem)
    rcases hbelow.eq_or_lt with heq | hlt
    · left
      omega
    · right
      refine ⟨by omega, fun delay hdelay => ?_⟩
      have hdelay := hle delay hdelay
      omega

end RttCalculator

namespace UserDelay

open RttCalculator

variable (given : List ℕ)

theorem addDelays_concat (delay : ℕ) : addDelays (given ++ [delay]) = (addDelays given).addDelay delay := by
  rw [addDelays, foldl_concat]
  rfl

theorem knows_addDelays : Knows given (addDelays given).rttCalculator := by
  induction given using reverseRecOn with
  | nil => exact knows_new
  | append_singleton given delay ih =>
    rw [addDelays_concat]
    exact ih.update delay

/-- The last delays, which the mean is taken of. -/
def recent : List ℕ := given.rtake (historyDelayLen + 1)

theorem delayHistory_addDelays : (addDelays given).delayHistory = recent given := by
  induction given using reverseRecOn with
  | nil => rfl
  | append_singleton given delay ih =>
    rw [addDelays_concat, addDelay, ih]
    exact push_rtake (succ_pos historyDelayLen) given delay

variable {given}

theorem recent_ne_nil (hnonempty : given ≠ []) : recent given ≠ [] :=
  rtake_ne_nil hnonempty (succ_pos historyDelayLen)

theorem sum_recent_lt (hgiven : ∀ delay ∈ given, delay < 2 ^ 22) : (recent given).sum < 2 ^ 32 := by
  have hsum := sum_le_card_nsmul (recent given) (2 ^ 22) fun delay hdelay =>
    (hgiven delay (mem_of_mem_rtake hdelay)).le
  have hlength : (recent given).length ≤ 3 := by
    rw [recent, length_rtake]
    exact min_le_left _ _
  rw [smul_eq_mul] at hsum
  have hbound := mul_le_mul_right (2 ^ 22) hlength
  omega

theorem avgDelay_addDelays (hgiven : ∀ delay ∈ given, delay < 2 ^ 22) (hnonempty : given ≠ []) :
    (addDelays given).avgDelay = match (addDelays given).rttCalculator.getRtt with
      | some rtt =>
        if rtt < mean (recent given) then mean (recent given) - rtt else mean (recent given)
      | none => mean (recent given) := by
  have hlength : 0 < (recent given).length := length_pos_iff.mpr (recent_ne_nil hnonempty)
  have hmean : (recent given).sum % 2 ^ 32 / (recent given).length = mean (recent given) := by
    rw [mod_eq_of_lt (sum_recent_lt hgiven), mean]
  rw [avgDelay]
  dsimp only
  rw [delayHistory_addDelays, if_pos hlength, hmean]

/-- The estimate is not above the mean, and equal to it only when both are the smallest delay. -/
theorem getRtt_le_mean {rtt : ℕ} (hrtt : (addDelays given).rttCalculator.getRtt = some rtt) :
    rtt ≤ mean (recent given) ∧ (rtt = mean (recent given) ↔ given.min? = some (mean (recent given))) := by
  obtain ⟨low, hlow, hbounds⟩ := (knows_addDelays given).getRtt_bounds hrtt
  obtain ⟨hmem, hle⟩ := min?_eq_some_iff.mp hlow
  have hrecent : recent given ≠ [] := recent_ne_nil (ne_nil_of_mem hmem)
  rw [hlow, some_inj]
  rcases hbounds with rfl | ⟨habove, hbelow⟩
  · exact ⟨le_mean hrecent fun delay hdelay => hle delay (mem_of_mem_rtake hdelay), Iff.rfl⟩
  · have hwindow : historyDelayLen + 1 ≤ windowSamples := by decide
    have hlt : rtt + 1 ≤ mean (recent given) := by
      refine le_mean hrecent fun delay hdelay => hbelow delay ?_
      exact (rtake_suffix_rtake hwindow given).subset hdelay
    exact ⟨by omega, by omega⟩

/-- The estimate is subtracted from a mean that is larger, and from nothing. -/
theorem avgDelay_eq_iff (hgiven : ∀ delay ∈ given, delay < 2 ^ 22) (hnonempty : given ≠ []) {rtt : ℕ}
    (hrtt : (addDelays given).rttCalculator.getRtt = some rtt) :
    (addDelays given).avgDelay = mean (recent given) - rtt ↔ mean (recent given) = 0 ∨ rtt ≠ mean (recent given) := by
  have hle := (getRtt_le_mean hrtt).1
  rw [avgDelay_addDelays hgiven hnonempty, hrtt]
  dsimp only
  split
  · rename_i hlt
    exact iff_of_true rfl (.inr hlt.ne)
  · rename_i hge
    have hequal : rtt = mean (recent given) := Nat.le_antisymm hle (not_lt.mp hge)
    rw [or_iff_left (not_not.mpr hequal), hequal, Nat.sub_self]

theorem avgDelay_replicate (n : ℕ) {delay : ℕ} (hdelay : delay < 2 ^ 22) :
    (addDelays (replicate (n + 1) delay)).avgDelay = delay := by
  have hgiven : ∀ delay' ∈ replicate (n + 1) delay, delay' < 2 ^ 22 := by
    intro delay' hmem
    rw [eq_of_mem_replicate hmem]
    exact hdelay
  have hmean : mean (recent (replicate (n + 1) delay)) = delay := by
    refine mean_constant (recent_ne_nil (cons_ne_nil _ _)) fun other hother => ?_
    exact eq_of_mem_replicate (mem_of_mem_rtake hother)
  rw [avgDelay_addDelays hgiven (cons_ne_nil _ _), hmean]
  cases hrtt : (addDelays (replicate (n + 1) delay)).rttCalculator.getRtt with
  | none => rfl
  | some rtt =>
    have hequal := (getRtt_le_mean hrtt).2.mpr
    rw [hmean, min?_replicate_of_pos n.succ_pos] at hequal
    dsimp only
    rw [hequal rfl, if_neg (lt_irrefl delay)]

/-- The round-trip time is subtracted except from a mean that is equal to it. A link whose delay does not change counts
with all of its delay. -/
theorem avgDelay_subtracts_iff (given : List ℕ) (hgiven : ∀ delay ∈ given, delay < 2 ^ 22) :
    ((∀ rtt, (addDelays given).rttCalculator.getRtt = some rtt → rtt ≤ Window.mean (addDelays given).delayHistory ∧
          (addDelays given).avgDelay = Window.mean (addDelays given).delayHistory - rtt) ↔
      given.length < minSamples ∨ Window.mean (recent given) = 0 ∨ given.min? ≠ some (Window.mean (recent given))) ∧
    ∀ n delay, given = List.replicate (n + 1) delay →
      ((addDelays given).avgDelay < delayThreshold150ms ↔ delay < delayThreshold150ms) := by
  constructor
  · rw [delayHistory_addDelays]
    cases hrtt : (addDelays given).rttCalculator.getRtt with
    | none =>
      have hfew : ¬ minSamples ≤ given.length := by
        rw [← (knows_addDelays given).isSome_getRtt, hrtt]
        exact Bool.false_ne_true
      refine iff_of_true ?_ (.inl (not_le.mp hfew))
      intro rtt h
      cases h
    | some rtt =>
      have hmany : minSamples ≤ given.length := by
        rw [← (knows_addDelays given).isSome_getRtt, hrtt]
        rfl
      have hnonempty : given ≠ [] := List.length_pos_iff.mp (Nat.lt_of_lt_of_le (by decide) hmany)
      obtain ⟨hle, hequal⟩ := getRtt_le_mean hrtt
      rw [or_iff_right (not_lt.mpr hmany), ne_eq, ← hequal, ← avgDelay_eq_iff hgiven hnonempty hrtt]
      constructor
      · intro hsubtracts
        exact (hsubtracts rtt rfl).2
      · intro heq rtt' hrtt'
        cases hrtt'
        exact ⟨hle, heq⟩
  · rintro n delay rfl
    rw [avgDelay_replicate n (hgiven delay (List.mem_replicate.mpr ⟨n.succ_ne_zero, rfl⟩))]

/-- After ten short delays the round-trip time is known, and it is subtracted from the longer ones. -/
theorem avgDelay_subtracts_longer : 20 ≤ Window.mean (addDelays (List.replicate 10 20 ++ [80, 80, 80])).delayHistory ∧
      (addDelays (List.replicate 10 20 ++ [80, 80, 80])).avgDelay =
        Window.mean (addDelays (List.replicate 10 20 ++ [80, 80, 80])).delayHistory - 20 :=
  (avgDelay_subtracts_iff (List.replicate 10 20 ++ [80, 80, 80]) (by decide)).1.mpr (by decide) 20 (by decide)

/-- Ten delays of half a second count as half a second. -/
theorem constant_not_subtracted : ¬ ∀ given : List ℕ, (∀ delay ∈ given, delay < 2 ^ 22) →
      ∀ rtt, (addDelays given).rttCalculator.getRtt = some rtt → rtt ≤ Window.mean (addDelays given).delayHistory ∧
          (addDelays given).avgDelay = Window.mean (addDelays given).delayHistory - rtt := by
  intro hsubtracts
  have hequal := (hsubtracts (List.replicate 10 500) (by decide) 500 (by decide)).2
  revert hequal
  decide

end UserDelay

end UnyDesk
