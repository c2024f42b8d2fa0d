import UnyDesk.Server.VideoQos

/-!
# The frame rate and the delay

A longer delay is meant to lead to a frame rate that is not higher. Below the threshold and above it each range of
delays keeps to this, and so does almost every step from one range to the next. From 300 milliseconds on, up to 600, the
frame rate no longer depends on the one before. Where the one before is small, such a delay raises it, while a shorter
delay does not.
-/

namespace UnyDesk

open Lib Nat

section Devide

variable {fps avgDelay avgDelay' : ℕ}

/-- One multiplication instead of two divisions. -/
theorem devideFps_le_iff (hdelay : 0 < avgDelay) {rate : ℕ} :
    devideFps fps avgDelay ≤ rate ↔ fps * delayThreshold150ms ≤ rate * avgDelay := by
  have hpos : (0 : ℚ) < (avgDelay : ℚ) / delayThreshold150ms := by
    have hthreshold : (0 : ℚ) < delayThreshold150ms := by norm_num [delayThreshold150ms]
    exact div_pos (cast_pos.mpr hdelay) hthreshold
  rw [devideFps, ceil_le, div_le_iff₀ hpos, mul_div_assoc', le_div_iff₀ (by norm_num [delayThreshold150ms])]
  norm_cast

theorem devideFps_antitone (hdelay : 0 < avgDelay) (h : avgDelay ≤ avgDelay') :
    devideFps fps avgDelay' ≤ devideFps fps avgDelay := by
  rw [devideFps_le_iff (hdelay.trans_le h)]
  exact ((devideFps_le_iff hdelay).mp le_rfl).trans (mul_le_mul_left _ h)

/-- Above the threshold the frame rate does not rise. -/
theorem devideFps_le (h : delayThreshold150ms ≤ avgDelay) : devideFps fps avgDelay ≤ fps := by
  rw [devideFps_le_iff (lt_of_lt_of_le (by decide) h)]
  exact mul_le_mul_left fps h

theorem devideFps_pos (hfps : 1 ≤ fps) (hdelay : 0 < avgDelay) : 1 ≤ devideFps fps avgDelay := by
  by_contra hzero
  have hle : fps * delayThreshold150ms ≤ 0 * avgDelay :=
    (devideFps_le_iff hdelay).mp (lt_one_iff.mp (not_le.mp hzero)).le
  rw [zero_mul, delayThreshold150ms] at hle
  omega

end Devide

section Adapt

variable {minimum normalFps fps oldAvgDelay avgDelay avgDelay' : ℕ} {quick quick' : Bool}

/-- The first delay holds the frame rate to the one before. The second one does not, and it asks for more than that. -/
def Unbound (minimum fps avgDelay avgDelay' : ℕ) : Prop :=
  200 ≤ avgDelay ∧ avgDelay < 300 ∧ 300 ≤ avgDelay' ∧ avgDelay' < 600 ∧
    devideFps fps avgDelay < delayThreshold150ms * minimum / avgDelay'

theorem adaptFps_of_good (h : avgDelay < delayThreshold150ms) :
    adaptFps minimum normalFps fps oldAvgDelay avgDelay quick =
      if avgDelay < 50 then max minimum (fps + if quick then 5 else if fps < normalFps then 1 else 0)
      else if avgDelay < 100 then max minimum (fps + if avgDelay < oldAvgDelay ∧ fps < normalFps then 1 else 0)
      else max minimum fps := by
  rw [adaptFps]
  dsimp only
  rw [if_pos h]

theorem adaptFps_of_bad (h : delayThreshold150ms ≤ avgDelay) :
    adaptFps minimum normalFps fps oldAvgDelay avgDelay quick =
      if avgDelay < 200 then max minimum (devideFps fps avgDelay)
      else if avgDelay < 300 then min minimum (devideFps fps avgDelay)
      else if avgDelay < 600 then delayThreshold150ms * minimum / avgDelay
      else min (delayThreshold150ms * minimum / avgDelay) (devideFps fps avgDelay) := by
  have hslow : 150 ≤ avgDelay := h
  rw [adaptFps]
  dsimp only
  rw [if_neg (by omega), if_neg (by omega), if_neg (not_lt.mpr h)]

/-- The frame rate that does not depend on the one before is small. -/
theorem div_le_minimum (h : delayThreshold150ms ≤ avgDelay) : delayThreshold150ms * minimum / avgDelay ≤ minimum :=
  Nat.div_le_of_le_mul (Nat.mul_le_mul_right minimum h)

/-- A good delay does not lower the frame rate. -/
theorem le_adaptFps (h : avgDelay < delayThreshold150ms) :
    max minimum fps ≤ adaptFps minimum normalFps fps oldAvgDelay avgDelay quick := by
  rw [adaptFps_of_good h]
  split_ifs <;> omega

/-- A longer delay that is still good does not raise it more. -/
theorem adaptFps_good (h : avgDelay ≤ avgDelay') (hgood : avgDelay' < delayThreshold150ms)
    (hquick : quick' = true → quick = true) :
    adaptFps minimum normalFps fps oldAvgDelay avgDelay' quick' ≤
      adaptFps minimum normalFps fps oldAvgDelay avgDelay quick := by
  rw [adaptFps_of_good (h.trans_lt hgood), adaptFps_of_good hgood]
  cases quick' with
  | true =>
    simp only [hquick rfl, ↓reduceIte]
    split_ifs <;> omega
  | false =>
    simp only [Bool.false_eq_true, ↓reduceIte]
    split_ifs <;> omega

/-- A delay above the threshold does not raise the frame rate above the smallest one. -/
theorem adaptFps_le (h : delayThreshold150ms ≤ avgDelay) :
    adaptFps minimum normalFps fps oldAvgDelay avgDelay quick ≤ max minimum fps := by
  have hdevide : devideFps fps avgDelay ≤ fps := devideFps_le h
  have hdivide : delayThreshold150ms * minimum / avgDelay ≤ minimum := div_le_minimum h
  rw [adaptFps_of_bad h]
  split_ifs <;> omega

/-- Of two delays above the threshold the longer one leads to the smaller frame rate, unless it is unbound. -/
theorem adaptFps_bad (hbad : delayThreshold150ms ≤ avgDelay) (h : avgDelay ≤ avgDelay')
    (hbound : ¬ Unbound minimum fps avgDelay avgDelay') :
    adaptFps minimum normalFps fps oldAvgDelay avgDelay' quick' ≤
      adaptFps minimum normalFps fps oldAvgDelay avgDelay quick := by
  have hpos : 0 < avgDelay := lt_of_lt_of_le (by decide) hbad
  have hdevide : devideFps fps avgDelay' ≤ devideFps fps avgDelay := devideFps_antitone hpos h
  have hdivide : delayThreshold150ms * minimum / avgDelay' ≤ delayThreshold150ms * minimum / avgDelay :=
    div_le_div_left h hpos
  have hsmall : delayThreshold150ms * minimum / avgDelay' ≤ minimum := div_le_minimum (hbad.trans h)
  rw [Unbound] at hbound
  rw [adaptFps_of_bad hbad, adaptFps_of_bad (hbad.trans h)]
  split_ifs <;> omega

end Adapt

namespace UserDelay

variable (user : UserDelay)

/-- The delay that a test delay is averaged to. -/
def averaged (delay : ℕ) : ℕ := max (user.addDelay (max delay 10)).avgDelay 10

/-- The frame rate before it is brought into its range. -/
def wantedFps (minimum normalFps fps delay : ℕ) : ℕ :=
  adaptFps minimum normalFps fps user.avgDelay (user.averaged delay)
      (decide (user.averaged delay < 50) && decide (3 ≤ user.quickIncreaseFpsCount + 1)) +
    if user.averaged delay < delayThreshold150ms ∧ 3 ≤ user.increaseFpsCount + 1 then 1 else 0

theorem fps_networkDelay (minimum normalFps highestFps fps delay : ℕ) :
    (user.networkDelay minimum normalFps highestFps fps delay).fps =
      some (max minFps (min (user.wantedFps minimum normalFps fps delay) highestFps)) := by
  have hquick : (decide (user.averaged delay < 50) &&
      decide (3 ≤ user.quickIncreaseFpsCount + if user.averaged delay < 50 then 1 else 0)) =
      (decide (user.averaged delay < 50) && decide (3 ≤ user.quickIncreaseFpsCount + 1)) := by
    by_cases hfast : user.averaged delay < 50 <;> simp [hfast]
  have hcount : ∀ rate : ℕ,
      (if 3 ≤ if user.averaged delay < delayThreshold150ms then user.increaseFpsCount + 1 else 0 then rate + 1
        else rate) =
      rate + if user.averaged delay < delayThreshold150ms ∧ 3 ≤ user.increaseFpsCount + 1 then 1 else 0 := by
    intro rate
    split_ifs <;> omega
  rw [wantedFps, ← hcount, ← hquick]
  rfl

variable {user} {minimum normalFps fps delay delay' : ℕ}

theorem wantedFps_antitone (h : user.averaged delay ≤ user.averaged delay')
    (hbound : ¬ Unbound minimum fps (user.averaged delay) (user.averaged delay')) :
    user.wantedFps minimum normalFps fps delay' ≤ user.wantedFps minimum normalFps fps delay := by
  rw [wantedFps, wantedFps]
  rcases Nat.lt_or_ge (user.averaged delay') delayThreshold150ms with hgood | hbad
  · refine Nat.add_le_add (adaptFps_good h hgood ?_) ?_
    · simp only [Bool.and_eq_true, decide_eq_true_eq]
      exact fun hquick => ⟨h.trans_lt hquick.1, hquick.2⟩
    · have hgood' := h.trans_lt hgood
      split_ifs <;> omega
  · rw [if_neg fun hcount => hbad.not_gt hcount.1, Nat.add_zero]
    refine Nat.le_trans ?_ (Nat.le_add_right _ _)
    rcases Nat.lt_or_ge (user.averaged delay) delayThreshold150ms with hgood | hbad'
    · exact (adaptFps_le hbad).trans (le_adaptFps hgood)
    · exact adaptFps_bad hbad' h hbound

/-- A delay from 200 milliseconds on is bound to the frame rate before it, a longer one is not. -/
theorem wantedFps_of_unbound (h : Unbound minimum fps (user.averaged delay) (user.averaged delay')) :
    user.wantedFps minimum normalFps fps delay = devideFps fps (user.averaged delay) ∧
      user.wantedFps minimum normalFps fps delay' = delayThreshold150ms * minimum / user.averaged delay' := by
  obtain ⟨hlow, hhigh, hlow', hhigh', hless⟩ := h
  have hbad : delayThreshold150ms ≤ user.averaged delay := le_trans (by decide) hlow
  have hbad' : delayThreshold150ms ≤ user.averaged delay' := le_trans (by decide) hlow'
  have hsmall : delayThreshold150ms * minimum / user.averaged delay' ≤ minimum := div_le_minimum hbad'
  constructor
  · rw [wantedFps, adaptFps_of_bad hbad, if_neg (not_lt.mpr hlow), if_pos hhigh,
      if_neg fun hcount => hbad.not_gt hcount.1, add_zero]
    exact min_eq_right (hless.le.trans hsmall)
  · rw [wantedFps, adaptFps_of_bad hbad', if_neg (by omega), if_neg (by omega), if_pos hhigh',
      if_neg fun hcount => hbad'.not_gt hcount.1, add_zero]

end UserDelay

namespace VideoQoS

/-- What can happen to the controller, from its beginning on. -/
def Reachable (linux : Bool) (qos : VideoQoS) : Prop := ∃ start events, qos = runEvents (step linux) (new start) events

variable (qos : VideoQoS)

/-- The frame rate of the connection after a test delay. -/
def fpsAfter (linux : Bool) (now : ℕ) (id : Int) (delay : ℕ) : Option ℕ :=
  ((qos.userNetworkDelay linux now id delay).users.lookup id).bind (·.delay.fps)

/-- The first delay lowers the frame rate of the controller to less than what the second one asks for. -/
def Raises (avgDelay avgDelay' : ℕ) : Prop :=
  Unbound (frameRates qos.latestQuality.ratio).1 qos.fps avgDelay avgDelay' ∧
    devideFps qos.fps avgDelay < qos.highestFps

theorem users_adjustRatio (now : ℕ) (dynamicScreen : Bool) : (qos.adjustRatio now dynamicScreen).users = qos.users := by
  rw [adjustRatio]
  split
  · rfl
  · split <;> rfl

section UserDelay

variable (linux : Bool) (now : ℕ) {id : Int} (delay : ℕ) {user : UserData} (huser : qos.users.lookup id = some user)
include huser

theorem lookup_userNetworkDelay : (qos.userNetworkDelay linux now id delay).users.lookup id =
      some { user with delay := qos.reaction user.delay delay } := by
  have hmodified : (Entries.modify id (fun user => { user with delay := qos.reaction user.delay delay })
      qos.users).lookup id = some { user with delay := qos.reaction user.delay delay } := by
    rw [Entries.lookup_modify, huser]
    rfl
  rw [userNetworkDelay, huser]
  dsimp only
  split
  · rw [users_adjustRatio]
    exact hmodified
  · exact hmodified

/-- The frame rate that the connection is given is what its delay asks for, in the range. -/
theorem fpsAfter_eq :
    qos.fpsAfter linux now id delay = some (max minFps (min (user.delay.wantedFps (frameRates qos.latestQuality.ratio).1
      (frameRates qos.latestQuality.ratio).2 qos.fps delay) qos.highestFps)) := by
  rw [fpsAfter, qos.lookup_userNetworkDelay linux now delay huser]
  exact UserDelay.fps_networkDelay user.delay _ _ _ _ _

end UserDelay

/-- A longer delay does not lead to a higher frame rate of the connection, except where a delay from 200 milliseconds on
lowers the frame rate further than one from 300 milliseconds on does. -/
theorem fpsAfter_antitone_iff {linux : Bool} {qos : VideoQoS} (hreach : Reachable linux qos) {id : Int}
    {user : UserData} (huser : qos.users.lookup id = some user) (now now' : ℕ) {delay delay' : ℕ}
    (h : user.delay.averaged delay ≤ user.delay.averaged delay') :
    (∃ fps fps', qos.fpsAfter linux now id delay = some fps ∧ qos.fpsAfter linux now' id delay' = some fps' ∧
      (minFps ≤ fps ∧ fps ≤ qos.highestFps) ∧ (minFps ≤ fps' ∧ fps' ≤ qos.highestFps) ∧ fps' ≤ fps) ↔
      ¬ qos.Raises (user.delay.averaged delay) (user.delay.averaged delay') := by
  obtain ⟨start, events, hrun⟩ := hreach
  have hfps : 1 ≤ qos.fps := by
    rw [hrun]
    exact (inRange_runEvents linux start events).fps.1
  have hhighest := qos.highestFps_bounds.1
  rw [qos.fpsAfter_eq linux now delay huser, qos.fpsAfter_eq linux now' delay' huser]
  constructor
  · rintro ⟨fps, fps', hrate, hrate', -, -, hle⟩ ⟨hunbound, hlower⟩
    obtain ⟨hwanted, hwanted'⟩ := UserDelay.wantedFps_of_unbound hunbound
    rw [hwanted, minFps, Option.some_inj] at hrate
    rw [hwanted', minFps, Option.some_inj] at hrate'
    have hless := hunbound.2.2.2.2
    have hpos : 1 ≤ devideFps qos.fps (user.delay.averaged delay) :=
      devideFps_pos hfps (Nat.lt_of_lt_of_le (by decide) hunbound.1)
    omega
  · intro hraises
    refine ⟨_, _, rfl, rfl, ⟨le_max_left _ _, max_le hhighest (min_le_right _ _)⟩,
      ⟨le_max_left _ _, max_le hhighest (min_le_right _ _)⟩, max_le_max le_rfl ?_⟩
    by_cases hunbound : Unbound (frameRates qos.latestQuality.ratio).1 qos.fps (user.delay.averaged delay)
        (user.delay.averaged delay')
    · -- Both rates are cut to the highest one.
      have hcut : qos.highestFps ≤ devideFps qos.fps (user.delay.averaged delay) :=
        not_lt.mp fun hlower => hraises ⟨hunbound, hlower⟩
      rw [(UserDelay.wantedFps_of_unbound hunbound).1, min_eq_right hcut]
      exact min_le_right _ _
    · exact min_le_min (UserDelay.wantedFps_antitone h hunbound) le_rfl

/-- Two connections, the second of which does not answer for two seconds. -/
def unanswered : List VideoQosEvent :=
  [.connectionOpen 0 1 "", .connectionOpen 0 2 "", .delayResponseElapsed 2500 2 2001]

theorem reachable_unanswered : Reachable false (runEvents (step false) (new 0) unanswered) := ⟨0, unanswered, rfl⟩

/-- From a short delay to a long one the frame rate of the first connection falls. -/
theorem fpsAfter_antitone_far : ∃ fps fps',
      (runEvents (step false) (new 0) unanswered).fpsAfter false 3000 1 20 = some fps ∧
      (runEvents (step false) (new 0) unanswered).fpsAfter false 3000 1 700 = some fps' ∧
      (minFps ≤ fps ∧ fps ≤ (runEvents (step false) (new 0) unanswered).highestFps) ∧
      (minFps ≤ fps' ∧ fps' ≤ (runEvents (step false) (new 0) unanswered).highestFps) ∧ fps' ≤ fps := by
  refine (@fpsAfter_antitone_iff false _ reachable_unanswered 1 {} (by decide) 3000 3000 20 700 (by decide)).mpr ?_
  rintro ⟨⟨hlow, -⟩, -⟩
  revert hlow
  decide

/-- From a quarter of a second to 300 milliseconds it rises from two to five frames in a second. -/
theorem fpsAfter_not_antitone :
    ¬ ∀ (linux : Bool) (qos : VideoQoS), Reachable linux qos → ∀ (id : Int) (user : UserData),
      qos.users.lookup id = some user → ∀ now now' delay delay' : ℕ,
      user.delay.averaged delay ≤ user.delay.averaged delay' →
      ∃ fps fps', qos.fpsAfter linux now id delay = some fps ∧ qos.fpsAfter linux now' id delay' = some fps' ∧
        (minFps ≤ fps ∧ fps ≤ qos.highestFps) ∧ (minFps ≤ fps' ∧ fps' ≤ qos.highestFps) ∧ fps' ≤ fps := by
  intro hantitone
  obtain ⟨fps, fps', hrate, hrate', -, -, hle⟩ :=
    hantitone false _ reachable_unanswered 1 {} (by decide) 3000 3000 250 300 (by decide)
  have hlow : (runEvents (step false) (new 0) unanswered).fpsAfter false 3000 1 250 = some 2 := by decide +kernel
  have hhigh : (runEvents (step false) (new 0) unanswered).fpsAfter false 3000 1 300 = some 5 := by decide +kernel
  rw [hlow] at hrate
  rw [hhigh] at hrate'
  cases hrate
  cases hrate'
  exact absurd hle (by decide)

end VideoQoS

end UnyDesk
