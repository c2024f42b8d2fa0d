import UnyDesk.Lib.Entries
import UnyDesk.Lib.Machine
import UnyDesk.Proto.OptionMessage
import UnyDesk.Server.NetworkDelay

/-!
# Frame rate and bit rate of the video services

All connections share one controller. It follows the delays of the connections with a frame rate for each, of which the
smallest is used, and with a ratio of the bit rate. Whatever happens, the frame rate and the ratio stay in their ranges,
so that the checks where they are read do nothing.
-/

namespace UnyDesk

open Lib Entries List ImageQuality

def defaultFps : ℕ := 30
def minFps : ℕ := 1
def maxFps : ℕ := 120
def initFps : ℕ := 15

def brMax : ℚ := 40
def brMin : ℚ := 1 / 5
def brMinHighResolution : ℚ := 1 / 10
def maxBrMultiple : ℚ := 1

def brBest : ℚ := 3 / 2
def brBalanced : ℚ := 67 / 100
def brSpeed : ℚ := 1 / 2

/-- In seconds. -/
def adjustRatioInterval : ℕ := 3

def dynamicScreenThreshold : ℕ := 2

inductive Quality
  | best
  | balanced
  | low
  | custom (ratio : ℚ)
deriving DecidableEq

namespace Quality

def ratio : Quality → ℚ
  | .best => brBest
  | .balanced => brBalanced
  | .low => brSpeed
  | .custom ratio => ratio

end Quality

structure UserData where
  autoAdjustFps : Option ℕ := none
  customFps : Option ℕ := none
  /-- With the time when it was set. -/
  quality : Option (Int × Quality) := none
  delay : UserDelay := {}
  record : Bool := false
deriving DecidableEq

structure DisplayData where
  sendCounter : ℕ := 0
  supportChangingQuality : Bool := false

/-- Instants are in milliseconds; users and displays are in the order of iteration. -/
structure VideoQoS where
  fps : ℕ := defaultFps
  ratio : ℚ := brBalanced
  users : List (Int × UserData) := []
  displays : List (String × DisplayData) := []
  bitrateStore : ℕ := 0
  adjustRatioInstant : ℕ
  abrConfig : Bool := true
  newUserInstant : ℕ

/-- The frame rate of which a delay above the threshold leaves the same share as of the delay. -/
def devideFps (fps avgDelay : ℕ) : ℕ := ⌈(fps : ℚ) / ((avgDelay : ℚ) / delayThreshold150ms)⌉₊

/-- The frame rate that a delay asks for, where `quick` says that it is the third good one. -/
def adaptFps (minFps normalFps fps oldAvgDelay avgDelay : ℕ) (quick : Bool) : ℕ :=
  let dividendMs := delayThreshold150ms * minFps
  if avgDelay < 50 then max minFps (fps + if quick then 5 else if fps < normalFps then 1 else 0)
  else if avgDelay < 100 then max minFps (fps + if avgDelay < oldAvgDelay ∧ fps < normalFps then 1 else 0)
  else if avgDelay < delayThreshold150ms then max minFps fps
  else
    let devideFps := devideFps fps avgDelay
    if avgDelay < 200 then max minFps devideFps
    else if avgDelay < 300 then min minFps devideFps
    else if avgDelay < 600 then dividendMs / avgDelay
    else min (dividendMs / avgDelay) devideFps

/-- A connection that a test delay has been measured for. -/
def UserDelay.networkDelay (user : UserDelay) (minimum normalFps highestFps fps delay : ℕ) : UserDelay :=
  let oldAvgDelay := user.avgDelay
  let user := user.addDelay (max delay 10)
  let avgDelay := max user.avgDelay 10
  let quickIncreaseFpsCount := user.quickIncreaseFpsCount + if avgDelay < 50 then 1 else 0
  let quick := decide (avgDelay < 50) && decide (3 ≤ quickIncreaseFpsCount)
  let fps := adaptFps minimum normalFps fps oldAvgDelay avgDelay quick
  let increaseFpsCount := if avgDelay < delayThreshold150ms then user.increaseFpsCount + 1 else 0
  let fps := if 3 ≤ increaseFpsCount then fps + 1 else fps
  { user with
    quickIncreaseFpsCount := if quick = true ∨ 50 < avgDelay then 0 else quickIncreaseFpsCount
    increaseFpsCount := if 3 ≤ increaseFpsCount then 0 else increaseFpsCount
    fps := some (max minFps (min fps highestFps)) }

namespace VideoQoS

def new (now : ℕ) : VideoQoS := { adjustRatioInstant := now, newUserInstant := now }

variable (qos : VideoQoS)

def getFps : ℕ := if minFps ≤ qos.fps ∧ qos.fps ≤ maxFps then qos.fps else defaultFps

def storeBitrate (bitrate : ℕ) : VideoQoS := { qos with bitrateStore := bitrate }

def getRatio : VideoQoS × ℚ :=
  let qos := if qos.ratio < brMinHighResolution ∨ brMax < qos.ratio then { qos with ratio := brBalanced } else qos
  (qos, qos.ratio)

def setSupportChangingQuality (videoServiceName : String) (support : Bool) : VideoQoS :=
  { qos with displays := Entries.modify videoServiceName ({ · with supportChangingQuality := support }) qos.displays }

def inVbrState : Bool := qos.abrConfig && qos.displays.all fun entry => entry.2.supportChangingQuality

/-- The frame rate that a connection allows. -/
def userFps (user : UserData) : ℕ :=
  let fps := user.customFps.getD defaultFps
  match user.autoAdjustFps with
  | some autoAdjustFps => if fps = 0 ∨ autoAdjustFps < fps then autoAdjustFps else fps
  | none => fps

def highestFps : ℕ :=
  let fps := ((qos.users.map fun entry => userFps entry.2).filter (minFps ≤ ·)).min?.getD defaultFps
  max minFps (min fps maxFps)

/-- Among equal times it is the one that comes later in the order of iteration. -/
def laterQuality (latest : Option (Int × Quality)) (quality : Int × Quality) : Option (Int × Quality) :=
  match latest with
  | some latest => if quality.1 < latest.1 then some latest else some quality
  | none => some quality

def latestQuality : Quality :=
  let latest := (qos.users.filterMap fun entry => entry.2.quality).foldl laterQuality none
  (latest.getD (0, .balanced)).2

def adjustFps (now : ℕ) : VideoQoS :=
  let fps := (qos.users.map fun entry => entry.2.delay.fps.getD initFps).min?.getD initFps
  let fps := if qos.users.any fun entry => entry.2.delay.responseDelayed then min fps (minFps + 1) else fps
  let fps := if (now - qos.newUserInstant) / 1000 < 1 then min fps initFps else fps
  { qos with fps := max minFps (min fps qos.highestFps) }

/-- What the ratio is multiplied by. -/
def ratioFactor (maxDelay : ℕ) (dynamicScreen : Bool) : ℚ :=
  if maxDelay < 50 then if dynamicScreen then 23 / 20 else 1
  else if maxDelay < 100 then if dynamicScreen then 11 / 10 else 1
  else if maxDelay < delayThreshold150ms then if dynamicScreen then 21 / 20 else 1
  else if maxDelay < 200 then 19 / 20
  else if maxDelay < 300 then 9 / 10
  else if maxDelay < 500 then 17 / 20
  else 4 / 5

/-- The smallest ratio of a quality. -/
def minRatio (quality : Quality) (ratio1mbps : Option ℚ) : ℚ :=
  match quality with
  | .best => max (min (brBest / (5 / 2)) (ratio1mbps.getD (brBest / (5 / 2)))) brMin
  | .balanced =>
    let low := min (brBalanced / 2) (2 / 5)
    max (min low (ratio1mbps.getD low)) brMinHighResolution
  | .low | .custom _ => brMinHighResolution

def adjustRatio (now : ℕ) (dynamicScreen : Bool) : VideoQoS :=
  if qos.inVbrState = false then qos
  else
    match (qos.users.map fun entry => entry.2.delay.avgDelay).max? with
    | none => qos
    | some maxDelay =>
      let ratio1mbps :=
        if 0 < qos.bitrateStore then some (max (qos.ratio * 1000 / qos.bitrateStore) brMinHighResolution) else none
      let ratioAdd150kbps :=
        if 0 < qos.bitrateStore then some (((qos.bitrateStore + 150) % 2 ^ 32 : ℕ) * qos.ratio / qos.bitrateStore)
        else none
      let v := qos.ratio * ratioFactor maxDelay dynamicScreen
      let v :=
        match ratioAdd150kbps with
        | some ratioAdd150kbps =>
          if ratioAdd150kbps < v ∧ qos.ratio < ratioAdd150kbps ∧ brSpeed ≤ qos.ratio then ratioAdd150kbps else v
        | none => v
      { qos with
        ratio := max (minRatio qos.latestQuality ratio1mbps) (min v (qos.latestQuality.ratio * maxBrMultiple))
        adjustRatioInstant := now }

def onConnectionOpen (now : ℕ) (id : Int) (enableAbr : String) : VideoQoS :=
  { qos with users := Entries.insert id {} qos.users, abrConfig := enableAbr != "N", newUserInstant := now }

def onConnectionClose (now : ℕ) (id : Int) : VideoQoS :=
  let qos := { qos with users := Entries.erase id qos.users }
  if qos.users = [] then new now else qos

def userCustomFps (id : Int) (fps : ℕ) : VideoQoS :=
  if fps < minFps ∨ maxFps < fps then qos
  else { qos with users := Entries.modify id ({ · with customFps := some fps }) qos.users }

def userAutoAdjustFps (id : Int) (fps : ℕ) : VideoQoS :=
  if fps < minFps ∨ maxFps < fps then qos
  else { qos with users := Entries.modify id ({ · with autoAdjustFps := some fps }) qos.users }

/-- A custom quality is in the bits from the eighth on. -/
def convertQuality (q : Int) : Quality :=
  if q = ProtoEnum.value balanced then .balanced
  else if q = ProtoEnum.value low then .low
  else if q = ProtoEnum.value best then .best
  else .custom (max brMin (min (((q / 2 ^ 8 % 2 ^ 12 * 2 : Int) : ℚ) / 100) brMax))

def userImageQuality (time id imageQuality : Int) : VideoQoS :=
  if (qos.users.lookup id).isSome then
    let quality := some (time, convertQuality imageQuality)
    let users := Entries.modify id (fun user => { user with quality }) qos.users
    let qos := { qos with users }
    { qos with ratio := qos.latestQuality.ratio }
  else qos

def userRecord (id : Int) (v : Bool) : VideoQoS :=
  { qos with users := Entries.modify id ({ · with record := v }) qos.users }

/-- For a quality the smallest frame rate and the one that a good delay leads to. -/
def frameRates (targetRatio : ℚ) : ℕ × ℕ :=
  if brBest ≤ targetRatio then (8, 16) else if brBalanced ≤ targetRatio then (10, 20) else (12, 24)

/-- What a test delay makes of the connection. -/
def reaction (user : UserDelay) (delay : ℕ) : UserDelay :=
  let (minimum, normalFps) := frameRates qos.latestQuality.ratio
  user.networkDelay minimum normalFps qos.highestFps qos.fps delay

def userNetworkDelay (linux : Bool) (now : ℕ) (id : Int) (delay : ℕ) : VideoQoS :=
  match qos.users.lookup id with
  | none => qos.adjustFps now
  | some user =>
    let users := Entries.modify id (fun user => { user with delay := qos.reaction user.delay delay }) qos.users
    let adjusted := { qos with users }.adjustFps now
    -- The first delay of the connection.
    if user.delay.fps.isNone ∧ linux = false then adjusted.adjustRatio now false else adjusted

def userDelayResponseElapsed (now : ℕ) (id : Int) (elapsed : ℕ) : VideoQoS :=
  if (qos.users.lookup id).isSome then
    if 2000 < elapsed then
      let late (user : UserDelay) := { user with responseDelayed := true }.addDelay (elapsed % 2 ^ 32)
      let users := Entries.modify id (fun user => { user with delay := late user.delay }) qos.users
      { qos with users }.adjustFps now
    else
      let inTime (user : UserDelay) := { user with responseDelayed := false }
      { qos with users := Entries.modify id (fun user => { user with delay := inTime user.delay }) qos.users }
  else qos

def newDisplay (videoServiceName : String) : VideoQoS :=
  { qos with displays := Entries.insert videoServiceName {} qos.displays }

def removeDisplay (videoServiceName : String) : VideoQoS :=
  { qos with displays := Entries.erase videoServiceName qos.displays }

def updateDisplayData (now : ℕ) (videoServiceName : String) (sendCounter : ℕ) : VideoQoS :=
  let displays := Entries.modify videoServiceName (fun display =>
    { display with sendCounter := display.sendCounter + sendCounter }) qos.displays
  let qos := { qos with displays }.adjustFps now
  if qos.inVbrState then
    if adjustRatioInterval ≤ (now - qos.adjustRatioInstant) / 1000 then
      let dynamicScreen :=
        qos.displays.any fun entry => adjustRatioInterval * dynamicScreenThreshold ≤ entry.2.sendCounter
      let displays := qos.displays.map fun entry => (entry.1, ({ entry.2 with sendCounter := 0 } : DisplayData))
      { qos with displays }.adjustRatio now dynamicScreen
    else qos
  else { qos with ratio := qos.latestQuality.ratio }

end VideoQoS

inductive VideoQosEvent
  | connectionOpen (now : ℕ) (id : Int) (enableAbr : String)
  | connectionClose (now : ℕ) (id : Int)
  | customFps (id : Int) (fps : ℕ)
  | autoAdjustFps (id : Int) (fps : ℕ)
  | imageQuality (time id imageQuality : Int)
  | record (id : Int) (v : Bool)
  | networkDelay (now : ℕ) (id : Int) (delay : ℕ)
  | delayResponseElapsed (now : ℕ) (id : Int) (elapsed : ℕ)
  | newDisplay (videoServiceName : String)
  | removeDisplay (videoServiceName : String)
  | displayData (now : ℕ) (videoServiceName : String) (sendCounter : ℕ)
  | supportChangingQuality (videoServiceName : String) (support : Bool)
  | storeBitrate (bitrate : ℕ)
  | getRatio
  /-- The order of iteration becomes another one. -/
  | rehash (users : List (Int × UserData))

namespace VideoQoS

def step (linux : Bool) (qos : VideoQoS) : VideoQosEvent → VideoQoS
  | .connectionOpen now id enableAbr => qos.onConnectionOpen now id enableAbr
  | .connectionClose now id => qos.onConnectionClose now id
  | .customFps id fps => qos.userCustomFps id fps
  | .autoAdjustFps id fps => qos.userAutoAdjustFps id fps
  | .imageQuality time id imageQuality => qos.userImageQuality time id imageQuality
  | .record id v => qos.userRecord id v
  | .networkDelay now id delay => qos.userNetworkDelay linux now id delay
  | .delayResponseElapsed now id elapsed => qos.userDelayResponseElapsed now id elapsed
  | .newDisplay videoServiceName => qos.newDisplay videoServiceName
  | .removeDisplay videoServiceName => qos.removeDisplay videoServiceName
  | .displayData now videoServiceName sendCounter => qos.updateDisplayData now videoServiceName sendCounter
  | .supportChangingQuality videoServiceName support => qos.setSupportChangingQuality videoServiceName support
  | .storeBitrate bitrate => qos.storeBitrate bitrate
  | .getRatio => qos.getRatio.1
  | .rehash users => if users.isPerm qos.users then { qos with users } else qos

/-- The quality of the connection, if one was set, is in the range of the custom ones. -/
def QualityInRange (user : UserData) : Prop := ∀ set ∈ user.quality, brMin ≤ set.2.ratio ∧ set.2.ratio ≤ brMax

/-- The frame rate that is read is the one that is stored, and so is the ratio. -/
structure InRange (qos : VideoQoS) : Prop where
  fps : minFps ≤ qos.fps ∧ qos.fps ≤ maxFps
  ratio : brMinHighResolution ≤ qos.ratio ∧ qos.ratio ≤ brMax
  quality : ∀ entry ∈ qos.users, QualityInRange entry.2

open InRange

section Range

variable {qos : VideoQoS}

theorem highestFps_bounds (qos : VideoQoS) : minFps ≤ qos.highestFps ∧ qos.highestFps ≤ maxFps :=
  ⟨le_max_left _ _, max_le (by decide) (min_le_right _ _)⟩

theorem fps_adjustFps (qos : VideoQoS) (now : ℕ) :
    minFps ≤ (qos.adjustFps now).fps ∧ (qos.adjustFps now).fps ≤ maxFps :=
  ⟨le_max_left _ _, max_le (by decide) ((min_le_right _ _).trans qos.highestFps_bounds.2)⟩

theorem mem_of_laterQuality {qualities : List (Int × Quality)} {latest : Option (Int × Quality)} {set : Int × Quality}
    (h : qualities.foldl laterQuality latest = some set) : set ∈ qualities ∨ latest = some set := by
  induction qualities generalizing latest with
  | nil => exact .inr h
  | cons quality qualities ih =>
    rcases ih h with hmem | hlater
    · exact .inl (mem_cons_of_mem quality hmem)
    · cases latest with
      | none =>
        cases hlater
        exact .inl mem_cons_self
      | some latest =>
        rw [laterQuality] at hlater
        split at hlater
        · exact .inr hlater
        · cases hlater
          exact .inl mem_cons_self

/-- The quality that was set last is one of those that are set, or the balanced one. -/
theorem latestQuality_cases (qos : VideoQoS) :
    qos.latestQuality = .balanced ∨ ∃ entry ∈ qos.users, ∃ set ∈ entry.2.quality, qos.latestQuality = set.2 := by
  rw [latestQuality]
  cases hlatest : (qos.users.filterMap fun entry => entry.2.quality).foldl laterQuality none with
  | none => exact .inl rfl
  | some set =>
    rcases mem_of_laterQuality hlatest with hmem | hnone
    · obtain ⟨entry, hentry, hset⟩ := mem_filterMap.mp hmem
      exact .inr ⟨entry, hentry, set, hset, rfl⟩
    · cases hnone

theorem ratio_latestQuality (h : InRange qos) : brMin ≤ qos.latestQuality.ratio ∧ qos.latestQuality.ratio ≤ brMax := by
  rcases qos.latestQuality_cases with heq | ⟨entry, hentry, set, hset, heq⟩
  · rw [heq]
    norm_num [Quality.ratio, brMin, brBalanced, brMax]
  · rw [heq]
    exact h.quality entry hentry set hset

theorem ratio_convertQuality (q : Int) : brMin ≤ (convertQuality q).ratio ∧ (convertQuality q).ratio ≤ brMax := by
  rw [convertQuality]
  split
  · norm_num [Quality.ratio, brMin, brBalanced, brMax]
  · split
    · norm_num [Quality.ratio, brMin, brSpeed, brMax]
    · split
      · norm_num [Quality.ratio, brMin, brBest, brMax]
      · exact ⟨le_max_left _ _, max_le (by norm_num [brMin, brMax]) (min_le_right _ _)⟩

theorem brMinHighResolution_le_brMin : brMinHighResolution ≤ brMin := by norm_num [brMinHighResolution, brMin]

/-- The smallest ratio of a quality is not above its ratio, so that there is one between the two. -/
theorem minRatio_bounds {quality : Quality} (hquality : brMin ≤ quality.ratio) (ratio1mbps : Option ℚ) :
    brMinHighResolution ≤ minRatio quality ratio1mbps ∧ minRatio quality ratio1mbps ≤ quality.ratio := by
  cases quality with
  | best =>
    refine ⟨brMinHighResolution_le_brMin.trans (le_max_right _ _), max_le ((min_le_left _ _).trans ?_) hquality⟩
    norm_num [Quality.ratio, brBest]
  | balanced =>
    refine ⟨le_max_right _ _, max_le ((min_le_left _ _).trans ((min_le_left _ _).trans ?_)) ?_⟩
    · norm_num [Quality.ratio, brBalanced]
    · exact brMinHighResolution_le_brMin.trans hquality
  | low => exact ⟨le_rfl, brMinHighResolution_le_brMin.trans hquality⟩
  | custom ratio => exact ⟨le_rfl, brMinHighResolution_le_brMin.trans hquality⟩

/-- An adjustment of the ratio changes nothing but the ratio, and the time of the adjustment. -/
theorem adjustRatio_cases (h : brMin ≤ qos.latestQuality.ratio ∧ qos.latestQuality.ratio ≤ brMax) (now : ℕ)
    (dynamicScreen : Bool) :
    qos.adjustRatio now dynamicScreen = qos ∨ ∃ ratio, brMinHighResolution ≤ ratio ∧ ratio ≤ brMax ∧
      qos.adjustRatio now dynamicScreen = { qos with ratio, adjustRatioInstant := now } := by
  rw [adjustRatio]
  split
  · exact .inl rfl
  · split
    · exact .inl rfl
    · right
      refine ⟨_, ?_, ?_, rfl⟩
      · exact (minRatio_bounds h.1 _).1.trans (le_max_left _ _)
      · refine max_le ((minRatio_bounds h.1 _).2.trans h.2) ((min_le_right _ _).trans ?_)
        rw [maxBrMultiple, mul_one]
        exact h.2

theorem inRange_new (now : ℕ) : InRange (new now) := by
  refine ⟨⟨show minFps ≤ defaultFps by decide, show defaultFps ≤ maxFps by decide⟩, ?_, ?_⟩
  · norm_num [new, brMinHighResolution, brBalanced, brMax]
  · intro entry hentry
    exact absurd hentry not_mem_nil

section InRange

variable (h : InRange qos)
include h

namespace InRange

theorem adjustFps (now : ℕ) : InRange (qos.adjustFps now) :=
  ⟨qos.fps_adjustFps now, h.ratio, h.quality⟩

theorem adjustRatio (now : ℕ) (dynamicScreen : Bool) : InRange (qos.adjustRatio now dynamicScreen) := by
  rcases adjustRatio_cases (ratio_latestQuality h) now dynamicScreen with heq | ⟨ratio, hlow, hhigh, heq⟩
  · rw [heq]
    exact h
  · rw [heq]
    exact ⟨h.fps, ⟨hlow, hhigh⟩, h.quality⟩

/-- The ratio of the quality that was set last is in the range. -/
theorem setRatio : InRange { qos with ratio := qos.latestQuality.ratio } :=
  ⟨h.fps, (ratio_latestQuality h).imp_left brMinHighResolution_le_brMin.trans, h.quality⟩

theorem modify (id : Int) {change : UserData → UserData}
    (hchange : ∀ user, QualityInRange user → QualityInRange (change user)) :
    InRange { qos with users := Entries.modify id change qos.users } :=
  ⟨h.fps, h.ratio, forall_modify h.quality hchange⟩

/-- The displays are not in any range. -/
theorem setDisplays (displays : List (String × DisplayData)) : InRange { qos with displays } :=
  ⟨h.fps, h.ratio, h.quality⟩

theorem onConnectionClose (now : ℕ) (id : Int) : InRange (qos.onConnectionClose now id) := by
  rw [VideoQoS.onConnectionClose]
  dsimp only
  split
  · exact inRange_new now
  · exact ⟨h.fps, h.ratio, forall_erase h.quality⟩

theorem userImageQuality (time id imageQuality : Int) :
    InRange (qos.userImageQuality time id imageQuality) := by
  rw [VideoQoS.userImageQuality]
  split
  · refine setRatio (modify h id ?_)
    intro user huser set hset
    cases hset
    exact ratio_convertQuality imageQuality
  · exact h

theorem userNetworkDelay (linux : Bool) (now : ℕ) (id : Int) (delay : ℕ) :
    InRange (qos.userNetworkDelay linux now id delay) := by
  rw [VideoQoS.userNetworkDelay]
  split
  · exact h.adjustFps now
  · dsimp only
    split
    · exact adjustRatio (adjustFps (h.modify id (by intro user huser; exact huser)) now) now false
    · exact adjustFps (h.modify id (by intro user huser; exact huser)) now

theorem userDelayResponseElapsed (now : ℕ) (id : Int) (elapsed : ℕ) :
    InRange (qos.userDelayResponseElapsed now id elapsed) := by
  rw [VideoQoS.userDelayResponseElapsed]
  split
  · split
    · exact adjustFps (h.modify id (by intro user huser; exact huser)) now
    · exact modify h id (by intro user huser; exact huser)
  · exact h

theorem updateDisplayData (now : ℕ) (videoServiceName : String) (sendCounter : ℕ) :
    InRange (qos.updateDisplayData now videoServiceName sendCounter) := by
  rw [VideoQoS.updateDisplayData]
  have hadjusted := (h.setDisplays (Entries.modify videoServiceName (fun display =>
    { display with sendCounter := display.sendCounter + sendCounter }) qos.displays)).adjustFps now
  dsimp only
  split
  · split
    · exact (hadjusted.setDisplays _).adjustRatio now _
    · exact hadjusted
  · exact hadjusted.setRatio

theorem getRatio : qos.getRatio = (qos, qos.ratio) := by
  have hratio : ¬(qos.ratio < brMinHighResolution ∨ brMax < qos.ratio) := by
    rw [not_or, not_lt, not_lt]
    exact h.ratio
  rw [VideoQoS.getRatio, if_neg hratio]

/-- Whatever happens, the frame rate, the ratio and the qualities stay in their ranges. -/
theorem step (linux : Bool) (event : VideoQosEvent) : InRange (qos.step linux event) := by
  cases event with
  | connectionOpen now id enableAbr =>
    refine ⟨h.fps, h.ratio, forall_insert h.quality ?_⟩
    intro set hset
    cases hset
  | connectionClose now id => exact h.onConnectionClose now id
  | customFps id fps =>
    change InRange (qos.userCustomFps id fps)
    rw [userCustomFps]
    split
    · exact h
    · exact modify h id (by intro user huser; exact huser)
  | autoAdjustFps id fps =>
    change InRange (qos.userAutoAdjustFps id fps)
    rw [userAutoAdjustFps]
    split
    · exact h
    · exact modify h id (by intro user huser; exact huser)
  | imageQuality time id imageQuality => exact h.userImageQuality time id imageQuality
  | record id v => exact modify h id (by intro user huser; exact huser)
  | networkDelay now id delay => exact h.userNetworkDelay linux now id delay
  | delayResponseElapsed now id elapsed => exact h.userDelayResponseElapsed now id elapsed
  | newDisplay videoServiceName => exact h.setDisplays _
  | removeDisplay videoServiceName => exact h.setDisplays _
  | displayData now videoServiceName sendCounter => exact h.updateDisplayData now videoServiceName sendCounter
  | supportChangingQuality videoServiceName support => exact h.setDisplays _
  | storeBitrate bitrate => exact ⟨h.fps, h.ratio, h.quality⟩
  | getRatio =>
    change InRange qos.getRatio.1
    rw [h.getRatio]
    exact h
  | rehash users =>
    change InRange (if users.isPerm qos.users then { qos with users } else qos)
    split
    · rename_i hperm
      exact ⟨h.fps, h.ratio, fun entry hentry => h.quality entry ((isPerm_iff.mp hperm).mem_iff.mp hentry)⟩
    · exact h

end InRange

end InRange

theorem inRange_runEvents (linux : Bool) (start : ℕ) (events : List VideoQosEvent) :
    InRange (runEvents (step linux) (new start) events) :=
  runEvents_invariant_of_step (fun _ event h => h.step linux event) (inRange_new start) events

/-- After every run of calls the checks of the two getters pass: the stored values are read, and they are in range. -/
theorem getFps_run (linux : Bool) (start : ℕ) (events : List VideoQosEvent) :
    let qos := runEvents (step linux) (new start) events
    (qos.getFps = qos.fps ∧ minFps ≤ qos.fps ∧ qos.fps ≤ maxFps) ∧
      qos.getRatio = (qos, qos.ratio) ∧ brMinHighResolution ≤ qos.ratio ∧ qos.ratio ≤ brMax := by
  intro qos
  have h : InRange qos := inRange_runEvents linux start events
  exact ⟨⟨if_pos h.fps, h.fps⟩, h.getRatio, h.ratio⟩

end Range

end VideoQoS

end UnyDesk
