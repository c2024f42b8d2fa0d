import Mathlib.Algebra.Group.Nat.Defs
import UnyDesk.Lib.Machine
import UnyDesk.Proto.Message

/-!
# The rendezvous mediator

A device registers its id and its public key with the rendezvous server by datagrams. The network may lose, delay, repeat and
reorder them, so whatever was sent once can arrive any number of times from then on. An answer to a registration does not say
which one it answers, and the id changes when the server knows it from another device.
-/

namespace UnyDesk.Rendezvous

open Lib List

/-- `register_pk_response::Result` -/
inductive PkResult
  | ok
  | uuidMismatch
  | idExists
  | tooFrequent
  | invalidIdFormat
  | notSupport
  | serverError
  | notDeployed
deriving DecidableEq

structure RegisterPk where
  id : String
  uuid : Bytes
  pk : Bytes
  noRegisterDevice : Bool

/-- What the mediator sends. -/
inductive Request
  | registerPk (msg : RegisterPk)
  | registerPeer (id : String) (serial : Int32)

/-- What the server sends. A response to a registration is kept with the message that it answers, which it does not
mention. -/
inductive Answer
  | registerPeerResponse (requestPk : Bool)
  | registerPkResponse (result : PkResult) (keepAlive : Int32) (msg : RegisterPk)

/-- The part of `Config` that the mediator uses. The id is not empty, which loading sees to. -/
structure MediatorConfig where
  id : String
  pk : Bytes
  uuid : Bytes
  serial : Int32 := 0
  noRegisterDevice : Bool := false
  keyConfirmed : Bool := false
  keysConfirmed : String → Option Bool := fun _ => none

namespace MediatorConfig

variable (config : MediatorConfig)

def setKeyConfirmed (v : Bool) : MediatorConfig :=
  if config.keyConfirmed = v then config
  else if v then { config with keyConfirmed := v }
  else { config with keyConfirmed := v, keysConfirmed := fun _ => none }

def getHostKeyConfirmed (host : String) : Bool := config.keysConfirmed host = some true

def setHostKeyConfirmed (host : String) (v : Bool) : MediatorConfig :=
  if config.getHostKeyConfirmed host = v then config
  else { config with keysConfirmed := fun h => if h = host then some v else config.keysConfirmed h }

/-- With the number that is drawn. -/
def updateId (draw : ℕ) : MediatorConfig := { config with id := toString (1000000000 + draw % 1000000000) }

end MediatorConfig

/-- `parse::<i32>().is_ok()` -/
def parsesI32 (text : List Char) : Bool :=
  let (negative, digits) := match text with
    | '-' :: digits => (true, digits)
    | '+' :: digits => (false, digits)
    | digits => (false, digits)
  !digits.isEmpty && digits.all Char.isDigit &&
    digits.foldl (fun n c => 10 * n + (c.toNat - '0'.toNat)) 0 ≤ if negative then 2 ^ 31 else 2 ^ 31 - 1

def getHostPrefix (host : String) : String :=
  let x := host.toList.takeWhile (· ≠ '.')
  if parsesI32 x then host else String.ofList x

/-- In milliseconds. -/
def minRegTimeout : ℕ := 3000
def maxRegTimeout : ℕ := 30000
def regInterval : ℕ := 15000
def deployRetryInterval : ℕ := 30000

/-- The mediator of a host in UDP mode, with what the network and the server have. -/
structure Mediator where
  host : String
  config : MediatorConfig
  /-- In milliseconds. -/
  keepAlive : Int32 := 60000
  solvingPkMismatch : String := ""
  needsDeploy : Bool := false
  lastNotDeployedRegister : Option ℕ := none
  sentRegisterPk : Bool := false
  usingPublicServer : Bool := true
  lastRegisterResp : Option ℕ := none
  lastRegisterSent : Option ℕ := none
  regTimeout : ℕ := minRegTimeout
  fails : ℕ := 0
  /-- In milliseconds. -/
  now : ℕ := 0
  /-- All that was sent to the server. -/
  requests : List Request := []
  /-- All that the server sent. -/
  answers : List Answer := []
  /-- The ids and the public keys of the registrations that the server has accepted. -/
  accepted : List (String × Bytes) := []

namespace Mediator

variable (s : Mediator)

def hostPrefix : String := getHostPrefix s.host

def send (msgOut : Request) : Mediator := { s with requests := s.requests ++ [msgOut] }

/-- The time of the last registration without a deployment is less than the interval ago. -/
def recentlyNotDeployed : Bool := s.lastNotDeployedRegister.any fun t => s.now - t < deployRetryInterval

def deployRegisterThrottled : Bool := s.needsDeploy && s.recentlyNotDeployed

def sendRegisterPk : Mediator :=
  { s with sentRegisterPk := true }.send (.registerPk
    { id := s.config.id, uuid := s.config.uuid, pk := s.config.pk, noRegisterDevice := s.config.noRegisterDevice })

def registerPk : Mediator :=
  if s.needsDeploy then
    if s.recentlyNotDeployed then s else { s with lastNotDeployedRegister := some s.now }.sendRegisterPk
  else { s with lastNotDeployedRegister := none }.sendRegisterPk

def handleUuidMismatch (draw : ℕ) : Mediator :=
  if s.solvingPkMismatch = "" ∨ s.solvingPkMismatch = s.host then
    { s with config := (s.config.setKeyConfirmed false).updateId draw, solvingPkMismatch := s.host }.registerPk
  else s

def registerPeer : Mediator :=
  if ¬ (s.solvingPkMismatch = "" ∨ s.solvingPkMismatch = s.host) then s
  else if !s.config.keyConfirmed || !s.config.getHostKeyConfirmed s.hostPrefix then s.registerPk
  else s.send (.registerPeer s.config.id s.config.serial)

/-- The numbers of the timer; the latency of the host is left out. -/
def updateLatency : Mediator :=
  { s with lastRegisterResp := some s.now, fails := 0, regTimeout := minRegTimeout, lastRegisterSent := none }

def updateKeepAlive (keepAlive : Int32) : Mediator :=
  if keepAlive > 0 then { s with keepAlive := keepAlive * 1000 } else s

/-- The result of a registration. -/
def handlePkResult (draw : ℕ) : PkResult → Mediator
  | .ok =>
    { s with
      config := (s.config.setKeyConfirmed true).setHostKeyConfirmed s.hostPrefix true
      solvingPkMismatch := ""
      needsDeploy := false }
  | .uuidMismatch => s.handleUuidMismatch draw
  | .notDeployed =>
    { s with
      needsDeploy := true
      config := (s.config.setKeyConfirmed false).setHostKeyConfirmed s.hostPrefix false }
  | _ => s

def handleResp (draw : ℕ) : Answer → Mediator
  | .registerPeerResponse requestPk => if requestPk then s.updateLatency.registerPk else s.updateLatency
  | .registerPkResponse result keepAlive _ => (s.updateLatency.handlePkResult draw result).updateKeepAlive keepAlive

/-- A tick of the timer. -/
def tick : Mediator :=
  if s.deployRegisterThrottled then s
  else
    let expired := s.lastRegisterResp.all fun x => s.now - x ≥ regInterval
    let timeout := s.lastRegisterSent.any fun x => s.now - x ≥ s.regTimeout
    let s := if s.usingPublicServer ∧ timeout ∧ s.regTimeout < maxRegTimeout then
      { s with regTimeout := s.regTimeout + minRegTimeout } else s
    if timeout ∨ (s.lastRegisterSent = none ∧ expired) then
      let s := if timeout then { s with fails := s.fails + 1 } else s
      { s.registerPeer with lastRegisterSent := some s.now }
    else s

/-- An honest server handles a message: it accepts a registration when it answers `OK`, and otherwise it does not. -/
def serve (result : PkResult) (keepAlive : Int32) (requestPk : Bool) : Request → Mediator
  | .registerPeer _ _ => { s with answers := s.answers ++ [.registerPeerResponse requestPk] }
  | .registerPk msg =>
    { s with
      accepted := if result = .ok then s.accepted ++ [(msg.id, msg.pk)] else s.accepted
      answers := s.answers ++ [.registerPkResponse result keepAlive msg] }

end Mediator

/-- What happens next; the numbers say which of the messages ever sent arrives. -/
inductive Event
  | elapse (ms : ℕ)
  /-- Time passes until a tick. -/
  | tick (elapsed : ℕ)
  | serve (i : ℕ) (result : PkResult) (keepAlive : Int32) (requestPk : Bool)
  | deliver (i draw : ℕ)

namespace Mediator

variable (s : Mediator)

def step : Event → Mediator
  | .elapse ms => { s with now := s.now + ms }
  | .tick elapsed => tick { s with now := s.now + elapsed }
  | .serve i result keepAlive requestPk =>
    match s.requests[i]? with
    | some request => s.serve result keepAlive requestPk request
    | none => s
  | .deliver i draw =>
    match s.answers[i]? with
    | some answer => s.handleResp draw answer
    | none => s

/-- Both flags are set. -/
def Confirmed : Prop := s.config.keyConfirmed = true ∧ s.config.getHostKeyConfirmed s.hostPrefix = true

/-- The server has accepted the current id with the current key. -/
def Registered : Prop := (s.config.id, s.config.pk) ∈ s.accepted

end Mediator

/-- A mediator that starts, with what the server knows and the flags that were stored. -/
structure Start where
  host : String
  config : MediatorConfig
  usingPublicServer : Bool
  accepted : List (String × Bytes)
  /-- Flags of an earlier run are right. -/
  registered : config.keyConfirmed = true → config.getHostKeyConfirmed (getHostPrefix host) = true →
    (config.id, config.pk) ∈ accepted

def Start.state (start : Start) : Mediator :=
  { host := start.host, config := start.config, usingPublicServer := start.usingPublicServer, accepted := start.accepted }

/-- An `OK` is delivered while the id and the key are those of the registration that it answers, or when the server has
accepted the current ones as well. -/
def Timely (s : Mediator) : Event → Prop
  | .deliver i _ =>
    match s.answers[i]? with
    | some (.registerPkResponse .ok _ msg) => (msg.id = s.config.id ∧ msg.pk = s.config.pk) ∨ s.Registered
    | _ => True
  | _ => True

namespace Mediator

variable {s s' : Mediator}

/-- The configuration and what the server has said are the same. -/
structure SameStanding (s s' : Mediator) : Prop where
  host : s'.host = s.host
  config : s'.config = s.config
  accepted : s'.accepted = s.accepted
  answers : s'.answers = s.answers

section

variable (h : SameStanding s s')
include h

theorem SameStanding.trans {s'' : Mediator} (h' : SameStanding s' s'') : SameStanding s s'' where
  host := h'.host.trans h.host
  config := h'.config.trans h.config
  accepted := h'.accepted.trans h.accepted
  answers := h'.answers.trans h.answers

theorem SameStanding.confirmed_iff : s'.Confirmed ↔ s.Confirmed := by
  simp only [Confirmed, hostPrefix, h.host, h.config]

theorem SameStanding.registered_iff : s'.Registered ↔ s.Registered := by
  simp only [Registered, h.config, h.accepted]

end

section

variable (s : Mediator)

theorem sameStanding_registerPk : SameStanding s s.registerPk := by
  unfold registerPk
  split_ifs
  · exact ⟨rfl, rfl, rfl, rfl⟩
  · exact ⟨rfl, rfl, rfl, rfl⟩
  · exact ⟨rfl, rfl, rfl, rfl⟩

theorem sameStanding_registerPeer : SameStanding s s.registerPeer := by
  unfold registerPeer
  split_ifs
  · exact sameStanding_registerPk s
  · exact ⟨rfl, rfl, rfl, rfl⟩
  · exact ⟨rfl, rfl, rfl, rfl⟩

theorem sameStanding_updateKeepAlive (keepAlive : Int32) : SameStanding s (s.updateKeepAlive keepAlive) := by
  unfold updateKeepAlive
  split_ifs <;> exact ⟨rfl, rfl, rfl, rfl⟩

theorem sameStanding_tick : SameStanding s s.tick := by
  unfold tick
  dsimp only
  split_ifs
  · exact ⟨rfl, rfl, rfl, rfl⟩
  all_goals first
    | exact ⟨rfl, rfl, rfl, rfl⟩
    | exact ⟨(sameStanding_registerPeer _).host, (sameStanding_registerPeer _).config,
        (sameStanding_registerPeer _).accepted, (sameStanding_registerPeer _).answers⟩

theorem sameStanding_updateLatency : SameStanding s s.updateLatency := ⟨rfl, rfl, rfl, rfl⟩

end

end Mediator

namespace MediatorConfig

variable (config : MediatorConfig)

@[simp] theorem id_setKeyConfirmed (v : Bool) : (config.setKeyConfirmed v).id = config.id := by
  unfold setKeyConfirmed
  split_ifs <;> rfl

@[simp] theorem pk_setKeyConfirmed (v : Bool) : (config.setKeyConfirmed v).pk = config.pk := by
  unfold setKeyConfirmed
  split_ifs <;> rfl

@[simp] theorem keyConfirmed_setKeyConfirmed (v : Bool) : (config.setKeyConfirmed v).keyConfirmed = v := by
  unfold setKeyConfirmed
  split_ifs with hsame
  · exact hsame
  · rfl
  · rfl

@[simp] theorem id_setHostKeyConfirmed (host : String) (v : Bool) :
    (config.setHostKeyConfirmed host v).id = config.id := by
  unfold setHostKeyConfirmed
  split_ifs <;> rfl

@[simp] theorem pk_setHostKeyConfirmed (host : String) (v : Bool) :
    (config.setHostKeyConfirmed host v).pk = config.pk := by
  unfold setHostKeyConfirmed
  split_ifs <;> rfl

@[simp] theorem keyConfirmed_setHostKeyConfirmed (host : String) (v : Bool) :
    (config.setHostKeyConfirmed host v).keyConfirmed = config.keyConfirmed := by
  unfold setHostKeyConfirmed
  split_ifs <;> rfl

@[simp] theorem getHostKeyConfirmed_setHostKeyConfirmed (host : String) (v : Bool) :
    (config.setHostKeyConfirmed host v).getHostKeyConfirmed host = v := by
  unfold setHostKeyConfirmed
  split_ifs with hsame
  · exact hsame
  · simp [getHostKeyConfirmed]

end MediatorConfig

namespace Mediator

variable {s : Mediator}

/-- The server has accepted every registration that it has answered with `OK`. -/
def Honest (s : Mediator) : Prop :=
  ∀ keepAlive msg, .registerPkResponse .ok keepAlive msg ∈ s.answers → (msg.id, msg.pk) ∈ s.accepted

/-- Flags that are set are right. -/
def Right (s : Mediator) : Prop := s.Confirmed → s.Registered

theorem SameStanding.right_iff {s' : Mediator} (h : SameStanding s s') : s'.Right ↔ s.Right := by
  rw [Right, Right, h.confirmed_iff, h.registered_iff]

theorem right_of_not_keyConfirmed (h : s.config.keyConfirmed = false) : s.Right := by
  intro hconfirmed
  exact nomatch h.symm.trans hconfirmed.1

/-- An `OK` sets both flags for the current id. -/
theorem right_ok_iff (draw : ℕ) : (s.handlePkResult draw .ok).Right ↔ s.Registered := by
  have hconfirmed : (s.handlePkResult draw .ok).Confirmed := by
    constructor
    · simp [handlePkResult]
    · exact MediatorConfig.getHostKeyConfirmed_setHostKeyConfirmed _ _ _
  have hregistered : (s.handlePkResult draw .ok).Registered ↔ s.Registered := by
    simp [Registered, handlePkResult]
  rw [← hregistered]
  constructor
  · intro hright
    exact hright hconfirmed
  · intro h _
    exact h

/-- Any other result leaves the flags right. -/
theorem Right.handlePkResult (h : s.Right) (draw : ℕ) {result : PkResult} (hresult : result ≠ .ok) :
    (s.handlePkResult draw result).Right := by
  cases result with
  | ok => exact absurd rfl hresult
  | uuidMismatch =>
    dsimp only [Mediator.handlePkResult, handleUuidMismatch]
    split_ifs
    · rw [(sameStanding_registerPk _).right_iff]
      exact right_of_not_keyConfirmed (s.config.keyConfirmed_setKeyConfirmed false)
    · exact h
  | notDeployed =>
    apply right_of_not_keyConfirmed
    simp [Mediator.handlePkResult]
  | idExists | tooFrequent | invalidIdFormat | notSupport | serverError => exact h

theorem honest_of_same {s' : Mediator} (h : s.Honest) (hanswers : s'.answers = s.answers)
    (haccepted : s'.accepted = s.accepted) : s'.Honest := by
  rw [Honest, hanswers, haccepted]
  exact h

theorem told_handlePkResult (draw : ℕ) (result : PkResult) :
    (s.handlePkResult draw result).answers = s.answers ∧ (s.handlePkResult draw result).accepted = s.accepted := by
  cases result with
  | uuidMismatch =>
    dsimp only [Mediator.handlePkResult, handleUuidMismatch]
    split_ifs
    · exact ⟨(sameStanding_registerPk _).answers, (sameStanding_registerPk _).accepted⟩
    · exact ⟨rfl, rfl⟩
  | ok | notDeployed | idExists | tooFrequent | invalidIdFormat | notSupport | serverError => exact ⟨rfl, rfl⟩

theorem sameStanding_peerResponse (s : Mediator) (draw : ℕ) (requestPk : Bool) :
    SameStanding s (s.handleResp draw (.registerPeerResponse requestPk)) := by
  dsimp only [handleResp]
  split_ifs
  · exact (sameStanding_updateLatency s).trans (sameStanding_registerPk _)
  · exact sameStanding_updateLatency s

theorem Honest.step (h : s.Honest) (event : Event) : (s.step event).Honest := by
  cases event with
  | elapse ms => exact honest_of_same h rfl rfl
  | tick elapsed => exact honest_of_same h (sameStanding_tick _).answers (sameStanding_tick _).accepted
  | serve i result keepAlive requestPk =>
    dsimp only [Mediator.step]
    split
    next request _ =>
      cases request with
      | registerPeer id serial =>
        intro keepAlive' msg hmem
        obtain hold | hnew := mem_append.mp hmem
        · exact h keepAlive' msg hold
        · exact nomatch mem_singleton.mp hnew
      | registerPk msg =>
        intro keepAlive' msg' hmem
        change _ ∈ if result = .ok then s.accepted ++ [(msg.id, msg.pk)] else s.accepted
        obtain hold | hnew := mem_append.mp hmem
        · have haccepted := h keepAlive' msg' hold
          split_ifs
          · exact mem_append_left _ haccepted
          · exact haccepted
        · obtain ⟨hok, -, rfl⟩ := Answer.registerPkResponse.inj (mem_singleton.mp hnew)
          rw [if_pos hok.symm]
          exact mem_append_right _ (mem_singleton.mpr rfl)
    next => exact h
  | deliver i draw =>
    dsimp only [Mediator.step]
    split
    next answer _ =>
      cases answer with
      | registerPeerResponse requestPk =>
        have hsame := sameStanding_peerResponse s draw requestPk
        exact honest_of_same h hsame.answers hsame.accepted
      | registerPkResponse result keepAlive msg =>
        obtain ⟨hanswers, haccepted⟩ := told_handlePkResult (s := s.updateLatency) draw result
        have hsame := sameStanding_updateKeepAlive (s.updateLatency.handlePkResult draw result) keepAlive
        exact honest_of_same h (hsame.answers.trans hanswers) (hsame.accepted.trans haccepted)
    next => exact h

/-- A step keeps the flags right exactly when it is timely. -/
theorem right_step_iff (hhonest : s.Honest) (h : s.Right) (event : Event) : (s.step event).Right ↔ Timely s event := by
  cases event with
  | elapse ms => exact iff_of_true h trivial
  | tick elapsed => exact iff_of_true ((sameStanding_tick _).right_iff.mpr h) trivial
  | serve i result keepAlive requestPk =>
    refine iff_of_true ?_ trivial
    dsimp only [Mediator.step]
    split
    next request _ =>
      cases request with
      | registerPeer id serial => exact h
      | registerPk msg =>
        intro hconfirmed
        have haccepted : (s.config.id, s.config.pk) ∈ s.accepted := h hconfirmed
        change _ ∈ if result = .ok then s.accepted ++ [(msg.id, msg.pk)] else s.accepted
        split_ifs
        · exact mem_append_left _ haccepted
        · exact haccepted
    next => exact h
  | deliver i draw =>
    cases hanswer : s.answers[i]? with
    | none =>
      simp only [Mediator.step, Timely, hanswer, iff_true]
      exact h
    | some answer =>
      cases answer with
      | registerPeerResponse requestPk =>
        simp only [Mediator.step, Timely, hanswer, iff_true]
        exact (sameStanding_peerResponse s draw requestPk).right_iff.mpr h
      | registerPkResponse result keepAlive msg =>
        by_cases hok : result = .ok
        · subst hok
          simp only [Mediator.step, Timely, hanswer]
          have hmem : (msg.id, msg.pk) ∈ s.accepted := hhonest keepAlive msg (mem_of_getElem? hanswer)
          calc (s.handleResp draw (.registerPkResponse .ok keepAlive msg)).Right
              ↔ (s.updateLatency.handlePkResult draw .ok).Right := (sameStanding_updateKeepAlive _ _).right_iff
            _ ↔ s.updateLatency.Registered := right_ok_iff draw
            _ ↔ (msg.id = s.config.id ∧ msg.pk = s.config.pk) ∨ s.Registered := by
              constructor
              · exact .inr
              · rintro (⟨hid, hpk⟩ | hregistered)
                · rw [hid, hpk] at hmem
                  exact hmem
                · exact hregistered
        · have htimely : Timely s (.deliver i draw) := by
            simp only [Timely, hanswer]
            split
            next heq => exact absurd (Answer.registerPkResponse.inj (Option.some.inj heq)).1 hok
            next => trivial
          refine iff_of_true ?_ htimely
          simp only [Mediator.step, hanswer]
          refine (sameStanding_updateKeepAlive _ _).right_iff.mpr ?_
          exact Right.handlePkResult (s := s.updateLatency) h draw hok

end Mediator

open Mediator in
/-- Through a run the server has accepted the current id and key whenever both flags are set, exactly when no `OK` is
delivered after the id that it answers has been given up, for an id that the server has not accepted. -/
theorem confirmed_registered_iff (start : Start) (events : List Event) :
    (∀ es₁ es₂, events = es₁ ++ es₂ →
      (runEvents Mediator.step start.state es₁).Confirmed → (runEvents Mediator.step start.state es₁).Registered) ↔
      RunMeets Mediator.step Timely start.state events := by
  have hhonest : start.state.Honest := by
    intro keepAlive msg hmem
    exact absurd hmem List.not_mem_nil
  have hright : start.state.Right := fun hconfirmed => start.registered hconfirmed.1 hconfirmed.2
  exact runMeets_iff (I := Honest) (P := Right) (fun s event h _ _ => h.step event)
    (fun s event h hright => right_step_iff h hright event) hhonest hright

def sampleStart : Start where
  host := "hbbs"
  config := { id := "100", pk := [1], uuid := [2] }
  usingPublicServer := false
  accepted := [("100", [3])]
  registered := nofun

/-- The server knows the id of the device from another one and is asked twice. The second refusal arrives after the device
has asked for a new id, which is accepted. -/
def lateRefusal : List Event :=
  [.tick 0, .serve 0 .uuidMismatch 0 false, .serve 0 .uuidMismatch 0 false, .deliver 0 0, .serve 1 .ok 0 false,
    .deliver 1 1, .deliver 2 0]

/-- An `OK` is credited to an id that has never reached the server. -/
theorem late_ok_confirms_newer_id :
    ¬ ∀ (start : Start) (events : List Event), let s := runEvents Mediator.step start.state events
      s.Confirmed → s.Registered := by
  intro hall
  have hconfirmed : (runEvents Mediator.step sampleStart.state lateRefusal).Confirmed :=
    ⟨by decide, by decide⟩
  have hregistered := hall sampleStart lateRefusal hconfirmed
  have hunknown : ("1000000001", [1]) ∉ [("100", [3]), ("1000000000", ([1] : Bytes))] := by decide
  have hid : (runEvents Mediator.step sampleStart.state lateRefusal).config.id = "1000000001" := by decide
  have haccepted : (runEvents Mediator.step sampleStart.state lateRefusal).accepted =
      [("100", [3]), ("1000000000", [1])] := by decide
  rw [Mediator.Registered, hid, haccepted] at hregistered
  exact hunknown hregistered

end UnyDesk.Rendezvous
