import UnyDesk.Lib.Machine
import UnyDesk.Proto.Message

/-!
# The token of the portable service

A launch puts a fresh token into shared memory for the helper that it starts and expects it back over the pipe. A connection
takes the token before its handshake and puts it back when the handshake fails. Launches, connections and clean-ups share the
flags, the shared memory and the token, each behind a lock of its own. Who needs several of the locks takes the one of the
token first and holds it to the end, so what is done with the token is one step; the name is only used under the lock of the
shared memory.

A launch lets go of the shared memory before it publishes its token.
-/

namespace UnyDesk.Portable

open Lib List Option

def ipcTokenLen : ℕ := 64

/-- `constant_time_ipc_token_eq` -/
def constantTimeIpcTokenEq (expected candidate : Bytes) : Bool :=
  if expected.length ≠ ipcTokenLen ∨ candidate.length ≠ ipcTokenLen then false
  else (expected.zip candidate).foldl (fun diff (left, right) => diff ||| (left ^^^ right)) (0 : UInt8) = 0

/-- What the launches draw, by their numbers: no two draw the same. -/
structure Draws where
  token : ℕ → Bytes
  name : ℕ → String
  token_injective : Function.Injective token
  name_injective : Function.Injective name

/-- A shared memory with the token that is in it. -/
structure SharedMemory where
  name : String
  token : Option Bytes

def SharedMemory.write (shmem : SharedMemory) (token : Option Bytes) : SharedMemory := { shmem with token }

/-- Where a call of `start_portable_service` stands. A launch has the number that it got from `STARTING_TOKEN`. -/
inductive CallPlace
  | idle
  | sawRunning (running : Bool)
  | begun (number : ℕ)
  | reset (number : ℕ)
  /-- The shared memory is in place, without its token. -/
  | unwritten (number : ℕ)
  /-- The shared memory is in place and let go of. -/
  | created (number : ℕ)
  | published
  /-- No helper could be started. -/
  | unstarted
  | failed

/-- Where a connection stands in its handshake. -/
inductive ConnPlace
  | idle
  /-- With the token that it has taken and the name of the shared memory at that time. -/
  | holding (token : Bytes) (shmemName : Option String)
  | refused

/-- What the calls and the connections share, where they stand, and what has come of the launches. -/
structure Service where
  running : Bool := false
  starting : Bool := false
  startingToken : ℕ := 0
  shmem : Option SharedMemory := none
  shmemRuntimeName : Option String := none
  ipcRuntimeToken : Option Bytes := none
  calls : ℕ → CallPlace := fun _ => .idle
  conns : ℕ → ConnPlace := fun _ => .idle
  /-- The launch that was the last to reset the runtime state. -/
  current : ℕ := 0
  /-- The launches that have published their token. -/
  issued : List ℕ := []
  /-- The tokens of the handshakes that succeeded. -/
  succeeded : List Bytes := []

/-- How the creation of the shared memory ends. -/
inductive CreateResult
  | failed
  | unwritten
  | created
deriving DecidableEq

/-- How the start of the helper ends. -/
inductive StartResult
  | started
  | notStarted
  /-- `current_exe` fails. -/
  | noExe

inductive Event
  | readRunning (call : ℕ)
  | beginLaunch (call : ℕ) (hasProcess : Bool)
  | resetState (call : ℕ)
  | create (call : ℕ) (result : CreateResult)
  | publish (call : ℕ)
  | startHelper (call : ℕ) (result : StartResult)
  /-- The clean-up of a launch that could not be finished. -/
  | cleanUp (call : ℕ)
  | endFailed (call : ℕ)
  | present (conn : ℕ) (candidate : Bytes)
  | succeed (conn : ℕ)
  | fail (conn : ℕ) (written : Bool)
  | endRefused (conn : ℕ)
  /-- `drop_portable_service_shared_memory` -/
  | shutdown
  /-- The watchdog and the service loop. -/
  | setRunning (running : Bool)
  | resetStarting

namespace Service

variable (s : Service)

def setCall (call : ℕ) (place : CallPlace) : Service := { s with calls := fun k => if k = call then place else s.calls k }

def setConn (conn : ℕ) (place : ConnPlace) : Service := { s with conns := fun c => if c = conn then place else s.conns c }

/-- `clear_ipc_token_in_shmem` -/
def clearIpcTokenInShmem : Service := { s with shmem := s.shmem.map (·.write none) }

/-- The token in the memory is cleared before the memory is let go of. -/
def clearRuntimeShmemState : Service :=
  { s.clearIpcTokenInShmem with shmem := none, shmemRuntimeName := none, ipcRuntimeToken := none }

def consumeRuntimeIpcTokenIfMatch (candidate : Bytes) : Service × Bool × Option String :=
  if s.ipcRuntimeToken.any (constantTimeIpcTokenEq · candidate) then
    ({ s with ipcRuntimeToken := none }.clearIpcTokenInShmem, true, s.shmemRuntimeName)
  else (s, false, none)

/-- `written` says whether the token can be written to the shared memory. -/
def restoreRuntimeIpcTokenAfterFailedHandshake (token : Bytes) (expectedShmemName : Option String) (written : Bool) :
    Service :=
  let dropped := if s.ipcRuntimeToken = some token then { s with ipcRuntimeToken := none } else s
  if s.ipcRuntimeToken.any (· ≠ token) then s
  else if s.shmemRuntimeName ≠ expectedShmemName then dropped
  else
    match s.shmem with
    | none => dropped
    | some shmem =>
      if written then { s with shmem := some (shmem.write (some token)), ipcRuntimeToken := some token }
      else dropped

/-- The gate at the beginning of a launch, where a start without a process is stale. -/
def opens (running hasProcess : Bool) : Bool := !(s.starting && (running || hasProcess)) && !running

variable (draws : Draws)

def create (call number : ℕ) : CreateResult → Service
  | .failed => s.setCall call .failed
  | .unwritten =>
    { s with shmem := some ⟨draws.name number, none⟩, shmemRuntimeName := some (draws.name number) }.setCall call
      (.unwritten number)
  | .created =>
    { s with shmem := some ⟨draws.name number, some (draws.token number)⟩,
             shmemRuntimeName := some (draws.name number) }.setCall call (.created number)

def step : Event → Service
  | .readRunning call =>
    match s.calls call with
    | .idle => s.setCall call (.sawRunning s.running)
    | _ => s
  | .beginLaunch call hasProcess =>
    match s.calls call with
    | .sawRunning running =>
      if s.opens running hasProcess then
        { s with starting := true, startingToken := s.startingToken + 1 }.setCall call (.begun (s.startingToken + 1))
      else s.setCall call .idle
    | _ => s
  | .resetState call =>
    match s.calls call with
    | .begun number => { s.clearRuntimeShmemState with current := number }.setCall call (.reset number)
    | _ => s
  | .create call result =>
    match s.calls call with
    | .reset number => s.create draws call number result
    | _ => s
  | .publish call =>
    match s.calls call with
    | .created number =>
      { s with ipcRuntimeToken := some (draws.token number), issued := number :: s.issued }.setCall call .published
    | _ => s
  | .startHelper call result =>
    match s.calls call with
    | .published =>
      s.setCall call (match result with
        | .started => .idle
        | .notStarted => .unstarted
        | .noExe => .failed)
    | _ => s
  | .cleanUp call =>
    match s.calls call with
    | .unwritten _ | .unstarted => s.clearRuntimeShmemState.setCall call .failed
    | _ => s
  | .endFailed call =>
    match s.calls call with
    | .failed => { s with starting := false }.setCall call .idle
    | _ => s
  | .present conn candidate =>
    match s.conns conn, s.consumeRuntimeIpcTokenIfMatch candidate with
    | .idle, (s', true, name) => s'.setConn conn (.holding candidate name)
    | _, _ => s
  | .succeed conn =>
    match s.conns conn with
    | .holding token _ => { s with succeeded := token :: s.succeeded }.setConn conn .idle
    | _ => s
  | .fail conn written =>
    match s.conns conn with
    | .holding token name =>
      (s.restoreRuntimeIpcTokenAfterFailedHandshake token name written).setConn conn .refused
    | _ => s
  | .endRefused conn =>
    match s.conns conn with
    | .refused => { s with starting := false }.setConn conn .idle
    | _ => s
  | .shutdown => s.clearRuntimeShmemState
  | .setRunning running => { s with running }
  | .resetStarting => { s with starting := false }

/-- A published token is that of the launch, is in its shared memory, and no handshake with it has succeeded. Only that token
is accepted, and no token has succeeded twice. -/
structure OneTime (newest : ℕ) : Prop where
  token : ∀ token, s.ipcRuntimeToken = some token →
    token = draws.token newest ∧ s.shmem = some ⟨draws.name newest, some token⟩ ∧
      s.shmemRuntimeName = some (draws.name newest) ∧ token ∉ s.succeeded
  accepts : ∀ candidate, (s.consumeRuntimeIpcTokenIfMatch candidate).2.1 = true → candidate = draws.token newest
  nodup : s.succeeded.Nodup

end Service

section Tokens

variable {expected candidate : Bytes}

/-- Nothing differs in two tokens that compare as equal. -/
theorem zip_eq_of_foldl (hlength : expected.length = candidate.length) (diff : UInt8)
    (h : (expected.zip candidate).foldl (fun diff (left, right) => diff ||| (left ^^^ right)) diff = 0) :
    diff = 0 ∧ expected = candidate := by
  induction expected generalizing candidate diff with
  | nil => exact ⟨h, (length_eq_zero_iff.mp hlength.symm).symm⟩
  | cons left expected ih =>
    cases candidate with
    | nil => exact nomatch hlength
    | cons right candidate =>
      obtain ⟨hor, rfl⟩ := ih (Nat.succ.inj hlength) _ h
      obtain ⟨hdiff, hxor⟩ := UInt8.or_eq_zero_iff.mp hor
      exact ⟨hdiff, by rw [UInt8.xor_eq_zero_iff.mp hxor]⟩

theorem eq_of_constantTimeIpcTokenEq (h : constantTimeIpcTokenEq expected candidate = true) : expected = candidate := by
  unfold constantTimeIpcTokenEq at h
  split_ifs at h with hlength
  rw [not_or, not_not, not_not] at hlength
  exact (zip_eq_of_foldl (hlength.1.trans hlength.2.symm) 0 (of_decide_eq_true h)).2

end Tokens

/-- The launch that the call is on, until it publishes its token. -/
def CallPlace.unissued : CallPlace → Option ℕ
  | .begun number | .reset number | .unwritten number | .created number => some number
  | _ => none

namespace Service

variable {s : Service} {draws : Draws} {call conn number : ℕ} {place : CallPlace} {token : Bytes}
  {name : Option String}

@[simp] theorem setCall_calls (s : Service) (call : ℕ) (place : CallPlace) (k : ℕ) :
    (s.setCall call place).calls k = if k = call then place else s.calls k := rfl

@[simp] theorem setConn_conns (s : Service) (conn : ℕ) (place : ConnPlace) (c : ℕ) :
    (s.setConn conn place).conns c = if c = conn then place else s.conns c := rfl

/-- Every launch has a number of its own and publishes its token once. -/
structure Numbered (s : Service) : Prop where
  le : ∀ call number, (s.calls call).unissued = some number → number ≤ s.startingToken
  once : ∀ call call' number, (s.calls call).unissued = some number → (s.calls call').unissued = some number → call = call'
  unissued : ∀ call number, (s.calls call).unissued = some number → number ∉ s.issued
  issued_le : ∀ number ∈ s.issued, number ≤ s.startingToken

/-- A token is published, or held by one connection, or has succeeded once. -/
structure Spent (draws : Draws) (s : Service) : Prop where
  published : ∀ token, s.ipcRuntimeToken = some token → ∃ number ∈ s.issued, token = draws.token number
  held : ∀ conn token name, s.conns conn = .holding token name →
    ∃ number ∈ s.issued, token = draws.token number ∧ name = some (draws.name number)
  succeeded : ∀ token ∈ s.succeeded, ∃ number ∈ s.issued, token = draws.token number
  published_free : ∀ token, s.ipcRuntimeToken = some token →
    token ∉ s.succeeded ∧ ∀ conn name, s.conns conn ≠ .holding token name
  held_free : ∀ conn token name, s.conns conn = .holding token name → token ∉ s.succeeded
  held_once : ∀ conn conn' token name name', s.conns conn = .holding token name → s.conns conn' = .holding token name' →
    conn = conn'
  nodup : s.succeeded.Nodup

/-- The shared memory has the name that is noted, and the token of its launch until that is published. -/
structure InMemory (draws : Draws) (s : Service) : Prop where
  name : s.shmem.map (·.name) = s.shmemRuntimeName
  created : ∀ call number, s.calls call = .created number → s.shmemRuntimeName = some (draws.name number) →
    s.shmem = some ⟨draws.name number, some (draws.token number)⟩

structure Ledger (draws : Draws) (s : Service) : Prop where
  numbered : s.Numbered
  spent : s.Spent draws
  memory : s.InMemory draws

section Numbers

/-- A call goes on with its launch, or leaves it. -/
theorem Numbered.setCall (h : s.Numbered) (hplace : place.unissued = none ∨ place.unissued = (s.calls call).unissued) :
    (s.setCall call place).Numbered := by
  have hof : ∀ k number, ((s.setCall call place).calls k).unissued = some number → (s.calls k).unissued = some number := by
    intro k number hk
    rw [setCall_calls] at hk
    split_ifs at hk with heq
    · obtain hnone | hsame := hplace
      · rw [hnone] at hk
        exact nomatch hk
      · rw [heq, ← hsame, hk]
    · exact hk
  refine ⟨fun k number hk => h.le k number (hof k number hk), fun k k' number hk hk' => ?_,
    fun k number hk => h.unissued k number (hof k number hk), h.issued_le⟩
  exact h.once k k' number (hof k number hk) (hof k' number hk')

/-- A new launch has the next number. -/
theorem Numbered.begin (h : s.Numbered) (call : ℕ) (starting : Bool) :
    ({ s with starting, startingToken := s.startingToken + 1 }.setCall call (.begun (s.startingToken + 1))).Numbered where
  le k number hk := by
    rw [setCall_calls] at hk
    split_ifs at hk with heq
    · exact Nat.le_of_eq (some.inj hk).symm
    · exact Nat.le_succ_of_le (h.le k number hk)
  once k k' number hk hk' := by
    have hlt : ∀ k number, (s.calls k).unissued = some number → number ≠ s.startingToken + 1 := by
      intro k number hk
      have hle := h.le k number hk
      omega
    rw [setCall_calls] at hk hk'
    split_ifs at hk hk' with heq heq' heq'
    · rw [heq, heq']
    · exact absurd (some.inj hk).symm (hlt k' number hk')
    · exact absurd (some.inj hk').symm (hlt k number hk)
    · exact h.once k k' number hk hk'
  unissued k number hk := by
    rw [setCall_calls] at hk
    split_ifs at hk with heq
    · intro hmem
      have hle := h.issued_le number hmem
      have hnumber := some.inj hk
      omega
    · exact h.unissued k number hk
  issued_le number hmem := Nat.le_succ_of_le (h.issued_le number hmem)

theorem Numbered.publish (h : s.Numbered) (hcall : s.calls call = .created number) (token : Option Bytes) :
    ({ s with ipcRuntimeToken := token, issued := number :: s.issued }.setCall call .published).Numbered := by
  have hnumber : (s.calls call).unissued = some number := by rw [hcall]; rfl
  have hrest : (s.setCall call .published).Numbered := h.setCall (.inl rfl)
  refine ⟨hrest.le, hrest.once, ?_, ?_⟩
  · intro k number' hk hmem
    obtain rfl | hmem := mem_cons.mp hmem
    · rw [setCall_calls] at hk
      split_ifs at hk with heq
      · exact nomatch hk
      · exact heq (h.once k call _ hk hnumber)
    · exact hrest.unissued k number' hk hmem
  · exact forall_mem_cons.mpr ⟨h.le call number hnumber, h.issued_le⟩

end Numbers

section Tokens

variable (h : s.Spent draws)
include h

theorem Spent.dropToken : { s with ipcRuntimeToken := none }.Spent draws where
  published := nofun
  held := h.held
  succeeded := h.succeeded
  published_free := nofun
  held_free := h.held_free
  held_once := h.held_once
  nodup := h.nodup

/-- A connection lets go of its token. -/
theorem Spent.release {place : ConnPlace} (hplace : ∀ token name, place ≠ .holding token name) :
    (s.setConn conn place).Spent draws := by
  have hof : ∀ c token name, (s.setConn conn place).conns c = .holding token name → s.conns c = .holding token name := by
    intro c token name hc
    rw [setConn_conns] at hc
    split_ifs at hc with heq
    · exact absurd hc (hplace token name)
    · exact hc
  refine ⟨h.published, fun c token name hc => h.held c token name (hof c token name hc), h.succeeded, fun token htoken => ?_,
    fun c token name hc => h.held_free c token name (hof c token name hc), fun c c' token name name' hc hc' => ?_, h.nodup⟩
  · obtain ⟨hunspent, hfree⟩ := h.published_free token htoken
    exact ⟨hunspent, fun c name hc => hfree c name (hof c token name hc)⟩
  · exact h.held_once c c' token name name' (hof c token name hc) (hof c' token name' hc')

/-- A connection takes the published token. -/
theorem Spent.take (htoken : s.ipcRuntimeToken = some token)
    (hname : ∀ number, token = draws.token number → s.shmemRuntimeName = some (draws.name number)) (conn : ℕ) :
    ({ s with ipcRuntimeToken := none }.setConn conn (.holding token s.shmemRuntimeName)).Spent draws := by
  obtain ⟨hfree, hnone⟩ := h.published_free token htoken
  refine ⟨nofun, ?_, h.succeeded, nofun, ?_, ?_, h.nodup⟩
  · intro c token' name hc
    rw [setConn_conns] at hc
    split_ifs at hc with heq
    · cases hc
      obtain ⟨number, hissued, hnumber⟩ := h.published token htoken
      exact ⟨number, hissued, hnumber, hname number hnumber⟩
    · exact h.held c token' name hc
  · intro c token' name hc
    rw [setConn_conns] at hc
    split_ifs at hc with heq
    · cases hc
      exact hfree
    · exact h.held_free c token' name hc
  · intro c c' token' name name' hc hc'
    rw [setConn_conns] at hc hc'
    split_ifs at hc hc' with heq heq' heq'
    · rw [heq, heq']
    · cases hc
      exact absurd hc' (hnone c' name')
    · cases hc'
      exact absurd hc (hnone c name)
    · exact h.held_once c c' token' name name' hc hc'

/-- A handshake succeeds with the token that the connection has taken. -/
theorem Spent.succeed (hconn : s.conns conn = .holding token name) :
    ({ s with succeeded := token :: s.succeeded }.setConn conn .idle).Spent draws := by
  have hrest : (s.setConn conn .idle).Spent draws := h.release nofun
  obtain ⟨number, hissued, hnumber, -⟩ := h.held conn token name hconn
  refine ⟨h.published, hrest.held, ?_, ?_, ?_, hrest.held_once, ?_⟩
  · exact forall_mem_cons.mpr ⟨⟨number, hissued, hnumber⟩, h.succeeded⟩
  · intro token' htoken'
    refine ⟨?_, (hrest.published_free token' htoken').2⟩
    intro hmem
    obtain rfl | hmem := mem_cons.mp hmem
    · exact (h.published_free _ htoken').2 conn name hconn
    · exact (h.published_free token' htoken').1 hmem
  · intro c token' name' hc hmem
    obtain rfl | hmem := mem_cons.mp hmem
    · rw [setConn_conns] at hc
      split_ifs at hc with heq
      exact heq (h.held_once c conn _ name' name hc hconn)
    · exact hrest.held_free c token' name' hc hmem
  · exact nodup_cons.mpr ⟨h.held_free conn token name hconn, h.nodup⟩

/-- A connection puts its token back. -/
theorem Spent.putBack (hconn : s.conns conn = .holding token name) :
    ({ s with ipcRuntimeToken := some token }.setConn conn .refused).Spent draws := by
  have hrest : (s.setConn conn .refused).Spent draws := h.release nofun
  obtain ⟨number, hissued, hnumber, -⟩ := h.held conn token name hconn
  refine ⟨?_, hrest.held, h.succeeded, ?_, hrest.held_free, hrest.held_once, h.nodup⟩
  · intro token' htoken'
    cases htoken'
    exact ⟨number, hissued, hnumber⟩
  · intro token' htoken'
    cases htoken'
    refine ⟨h.held_free conn _ name hconn, fun c name' hc => ?_⟩
    rw [setConn_conns] at hc
    split_ifs at hc with heq
    exact heq (h.held_once c conn _ name' name hc hconn)

/-- The token of a launch is new when it is published. -/
theorem Spent.publish (hnew : number ∉ s.issued) :
    { s with ipcRuntimeToken := some (draws.token number), issued := number :: s.issued }.Spent draws := by
  have hnot : ∀ number' ∈ s.issued, draws.token number ≠ draws.token number' := by
    intro number' hmem heq
    exact hnew (draws.token_injective heq ▸ hmem)
  refine ⟨?_, ?_, ?_, ?_, h.held_free, h.held_once, h.nodup⟩
  · intro token htoken
    cases htoken
    exact ⟨number, mem_cons_self, rfl⟩
  · intro c token name hc
    obtain ⟨number', hissued, hrest⟩ := h.held c token name hc
    exact ⟨number', mem_cons_of_mem _ hissued, hrest⟩
  · intro token hmem
    obtain ⟨number', hissued, hrest⟩ := h.succeeded token hmem
    exact ⟨number', mem_cons_of_mem _ hissued, hrest⟩
  · intro token htoken
    cases htoken
    constructor
    · intro hmem
      obtain ⟨number', hissued, heq⟩ := h.succeeded _ hmem
      exact hnot number' hissued heq
    · intro c name hc
      obtain ⟨number', hissued, heq, -⟩ := h.held c _ name hc
      exact hnot number' hissued heq

end Tokens

section Memory

theorem inMemory_cleared (s : Service) (draws : Draws) : s.clearRuntimeShmemState.InMemory draws :=
  ⟨rfl, fun _ _ _ hname => (nomatch hname)⟩

/-- A call goes on without a new shared memory. -/
theorem InMemory.setCall (h : s.InMemory draws) (hplace : ∀ number, place ≠ .created number) :
    (s.setCall call place).InMemory draws := by
  refine ⟨h.name, fun k number hk => ?_⟩
  rw [setCall_calls] at hk
  split_ifs at hk with heq
  · exact absurd hk (hplace number)
  · exact h.created k number hk

/-- The shared memory of a launch that has published nothing takes the place of the one before. -/
theorem InMemory.create (hnumbered : s.Numbered) (hcall : s.calls call = .reset number)
    {token : Option Bytes} (htoken : place = .created number → token = some (draws.token number)) :
    ({ s with shmem := some ⟨draws.name number, token⟩, shmemRuntimeName := some (draws.name number) }.setCall call
      place).InMemory draws := by
  have hnumber : (s.calls call).unissued = some number := by rw [hcall]; rfl
  refine ⟨rfl, ?_⟩
  intro k number' hk hname
  obtain rfl := draws.name_injective (some.inj hname)
  rw [setCall_calls] at hk
  split_ifs at hk with heq
  · rw [← htoken hk]
    rfl
  · exact absurd (hnumbered.once k call _ (by rw [hk]; rfl) hnumber) heq

/-- The token in the shared memory of a launch that has published it can change. -/
theorem InMemory.write (h : s.InMemory draws) (hnumbered : s.Numbered) (token : Option Bytes)
    (hissued : ∀ name, s.shmemRuntimeName = some name → ∃ number ∈ s.issued, name = draws.name number) :
    { s with shmem := s.shmem.map (SharedMemory.write · token) }.InMemory draws := by
  refine ⟨?_, ?_⟩
  · rw [← h.name, Option.map_map]
    rfl
  · intro k number hk hname
    obtain ⟨number', hmem, heq⟩ := hissued _ hname
    obtain rfl := draws.name_injective heq
    exact absurd hmem (hnumbered.unissued k _ (by rw [show s.calls k = .created number from hk]; rfl))

end Memory

/-- A published token is that of the launch and is in its shared memory. -/
def InForce (draws : Draws) (newest : ℕ) (s : Service) : Prop :=
  ∀ token, s.ipcRuntimeToken = some token →
    token = draws.token newest ∧ s.shmem = some ⟨draws.name newest, some token⟩ ∧
      s.shmemRuntimeName = some (draws.name newest)

section Steps

section Ledger

variable (h : s.Ledger draws)
include h

theorem Ledger.take {newest : ℕ} (hforce : s.InForce draws newest)
    (htoken : s.ipcRuntimeToken = some token) (conn : ℕ) :
    ({ s with ipcRuntimeToken := none }.clearIpcTokenInShmem.setConn conn (.holding token s.shmemRuntimeName)).Ledger draws := by
  obtain ⟨hnewest, -, hname⟩ := hforce token htoken
  obtain ⟨number, hissued, hnumber⟩ := h.spent.published token htoken
  have hsame : ∀ number', token = draws.token number' → s.shmemRuntimeName = some (draws.name number') := by
    intro number' heq
    rw [hname, draws.token_injective (hnewest.symm.trans heq)]
  have hwrite := h.memory.write h.numbered none fun name hname' => by
    rw [hsame number hnumber] at hname'
    exact ⟨number, hissued, (some.inj hname').symm⟩
  have htake := h.spent.take htoken hsame conn
  exact ⟨{ h.numbered with }, { htake with }, { hwrite with }⟩

/-- What is put back for a connection that holds its token. -/
theorem restore_eq (hconn : s.conns conn = .holding token name) (written : Bool) :
    s.restoreRuntimeIpcTokenAfterFailedHandshake token name written =
      if s.ipcRuntimeToken = none ∧ s.shmemRuntimeName = name ∧ written = true then
        { s with shmem := s.shmem.map (SharedMemory.write · (some token)), ipcRuntimeToken := some token }
      else s := by
  have hfree : s.ipcRuntimeToken ≠ some token := fun htoken => (h.spent.published_free token htoken).2 conn name hconn
  obtain ⟨number, -, -, hname⟩ := h.spent.held conn token name hconn
  unfold restoreRuntimeIpcTokenAfterFailedHandshake
  dsimp only
  rw [if_neg hfree]
  cases hpublished : s.ipcRuntimeToken with
  | some token' =>
    have hne : token' ≠ token := fun heq => hfree (heq ▸ hpublished)
    simp [hne]
  | none =>
    by_cases hsame : s.shmemRuntimeName = name
    · have hmap := h.memory.name
      rw [hsame, hname] at hmap
      obtain ⟨shmem, hshmem, -⟩ := map_eq_some_iff.mp hmap
      cases written with
      | true => simp [hsame, hshmem]
      | false => simp [hsame, hshmem]
    · simp [hsame]

namespace Ledger

theorem restore (hconn : s.conns conn = .holding token name) (written : Bool) :
    ((s.restoreRuntimeIpcTokenAfterFailedHandshake token name written).setConn conn .refused).Ledger draws := by
  rw [restore_eq h hconn]
  split_ifs with hback
  · obtain ⟨number, hissued, -, hname⟩ := h.spent.held conn token name hconn
    have hput := h.spent.putBack hconn
    have hwrite := h.memory.write h.numbered (some token) fun name' hname' => by
      rw [hback.2.1, hname] at hname'
      exact ⟨number, hissued, (some.inj hname').symm⟩
    exact ⟨{ h.numbered with }, { hput with }, { hwrite with }⟩
  · have hrelease : (s.setConn conn .refused).Spent draws := h.spent.release nofun
    exact ⟨{ h.numbered with }, hrelease, { h.memory with }⟩

/-- What only concerns the flags. -/
theorem flags (running starting : Bool) : { s with running, starting }.Ledger draws :=
  ⟨{ h.numbered with }, { h.spent with }, { h.memory with }⟩

/-- A call goes on with its launch or leaves it. -/
theorem setCall (hunissued : place.unissued = none ∨ place.unissued = (s.calls call).unissued)
    (hplace : ∀ number, place ≠ .created number) : (s.setCall call place).Ledger draws :=
  ⟨h.numbered.setCall hunissued, { h.spent with }, h.memory.setCall hplace⟩

theorem clear (current : ℕ) : { s.clearRuntimeShmemState with current }.Ledger draws := by
  have hdrop := h.spent.dropToken
  have hmemory := inMemory_cleared s draws
  exact ⟨{ h.numbered with }, { hdrop with }, { hmemory with }⟩

theorem create (hcall : s.calls call = .reset number) (result : CreateResult) :
    (s.create draws call number result).Ledger draws := by
  have hnumber : (s.calls call).unissued = some number := by rw [hcall]; rfl
  have hspent := h.spent
  cases result with
  | failed => exact h.setCall (.inl rfl) nofun
  | unwritten =>
    have hnumbered : (s.setCall call (.unwritten number)).Numbered := h.numbered.setCall (.inr hnumber.symm)
    exact ⟨{ hnumbered with }, { hspent with }, InMemory.create h.numbered hcall nofun⟩
  | created =>
    have hnumbered : (s.setCall call (.created number)).Numbered := h.numbered.setCall (.inr hnumber.symm)
    exact ⟨{ hnumbered with }, { hspent with }, InMemory.create h.numbered hcall fun _ => rfl⟩

theorem publish (hcall : s.calls call = .created number) :
    ({ s with ipcRuntimeToken := some (draws.token number), issued := number :: s.issued }.setCall call .published).Ledger
      draws := by
  have hnew : number ∉ s.issued := h.numbered.unissued call number (by rw [hcall]; rfl)
  have hmemory : (s.setCall call .published).InMemory draws := h.memory.setCall nofun
  exact ⟨h.numbered.publish hcall (some (draws.token number)), { h.spent.publish hnew with }, { hmemory with }⟩

theorem step {newest : ℕ} (hforce : s.InForce draws newest) (event : Event) :
    (s.step draws event).Ledger draws := by
  cases event with
  | readRunning call =>
    simp only [Service.step]
    split
    · exact h.setCall (.inl rfl) nofun
    · exact h
  | beginLaunch call hasProcess =>
    simp only [Service.step]
    split
    · split
      · have hmemory : (s.setCall call (.begun (s.startingToken + 1))).InMemory draws := h.memory.setCall nofun
        exact ⟨h.numbered.begin call true, { h.spent with }, { hmemory with }⟩
      · exact h.setCall (.inl rfl) nofun
    · exact h
  | resetState call =>
    simp only [Service.step]
    split
    next number hcall => exact (h.clear number).setCall (.inr (congrArg CallPlace.unissued hcall).symm) nofun
    next => exact h
  | create call result =>
    simp only [Service.step]
    split
    next number hcall => exact h.create hcall result
    next => exact h
  | publish call =>
    simp only [Service.step]
    split
    next number hcall => exact h.publish hcall
    next => exact h
  | startHelper call result =>
    simp only [Service.step]
    split
    · cases result with
      | started | notStarted | noExe => exact h.setCall (.inl rfl) nofun
    · exact h
  | cleanUp call =>
    simp only [Service.step]
    split
    · exact (h.clear s.current).setCall (.inl rfl) nofun
    · exact (h.clear s.current).setCall (.inl rfl) nofun
    · exact h
  | endFailed call =>
    simp only [Service.step]
    split
    · exact (h.flags s.running false).setCall (.inl rfl) nofun
    · exact h
  | present conn candidate =>
    simp only [Service.step, consumeRuntimeIpcTokenIfMatch]
    split
    next s' name hconn hconsume =>
      split_ifs at hconsume with hmatch
      · obtain ⟨token, htoken, heq⟩ := (any_eq_true _ _).mp hmatch
        obtain rfl := eq_of_constantTimeIpcTokenEq heq
        cases hconsume
        exact h.take hforce htoken conn
      · cases hconsume
    next => exact h
  | succeed conn =>
    simp only [Service.step]
    split
    next token name hconn =>
      exact ⟨{ h.numbered with }, h.spent.succeed hconn, { h.memory with }⟩
    next => exact h
  | fail conn written =>
    simp only [Service.step]
    split
    next token name hconn => exact h.restore hconn written
    next => exact h
  | endRefused conn =>
    simp only [Service.step]
    split
    · have hrelease : (s.setConn conn .idle).Spent draws := h.spent.release nofun
      have hledger : (s.setConn conn .idle).Ledger draws :=
        ⟨{ h.numbered with }, hrelease, { h.memory with }⟩
      exact hledger.flags s.running false
    · exact h
  | shutdown => exact h.clear s.current
  | setRunning running => exact h.flags running s.starting
  | resetStarting => exact h.flags s.running false

end Ledger

end Ledger

theorem ledger_start (draws : Draws) : Ledger draws {} := by
  refine ⟨⟨nofun, nofun, nofun, nofun⟩, ⟨nofun, nofun, nofun, nofun, nofun, nofun, nodup_nil⟩, ⟨rfl, nofun⟩⟩

end Steps

end Service

end UnyDesk.Portable
