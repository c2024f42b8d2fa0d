import UnyDesk.Server.PortableService

/-!
# Which token of the portable service is accepted

A published token has to be that of the last launch. The launches keep to that as long as none is overtaken between the
creation of its shared memory and the publication of its token, which is not checked there. The connections need no condition:
a token is put back only over the shared memory that it was taken from.
-/

namespace UnyDesk.Portable

open Lib Service Option List UInt8

namespace Service

variable {s : Service} {draws : Draws}

/-- No launch creates shared memory while a token is published, and a launch publishes its token only while its shared
memory is in place and no later launch has reset the runtime state. -/
def Undisturbed (draws : Draws) (s : Service) : Event → Prop
  | .create call result => ∀ number, s.calls call = .reset number → result ≠ .failed → s.ipcRuntimeToken = none
  | .publish call =>
    ∀ number, s.calls call = .created number → s.shmemRuntimeName = some (draws.name number) ∧ s.current = number
  | _ => True

/-- The same where a launch counts from its number on: it publishes its token only while it is the last to have begun, no
launch begins while a token is published, and no token is put back after a later launch has begun. -/
def Orderly (draws : Draws) (s : Service) : Event → Prop
  | .beginLaunch call hasProcess =>
    ∀ running, s.calls call = .sawRunning running → s.opens running hasProcess = true → s.ipcRuntimeToken = none
  | .create call result => ∀ number, s.calls call = .reset number → result ≠ .failed → s.ipcRuntimeToken = none
  | .publish call =>
    ∀ number, s.calls call = .created number → s.shmemRuntimeName = some (draws.name number) ∧ s.startingToken = number
  | .fail conn written =>
    ∀ token name, s.conns conn = .holding token name → s.ipcRuntimeToken = none → s.shmemRuntimeName = name →
      written = true → token = draws.token s.startingToken
  | _ => True

section Effects

/-- What a step can do to the token, and what the conditions ask of it. -/
inductive Effect (draws : Draws) (s : Service) (event : Event) (s' : Service) : Prop
  | kept (token : s'.ipcRuntimeToken = s.ipcRuntimeToken) (shmem : s'.shmem = s.shmem)
      (name : s'.shmemRuntimeName = s.shmemRuntimeName) (current : s'.current = s.current)
      (starting : s'.startingToken = s.startingToken) (issued : s'.issued = s.issued) (quiet : s.Undisturbed draws event)
      (orderly : s.Orderly draws event)
  | cleared (token : s'.ipcRuntimeToken = none) (name : s'.shmemRuntimeName = none) (quiet : s.Undisturbed draws event)
      (orderly : s.Orderly draws event)
  | taken (token : s'.ipcRuntimeToken = none) (name : s'.shmemRuntimeName = s.shmemRuntimeName)
      (current : s'.current = s.current) (issued : s'.issued = s.issued) (quiet : s.Undisturbed draws event)
      (orderly : s.Orderly draws event)
  | begun (token : s'.ipcRuntimeToken = s.ipcRuntimeToken) (shmem : s'.shmem = s.shmem)
      (name : s'.shmemRuntimeName = s.shmemRuntimeName) (current : s'.current = s.current)
      (starting : s'.startingToken = s.startingToken + 1) (issued : s'.issued = s.issued)
      (quiet : s.Undisturbed draws event) (orderly : s.Orderly draws event ↔ s.ipcRuntimeToken = none)
  | created (number : ℕ) (unissued : number ∉ s.issued) (token : s'.ipcRuntimeToken = s.ipcRuntimeToken)
      (name : s'.shmemRuntimeName = some (draws.name number)) (issued : s'.issued = s.issued)
      (quiet : s.Undisturbed draws event ↔ s.ipcRuntimeToken = none)
      (orderly : s.Orderly draws event ↔ s.ipcRuntimeToken = none)
  | published (number : ℕ) (token : s'.ipcRuntimeToken = some (draws.token number)) (shmem : s'.shmem = s.shmem)
      (name : s'.shmemRuntimeName = s.shmemRuntimeName) (current : s'.current = s.current)
      (starting : s'.startingToken = s.startingToken) (issued : s'.issued = number :: s.issued)
      (memory : s.shmemRuntimeName = some (draws.name number) → s.shmem = some ⟨draws.name number, some (draws.token number)⟩)
      (quiet : s.Undisturbed draws event ↔ s.shmemRuntimeName = some (draws.name number) ∧ s.current = number)
      (orderly : s.Orderly draws event ↔ s.shmemRuntimeName = some (draws.name number) ∧ s.startingToken = number)
  | restored (number : ℕ) (mem : number ∈ s.issued) (token : s'.ipcRuntimeToken = some (draws.token number))
      (shmem : s'.shmem = some ⟨draws.name number, some (draws.token number)⟩)
      (name : s.shmemRuntimeName = some (draws.name number)) (name' : s'.shmemRuntimeName = s.shmemRuntimeName)
      (current : s'.current = s.current) (starting : s'.startingToken = s.startingToken) (issued : s'.issued = s.issued)
      (quiet : s.Undisturbed draws event) (orderly : s.Orderly draws event ↔ number = s.startingToken)

theorem Effect.none {event : Event} (quiet : s.Undisturbed draws event) (orderly : s.Orderly draws event) :
    Effect draws s event s := .kept rfl rfl rfl rfl rfl rfl quiet orderly

theorem step_effect (h : s.Ledger draws) (event : Event) : Effect draws s event (s.step draws event) := by
  cases event with
  | readRunning call =>
    simp only [step]
    split
    · exact .kept rfl rfl rfl rfl rfl rfl trivial trivial
    · exact .none trivial trivial
  | beginLaunch call hasProcess =>
    simp only [step]
    split
    next running hcall =>
      split_ifs with hopens
      · refine .begun rfl rfl rfl rfl rfl rfl trivial ⟨fun horderly => horderly running hcall hopens, fun hnone _ _ _ => hnone⟩
      · refine .kept rfl rfl rfl rfl rfl rfl trivial fun running' hcall' hopens' => ?_
        rw [hcall] at hcall'
        cases hcall'
        exact absurd hopens' hopens
    next hother => exact .none trivial fun running hcall => absurd hcall (hother running)
  | resetState call =>
    simp only [step]
    split
    · exact .cleared rfl rfl trivial trivial
    · exact .none trivial trivial
  | create call result =>
    simp only [step]
    split
    next number hcall =>
      have hunissued : number ∉ s.issued := h.numbered.unissued call number (by rw [hcall]; rfl)
      cases result with
      | failed => exact .kept rfl rfl rfl rfl rfl rfl (fun _ _ hne => absurd rfl hne) fun _ _ hne => absurd rfl hne
      | unwritten =>
        exact .created number hunissued rfl rfl rfl ⟨fun hok => hok number hcall (by decide), fun hnone _ _ _ => hnone⟩
          ⟨fun hok => hok number hcall (by decide), fun hnone _ _ _ => hnone⟩
      | created =>
        exact .created number hunissued rfl rfl rfl ⟨fun hok => hok number hcall (by decide), fun hnone _ _ _ => hnone⟩
          ⟨fun hok => hok number hcall (by decide), fun hnone _ _ _ => hnone⟩
    next hother =>
      exact .none (fun number hcall => absurd hcall (hother number)) fun number hcall => absurd hcall (hother number)
  | publish call =>
    simp only [step]
    split
    next number hcall =>
      have hsame : ∀ number', s.calls call = .created number' → number' = number := by
        intro number' hcall'
        rw [hcall] at hcall'
        cases hcall'
        rfl
      refine .published number rfl rfl rfl rfl rfl rfl (h.memory.created call number hcall)
        ⟨fun hok => hok number hcall, fun hnumber number' hcall' => ?_⟩
        ⟨fun hok => hok number hcall, fun hnumber number' hcall' => ?_⟩
      · rw [hsame number' hcall']
        exact hnumber
      · rw [hsame number' hcall']
        exact hnumber
    next hother =>
      exact .none (fun number hcall => absurd hcall (hother number)) fun number hcall => absurd hcall (hother number)
  | startHelper call result =>
    simp only [step]
    split
    · exact .kept rfl rfl rfl rfl rfl rfl trivial trivial
    · exact .none trivial trivial
  | cleanUp call =>
    simp only [step]
    split
    · exact .cleared rfl rfl trivial trivial
    · exact .cleared rfl rfl trivial trivial
    · exact .none trivial trivial
  | endFailed call =>
    simp only [step]
    split
    · exact .kept rfl rfl rfl rfl rfl rfl trivial trivial
    · exact .none trivial trivial
  | present conn candidate =>
    simp only [step, consumeRuntimeIpcTokenIfMatch]
    split
    next s' name hconn hconsume =>
      split_ifs at hconsume
      · cases hconsume
        exact .taken rfl rfl rfl rfl trivial trivial
      · cases hconsume
    next => exact .none trivial trivial
  | succeed conn =>
    simp only [step]
    split
    · exact .kept rfl rfl rfl rfl rfl rfl trivial trivial
    · exact .none trivial trivial
  | fail conn written =>
    simp only [step]
    split
    next token name hconn =>
      obtain ⟨number, hissued, hnumber, hname⟩ := h.spent.held conn token name hconn
      rw [restore_eq h hconn]
      split_ifs with hback
      · have hplace : s.shmemRuntimeName = some (draws.name number) := hback.2.1.trans hname
        have hmemory := h.memory.name
        rw [hplace] at hmemory
        obtain ⟨shmem, hshmem, hin⟩ := map_eq_some_iff.mp hmemory
        refine .restored number hissued (by rw [← hnumber]; rfl) ?_ hplace rfl rfl rfl rfl trivial ⟨fun hok => ?_, ?_⟩
        · change s.shmem.map (SharedMemory.write · (some token)) = _
          rw [hshmem, ← hin, hnumber]
          rfl
        · have heq := hok token name hconn hback.1 hback.2.1 hback.2.2
          exact draws.token_injective (hnumber.symm.trans heq)
        · rintro rfl token' name' hconn' - - -
          rw [hconn] at hconn'
          cases hconn'
          exact hnumber
      · refine .kept rfl rfl rfl rfl rfl rfl trivial fun token' name' hconn' hnone hsame hwritten => ?_
        rw [hconn] at hconn'
        cases hconn'
        exact absurd ⟨hnone, hsame, hwritten⟩ hback
    next hother => exact .none trivial fun token name hconn => absurd hconn (hother token name)
  | endRefused conn =>
    simp only [step]
    split
    · exact .kept rfl rfl rfl rfl rfl rfl trivial trivial
    · exact .none trivial trivial
  | shutdown => exact .cleared rfl rfl trivial trivial
  | setRunning running => exact .kept rfl rfl rfl rfl rfl rfl trivial trivial
  | resetStarting => exact .kept rfl rfl rfl rfl rfl rfl trivial trivial

end Effects

section Exactness

variable {s' : Service} {event : Event} {newest number : ℕ}

/-- The shared memory of a launch that has published its token is that of the launch that was the last to reset the state. -/
def LastReset (draws : Draws) (s : Service) : Prop :=
  ∀ number ∈ s.issued, s.shmemRuntimeName = some (draws.name number) → s.current = number

theorem inForce_of_none {newest : ℕ} (h : s.ipcRuntimeToken = none) : s.InForce draws newest := by
  intro token htoken
  rw [h] at htoken
  exact nomatch htoken

theorem InForce.of_eq {newest : ℕ} (h : s.InForce draws newest) (htoken : s'.ipcRuntimeToken = s.ipcRuntimeToken)
    (hshmem : s'.shmem = s.shmem) (hname : s'.shmemRuntimeName = s.shmemRuntimeName) : s'.InForce draws newest := by
  intro token htoken'
  rw [hshmem, hname]
  exact h token (htoken.symm.trans htoken')

/-- The token of a launch is in force when its shared memory is in place. -/
theorem inForce_iff_of_token (htoken : s.ipcRuntimeToken = some (draws.token number))
    (hmemory : s.shmemRuntimeName = some (draws.name number) → s.shmem = some ⟨draws.name number, some (draws.token number)⟩) :
    s.InForce draws newest ↔ s.shmemRuntimeName = some (draws.name number) ∧ newest = number := by
  constructor
  · intro h
    obtain ⟨heq, -, hname⟩ := h _ htoken
    obtain rfl := draws.token_injective heq
    exact ⟨hname, rfl⟩
  · rintro ⟨hname, rfl⟩ token htoken'
    rw [htoken] at htoken'
    cases htoken'
    exact ⟨rfl, hmemory hname, hname⟩

/-- A new shared memory puts a token out of force. -/
theorem inForce_iff_of_created (h : s.Ledger draws) (hunissued : number ∉ s.issued)
    (htoken : s'.ipcRuntimeToken = s.ipcRuntimeToken)
    (hname : s'.shmemRuntimeName = some (draws.name number)) :
    s'.InForce draws newest ↔ s.ipcRuntimeToken = none := by
  constructor
  · intro h'
    cases hpublished : s.ipcRuntimeToken with
    | none => rfl
    | some token =>
      obtain ⟨heq, -, hname'⟩ := h' token (htoken.trans hpublished)
      obtain ⟨number', hissued, hnumber⟩ := h.spent.published token hpublished
      obtain rfl := draws.name_injective (some.inj (hname.symm.trans hname'))
      obtain rfl := draws.token_injective (heq.symm.trans hnumber)
      exact absurd hissued hunissued
  · intro hnone
    exact inForce_of_none (htoken.trans hnone)

theorem Effect.inForce_current_iff (h : s.Ledger draws) (hlast : s.LastReset draws) (hforce : s.InForce draws s.current)
    (heffect : Effect draws s event s') : s'.InForce draws s'.current ↔ s.Undisturbed draws event := by
  cases heffect with
  | kept token shmem name current _ _ quiet =>
    rw [current]
    exact iff_of_true (hforce.of_eq token shmem name) quiet
  | cleared token _ quiet => exact iff_of_true (inForce_of_none token) quiet
  | taken token _ _ _ quiet => exact iff_of_true (inForce_of_none token) quiet
  | begun token shmem name current _ _ quiet =>
    rw [current]
    exact iff_of_true (hforce.of_eq token shmem name) quiet
  | created number unissued token name _ quiet =>
    rw [quiet]
    exact inForce_iff_of_created h unissued token name
  | published number token shmem name current _ _ memory quiet =>
    rw [quiet, current, inForce_iff_of_token token (by rw [name, shmem]; exact memory), name]
  | restored number mem token shmem name name' current _ _ quiet =>
    refine iff_of_true ?_ quiet
    rw [inForce_iff_of_token token fun _ => shmem, name', current]
    exact ⟨name, hlast number mem name⟩

theorem Effect.inForce_starting_iff (h : s.Ledger draws) (hforce : s.InForce draws s.startingToken)
    (heffect : Effect draws s event s') : s'.InForce draws s'.startingToken ↔ s.Orderly draws event := by
  cases heffect with
  | kept token shmem name _ starting _ _ orderly =>
    rw [starting]
    exact iff_of_true (hforce.of_eq token shmem name) orderly
  | cleared token _ _ orderly => exact iff_of_true (inForce_of_none token) orderly
  | taken token _ _ _ _ orderly => exact iff_of_true (inForce_of_none token) orderly
  | begun token shmem name _ starting _ _ orderly =>
    rw [orderly]
    constructor
    · intro h'
      cases hpublished : s.ipcRuntimeToken with
      | none => rfl
      | some t =>
        obtain ⟨heq, -⟩ := h' t (token.trans hpublished)
        obtain ⟨heq', -⟩ := hforce t hpublished
        have hnumber := draws.token_injective (heq.symm.trans heq')
        omega
    · intro hnone
      exact inForce_of_none (token.trans hnone)
  | created number unissued token name _ _ orderly =>
    rw [orderly]
    exact inForce_iff_of_created h unissued token name
  | published number token shmem name _ starting _ memory _ orderly =>
    rw [orderly, starting, inForce_iff_of_token token (by rw [name, shmem]; exact memory), name]
  | restored number mem token shmem name name' _ starting _ _ orderly =>
    rw [orderly, starting, inForce_iff_of_token token fun _ => shmem, name', and_iff_right name, eq_comm]

theorem Effect.lastReset (hlast : s.LastReset draws) (hok : s.Undisturbed draws event) (heffect : Effect draws s event s') :
    s'.LastReset draws := by
  intro number' hissued hname
  cases heffect with
  | kept _ _ name current _ issued =>
    rw [current]
    exact hlast number' (issued ▸ hissued) (name.symm.trans hname)
  | cleared _ name =>
    rw [name] at hname
    exact nomatch hname
  | taken _ name current issued =>
    rw [current]
    exact hlast number' (issued ▸ hissued) (name.symm.trans hname)
  | begun _ _ name current _ issued =>
    rw [current]
    exact hlast number' (issued ▸ hissued) (name.symm.trans hname)
  | created number unissued _ name issued =>
    obtain rfl := draws.name_injective (some.inj (name.symm.trans hname))
    exact absurd (issued ▸ hissued) unissued
  | published number _ _ name current _ issued _ quiet =>
    rw [issued] at hissued
    rw [current]
    obtain rfl | hmem := mem_cons.mp hissued
    · exact (quiet.mp hok).2
    · exact hlast number' hmem (name.symm.trans hname)
  | restored _ _ _ _ _ name' current _ issued =>
    rw [current]
    exact hlast number' (issued ▸ hissued) (name'.symm.trans hname)

/-- The property in terms of what is published. -/
theorem Ledger.oneTime_iff (h : s.Ledger draws) (newest : ℕ) : s.OneTime draws newest ↔ s.InForce draws newest := by
  constructor
  · intro honce token htoken
    obtain ⟨heq, hshmem, hname, -⟩ := honce.token token htoken
    exact ⟨heq, hshmem, hname⟩
  · intro hforce
    refine ⟨fun token htoken => ?_, fun candidate haccepts => ?_, h.spent.nodup⟩
    · obtain ⟨heq, hshmem, hname⟩ := hforce token htoken
      exact ⟨heq, hshmem, hname, (h.spent.published_free token htoken).1⟩
    · unfold consumeRuntimeIpcTokenIfMatch at haccepts
      split_ifs at haccepts with hmatch
      obtain ⟨token, htoken, heq⟩ := (any_eq_true _ _).mp hmatch
      rw [← eq_of_constantTimeIpcTokenEq heq]
      exact (hforce token htoken).1

end Exactness

/-- Through a run a published token is that of the last launch, in its shared memory and not used, exactly when the launches
leave each other undisturbed. A launch counts from its number on, or from when it resets the runtime state. -/
theorem token_one_time_iff (draws : Draws) (events : List Event) :
    let step := fun (s : Service) event => s.step draws event
    ((∀ es₁ es₂, events = es₁ ++ es₂ → (runEvents step {} es₁).OneTime draws (runEvents step {} es₁).startingToken) ↔
        RunMeets step (Orderly draws) {} events) ∧
      ((∀ es₁ es₂, events = es₁ ++ es₂ → (runEvents step {} es₁).OneTime draws (runEvents step {} es₁).current) ↔
        RunMeets step (Undisturbed draws) {} events) := by
  have hstart := ledger_start draws
  have hnothing (newest : ℕ) : ({} : Service).OneTime draws newest := (hstart.oneTime_iff newest).mpr (inForce_of_none rfl)
  constructor
  · apply runMeets_iff (I := Ledger draws) (P := fun s : Service => s.OneTime draws s.startingToken) ?_ ?_ hstart (hnothing _)
    · intro s event h honce _
      exact h.step ((h.oneTime_iff _).mp honce) event
    · intro s event h honce
      have hforce := (h.oneTime_iff _).mp honce
      rw [(h.step hforce event).oneTime_iff]
      exact (step_effect h event).inForce_starting_iff h hforce
  · apply runMeets_iff (I := fun s : Service => s.Ledger draws ∧ s.LastReset draws)
      (P := fun s : Service => s.OneTime draws s.current) ?_ ?_ ⟨hstart, nofun⟩ (hnothing _)
    · intro s event ⟨h, hlast⟩ honce hok
      exact ⟨h.step ((h.oneTime_iff _).mp honce) event, (step_effect h event).lastReset hlast hok⟩
    · intro s event ⟨h, hlast⟩ honce
      have hforce := (h.oneTime_iff _).mp honce
      rw [(h.step hforce event).oneTime_iff]
      exact (step_effect h event).inForce_current_iff h hlast hforce

/-- Draws of the right length, as long as there are few launches. -/
def sampleDraws : Draws where
  token number := replicate (ipcTokenLen + number / 256) (ofNat number)
  name number := String.ofList (replicate number 'x')
  token_injective := by
    intro m n h
    have hlength := congrArg length h
    simp only [length_replicate, Nat.add_left_cancel_iff] at hlength
    have hm : ofNat m ∈ replicate (ipcTokenLen + m / 256) (ofNat m) :=
      mem_replicate.mpr ⟨by simp [ipcTokenLen], rfl⟩
    have hmem : ofNat m ∈ replicate (ipcTokenLen + n / 256) (ofNat n) := Eq.mp (congrArg (_ ∈ ·) h) hm
    have hmod := congrArg toNat (eq_of_mem_replicate hmem)
    simp only [toNat_ofNat'] at hmod
    omega
  name_injective := by
    intro m n h
    have hlist := congrArg String.toList h
    simpa using congrArg length hlist

/-- A launch is overtaken between the creation of its shared memory and the publication of its token: no helper runs yet, so
that the next one takes it for stale. -/
def overtaken : List Event :=
  [.readRunning 0, .beginLaunch 0 false, .resetState 0, .create 0 .created,
    .readRunning 1, .beginLaunch 1 false, .resetState 1, .create 1 .created, .publish 1, .publish 0]

/-- The token of the older launch is published over the shared memory of the newer one. -/
theorem overtaken_token_published :
    let s := runEvents (fun (s : Service) event => s.step sampleDraws event) {} overtaken
    s.startingToken = 2 ∧ s.current = 2 ∧ s.ipcRuntimeToken = some (sampleDraws.token 1) ∧
      ¬s.OneTime sampleDraws s.startingToken ∧ ¬s.OneTime sampleDraws s.current := by
  have htoken : (runEvents (fun (s : Service) event => s.step sampleDraws event) {} overtaken).ipcRuntimeToken =
      some (sampleDraws.token 1) := rfl
  have hfirst : sampleDraws.token 1 ≠ sampleDraws.token 2 := fun h => absurd (sampleDraws.token_injective h) (by decide)
  exact ⟨rfl, rfl, htoken, fun h => hfirst (h.token _ htoken).1, fun h => hfirst (h.token _ htoken).1⟩

end Service

end UnyDesk.Portable
