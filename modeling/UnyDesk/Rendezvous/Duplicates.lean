import Mathlib.Algebra.Order.Group.Nat
import Mathlib.Data.Nat.Find
import Mathlib.Data.Set.Insert
import UnyDesk.Lib.Machine
import UnyDesk.Net.AddrMangle

/-!
# Requests that arrive several times

A request for a connection can arrive more than once, and each copy has a task of its own that
handles it. A static has the address of the peer whose handler was the last one to write it, with a
time; two kinds of requests have one static together and the third kind has another one. A handler
locks its static twice, first to read it and then to write it. It drops the request when it has
read the address of its own peer with a time less than 100 milliseconds ago.

Between the two locks other handlers read and write, and a static has one address only. Of the
copies of a request one goes on as long as each copy but the first one still finds the address of
its peer when it reads, in time, and the first one does not.
-/

namespace UnyDesk.Rendezvous.Duplicates

open Lib List Option

/-- The messages for which a handler is spawned. -/
inductive Kind
  | punchHole
  | fetchLocalAddr
  | requestRelay
deriving DecidableEq

/-- A message by its kind and the address that is decoded from it, with the time at which its handler starts. -/
structure Request where
  kind : Kind
  addr : SocketAddr
  start : ℕ
deriving DecidableEq

/-- `(SocketAddr, Instant)`, in nanoseconds. -/
structure Mark where
  addr : SocketAddr
  instant : ℕ
deriving DecidableEq

/-- How far a handler is. -/
inductive Phase
  | spawned
  /-- The first lock is released. -/
  | read (last : Mark)
  /-- `Instant::now()` is taken before the second lock. -/
  | stamped (last : Mark) (instant : ℕ)
  /-- The second lock is released. -/
  | marked (last : Mark)
  | dropped
  | goesOn
deriving DecidableEq

/-- The handlers have the numbers of their requests. A static is empty before it is used first. -/
structure State where
  now : ℕ := 0
  lastMsg : Option Mark := none
  lastRelayMsg : Option Mark := none
  requests : List Request := []
  phase : ℕ → Phase := fun _ => .spawned

/-- `SocketAddr::new([0; 4].into(), 0)` -/
def unspecified : SocketAddr := .v4 ⟨0, 0, 0, 0⟩ 0

/-- What the lock gives; the static is initialized by its first use. -/
def lockedMark (now : ℕ) (static : Option Mark) : Mark := static.getD ⟨unspecified, now⟩

/-- `last.0 == addr && last.1.elapsed().as_millis() < 100` -/
def isDuplicate (now : ℕ) (addr : SocketAddr) (last : Mark) : Bool :=
  last.addr = addr && (now - last.instant) / 1000000 < 100

/-- The next step of a handler, with its static. -/
def skipDuplicate (now : ℕ) (addr : SocketAddr) (static : Option Mark) : Phase → Option Mark × Phase
  | .spawned => (some (lockedMark now static), .read (lockedMark now static))
  | .read last => (static, .stamped last now)
  | .stamped last instant => (some ⟨addr, instant⟩, .marked last)
  | .marked last => (static, if isDuplicate now addr last then .dropped else .goesOn)
  | .dropped => (static, .dropped)
  | .goesOn => (static, .goesOn)

namespace State

variable (s : State)

def setPhase (i : ℕ) (phase : Phase) : State := { s with phase := Function.update s.phase i phase }

def handlePunchHole (i : ℕ) (addr : SocketAddr) : State :=
  let (static, phase) := skipDuplicate s.now addr s.lastMsg (s.phase i)
  { s with lastMsg := static }.setPhase i phase

def handleIntranet (i : ℕ) (addr : SocketAddr) : State :=
  let (static, phase) := skipDuplicate s.now addr s.lastMsg (s.phase i)
  { s with lastMsg := static }.setPhase i phase

def handleRequestRelay (i : ℕ) (addr : SocketAddr) : State :=
  let (static, phase) := skipDuplicate s.now addr s.lastRelayMsg (s.phase i)
  { s with lastRelayMsg := static }.setPhase i phase

/-- The static of the handlers of a kind. -/
def static : Kind → Option Mark
  | .punchHole | .fetchLocalAddr => s.lastMsg
  | .requestRelay => s.lastRelayMsg

end State

inductive Event
  | pass (time : ℕ)
  /-- A task is spawned for a message and starts. -/
  | start (kind : Kind) (addr : SocketAddr)
  /-- The handler with this number takes its next step. -/
  | run (i : ℕ)

def step (s : State) : Event → State
  | .pass time => { s with now := s.now + time }
  | .start kind addr => { s with requests := s.requests ++ [⟨kind, addr, s.now⟩] }
  | .run i =>
    match s.requests[i]? with
    | none => s
    | some ⟨.punchHole, addr, _⟩ => s.handlePunchHole i addr
    | some ⟨.fetchLocalAddr, addr, _⟩ => s.handleIntranet i addr
    | some ⟨.requestRelay, addr, _⟩ => s.handleRequestRelay i addr

section Specification

/-- 100 milliseconds. -/
def window : ℕ := 100 * 1000000

def Request.IsCopy (q r : Request) : Prop := q.kind = r.kind ∧ q.addr = r.addr

instance (q r : Request) : Decidable (q.IsCopy r) := inferInstanceAs (Decidable (_ ∧ _))

/-- Their handlers start within the window of each other. -/
def Request.IsClose (q r : Request) : Prop := q.start < r.start + window ∧ r.start < q.start + window

instance (q r : Request) : Decidable (q.IsClose r) := inferInstanceAs (Decidable (_ ∧ _))

/-- The numbers of all copies of one request whose handlers start within the window of each other. -/
structure IsGroup (requests : List Request) (numbers : Set ℕ) : Prop where
  nonempty : numbers.Nonempty
  started : ∀ i ∈ numbers, ∃ r, requests[i]? = some r ∧ r.addr ≠ unspecified
  close : ∀ i ∈ numbers, ∀ j ∈ numbers, ∀ q r, requests[i]? = some q → requests[j]? = some r → q.IsCopy r ∧ q.IsClose r
  all : ∀ j r, requests[j]? = some r →
    (∀ i ∈ numbers, ∀ q, requests[i]? = some q → q.IsCopy r ∧ q.IsClose r) → j ∈ numbers

/-- Exactly one of the copies of a request goes on, and a request is not dropped without a request from its peer within
the window before it. -/
structure ServedOnce (s : State) : Prop where
  unique : ∀ numbers, IsGroup s.requests numbers → ∀ i ∈ numbers, ∀ j ∈ numbers,
    s.phase i = .goesOn → s.phase j = .goesOn → i = j
  served : ∀ numbers, IsGroup s.requests numbers → (∀ i ∈ numbers, s.phase i = .dropped ∨ s.phase i = .goesOn) →
    ∃ i ∈ numbers, s.phase i = .goesOn
  fresh : ∀ i r, s.requests[i]? = some r → s.phase i = .dropped →
    ∃ q ∈ s.requests.take i, q.addr = r.addr ∧ r.start < q.start + window

end Specification

section Condition

/-- A copy that started within the window is among the requests before this one. -/
def Preceded (before : List Request) (r : Request) : Prop := ∃ q ∈ before, q.IsCopy r ∧ r.start < q.start + window

instance (before : List Request) (r : Request) : Decidable (Preceded before r) :=
  inferInstanceAs (Decidable (∃ q ∈ before, q.IsCopy r ∧ r.start < q.start + window))

/-- Copies come in groups: a copy within the window of one copy is within the window of the copies that this one is
within the window of. -/
def Grouped (before : List Request) (r : Request) : Prop :=
  ∀ q ∈ before, q.IsCopy r → r.start < q.start + window →
    ∀ p ∈ before, p.IsCopy r → q.start < p.start + window → r.start < p.start + window

instance (before : List Request) (r : Request) : Decidable (Grouped before r) :=
  inferInstanceAs (Decidable (∀ q ∈ before, q.IsCopy r → r.start < q.start + window →
    ∀ p ∈ before, p.IsCopy r → q.start < p.start + window → r.start < p.start + window))

/-- What a handler meets where it reads, and where it compares. -/
def Finds (s : State) (i : ℕ) (r : Request) : Phase → Prop
  | .spawned => Preceded (s.requests.take i) r → (lockedMark s.now (s.static r.kind)).addr = r.addr
  | .marked last =>
    if Preceded (s.requests.take i) r then s.now < last.instant + window
    else last.addr = r.addr → last.instant + window ≤ s.now
  | _ => True

instance (s : State) (i : ℕ) (r : Request) : ∀ phase, Decidable (Finds s i r phase)
  | .spawned =>
    inferInstanceAs (Decidable (Preceded (s.requests.take i) r → (lockedMark s.now (s.static r.kind)).addr = r.addr))
  | .marked last =>
    inferInstanceAs (Decidable (if Preceded (s.requests.take i) r then s.now < last.instant + window
      else last.addr = r.addr → last.instant + window ≤ s.now))
  | .read _ | .stamped _ _ | .dropped | .goesOn => .isTrue trivial

/-- A request comes in a group. A handler behind a copy reads the address of its peer, and compares within the window;
another one does not find the address of its peer, or not any more within the window. -/
def Fits (s : State) : Event → Prop
  | .pass _ => True
  | .start kind addr => Grouped s.requests ⟨kind, addr, s.now⟩
  | .run i => ∀ r ∈ s.requests[i]?, Finds s i r (s.phase i)

instance (s : State) : ∀ e, Decidable (Fits s e)
  | .pass _ => .isTrue trivial
  | .start _ _ => inferInstanceAs (Decidable (Grouped _ _))
  | .run i => inferInstanceAs (Decidable (∀ r ∈ s.requests[i]?, Finds s i r (s.phase i)))

end Condition

section Steps

variable {s : State} {before : List Request} {i : ℕ} {q r : Request} {p : Phase} {last : Mark} {addr : SocketAddr}

theorem isDuplicate_iff {now : ℕ} :
    isDuplicate now addr last = true ↔ last.addr = addr ∧ now < last.instant + window := by
  have hwindow : (now - last.instant) / 1000000 < 100 ↔ now < last.instant + 100 * 1000000 := by omega
  rw [isDuplicate, Bool.and_eq_true, decide_eq_true_eq, decide_eq_true_eq, window, hwindow]

theorem step_run (h : s.requests[i]? = some r) : step s (.run i) =
    let next := skipDuplicate s.now r.addr (s.static r.kind) (s.phase i)
    { step s (.run i) with
      now := s.now, requests := s.requests, phase := Function.update s.phase i next.2 } := by
  obtain ⟨kind, addr, start⟩ := r
  simp only [step, h]
  cases kind <;> rfl

theorem step_run_of_none (h : s.requests[i]? = none) : step s (.run i) = s := by
  simp only [step, h]

/-- What a handler knows about the copies before it. -/
def Knows (before : List Request) (r : Request) : Phase → Prop
  | .spawned => True
  | .read last | .stamped last _ | .marked last => Preceded before r → last.addr = r.addr
  | .dropped => Preceded before r
  | .goesOn => ¬ Preceded before r

/-- What a handler has to find in order to drop its request exactly when a copy is before it. -/
theorem Knows.skipDuplicate_iff (h : Knows (s.requests.take i) r p) :
    Knows (s.requests.take i) r (skipDuplicate s.now r.addr (s.static r.kind) p).2 ↔ Finds s i r p := by
  cases p with
  | spawned => exact Iff.rfl
  | read last => exact iff_of_true h trivial
  | stamped last instant => exact iff_of_true h trivial
  | marked last =>
    dsimp only [Finds, skipDuplicate]
    by_cases hdrop : isDuplicate s.now r.addr last = true
    · obtain ⟨haddr, hlt⟩ := isDuplicate_iff.mp hdrop
      rw [if_pos hdrop]
      by_cases hbefore : Preceded (s.requests.take i) r
      · rw [if_pos hbefore]
        exact iff_of_true hbefore hlt
      · rw [if_neg hbefore]
        exact iff_of_false hbefore fun hfinds => absurd hlt (not_lt.mpr (hfinds haddr))
    · rw [if_neg hdrop]
      by_cases hbefore : Preceded (s.requests.take i) r
      · rw [if_pos hbefore]
        exact iff_of_false (not_not_intro hbefore) fun hlt => hdrop (isDuplicate_iff.mpr ⟨h hbefore, hlt⟩)
      · rw [if_neg hbefore]
        exact iff_of_true hbefore fun haddr => not_lt.mp fun hlt => hdrop (isDuplicate_iff.mpr ⟨haddr, hlt⟩)
  | dropped => exact iff_of_true h trivial
  | goesOn => exact iff_of_true h trivial

/-- The handlers started in the order of their requests, the copies are in groups, and every handler knows those before
it. -/
structure Orderly (s : State) : Prop where
  past : ∀ r ∈ s.requests, r.start ≤ s.now
  sorted : s.requests.Pairwise fun q r => q.start ≤ r.start
  grouped : ∀ i r, s.requests[i]? = some r → Grouped (s.requests.take i) r
  knows : ∀ i r, s.requests[i]? = some r → Knows (s.requests.take i) r (s.phase i)
  later : ∀ i, s.requests.length ≤ i → s.phase i = .spawned

/-- A request among those with one more is an earlier one or the new one. -/
theorem getElem?_concat {requests : List Request} (h : (requests ++ [q])[i]? = some r) :
    requests[i]? = some r ∧ (requests ++ [q]).take i = requests.take i ∨
      i = requests.length ∧ r = q ∧ (requests ++ [q]).take i = requests := by
  rcases lt_or_ge i requests.length with hlt | hge
  · rw [getElem?_append_left hlt] at h
    exact .inl ⟨h, take_append_of_le_length hlt.le⟩
  · rw [getElem?_append_right hge, getElem?_singleton, ite_none_right_eq_some] at h
    have hlength : i = requests.length := by omega
    exact .inr ⟨hlength, (some.inj h.2).symm, by rw [hlength, take_left]⟩

section

variable (h : Orderly s)
include h

theorem Orderly.start {kind : Kind} (hgroup : Grouped s.requests ⟨kind, addr, s.now⟩) :
    Orderly (step s (.start kind addr)) := by
  have hspawned : s.phase s.requests.length = .spawned := h.later _ le_rfl
  constructor
  case past =>
    intro r hr
    rcases mem_append.mp hr with hr | hr
    · exact h.past r hr
    · rw [mem_singleton.mp hr]
      exact le_rfl
  case sorted =>
    refine pairwise_append.mpr ⟨h.sorted, pairwise_singleton _ _, fun q hq r hr => ?_⟩
    rw [mem_singleton.mp hr]
    exact h.past q hq
  case grouped =>
    intro i r hr
    rcases getElem?_concat hr with ⟨hold, htake⟩ | ⟨-, rfl, htake⟩
    · exact htake ▸ h.grouped i r hold
    · exact htake ▸ hgroup
  case knows =>
    intro i r hr
    rcases getElem?_concat hr with ⟨hold, htake⟩ | ⟨rfl, rfl, htake⟩
    · exact htake ▸ h.knows i r hold
    · exact hspawned ▸ trivial
  case later =>
    intro i hi
    have hlength : s.requests.length ≤ (step s (.start kind addr)).requests.length :=
      (sublist_append_left s.requests [⟨kind, addr, s.now⟩]).length_le
    exact h.later i (hlength.trans hi)

theorem Orderly.run (hfinds : ∀ r ∈ s.requests[i]?, Finds s i r (s.phase i)) : Orderly (step s (.run i)) := by
  cases hr : s.requests[i]? with
  | none =>
    rw [step_run_of_none hr]
    exact h
  | some r =>
    rw [step_run hr]
    refine ⟨h.past, h.sorted, h.grouped, fun j q hq => ?_, fun j hj => ?_⟩
    · by_cases hj : j = i
      · subst hj
        obtain rfl : r = q := some.inj (hr.symm.trans hq)
        have hknows := (h.knows j r hr).skipDuplicate_iff.mpr (hfinds r hr)
        simpa using hknows
      · simpa [hj] using h.knows j q hq
    · have hne : j ≠ i := by
        rintro rfl
        have hnone := getElem?_eq_none hj
        cases hr.symm.trans hnone
      simpa [hne] using h.later j hj

theorem Orderly.step {e : Event} (hfits : Fits s e) : Orderly (step s e) := by
  cases e with
  | pass time =>
    exact ⟨fun r hr => (h.past r hr).trans (Nat.le_add_right _ _), h.sorted, h.grouped, h.knows, h.later⟩
  | start kind addr => exact h.start hfits
  | run i => exact h.run hfits

/-- Of the copies in a group the first one has no copy before it, and it is before all others. -/
theorem Orderly.exists_first {numbers : Set ℕ} (hgroup : IsGroup s.requests numbers) :
    ∃ i ∈ numbers, (∀ r, s.requests[i]? = some r → ¬ Preceded (s.requests.take i) r) ∧
      ∀ j ∈ numbers, j ≠ i → ∀ r, s.requests[j]? = some r → Preceded (s.requests.take j) r := by
  classical
  let first := Nat.find hgroup.nonempty
  have hfirst : first ∈ numbers := Nat.find_spec hgroup.nonempty
  have hle : ∀ j ∈ numbers, first ≤ j := fun j hj => Nat.find_min' hgroup.nonempty hj
  have hbefore : ∀ {j k q r}, s.requests[j]? = some q → s.requests[k]? = some r → j < k →
      q ∈ s.requests.take k ∧ q.start ≤ r.start := by
    intro j k q r hq hr hjk
    obtain ⟨hj, rfl⟩ := List.getElem?_eq_some_iff.mp hq
    obtain ⟨hk, rfl⟩ := List.getElem?_eq_some_iff.mp hr
    exact ⟨List.mem_take_iff_getElem.mpr ⟨j, by omega, rfl⟩, List.pairwise_iff_getElem.mp h.sorted j k hj hk hjk⟩
  refine ⟨first, hfirst, ?_, ?_⟩
  · rintro r hr ⟨p, hp, hcopy, hclose⟩
    obtain ⟨k, hk, hkp⟩ := List.mem_take_iff_getElem.mp hp
    have hp : s.requests[k]? = some p := List.getElem?_eq_some_iff.mpr ⟨by omega, hkp⟩
    have hkfirst : k < first := by omega
    refine absurd (hle k ?_) (not_le.mpr hkfirst)
    -- the earlier copy is within the window of the whole group
    refine hgroup.all k p hp fun j hj q hq => ?_
    obtain ⟨hsame, hnear⟩ := hgroup.close j hj first hfirst q r hq hr
    have hpq := hbefore hp hq (lt_of_lt_of_le hkfirst (hle j hj))
    have hcopy' : p.IsCopy q := ⟨hcopy.1.trans hsame.1.symm, hcopy.2.trans hsame.2.symm⟩
    refine ⟨⟨hcopy'.1.symm, hcopy'.2.symm⟩, ?_, by have := hpq.2; unfold window; omega⟩
    rcases eq_or_lt_of_le (hle j hj) with rfl | hlt
    · obtain rfl : r = q := Option.some.inj (hr.symm.trans hq)
      exact hclose
    · have hrq := hbefore hr hq hlt
      exact h.grouped j q hq r hrq.1 ⟨hsame.1.symm, hsame.2.symm⟩ hnear.1 p hpq.1 hcopy' hclose
  · intro j hj hne r hr
    obtain ⟨q, hq, -⟩ := hgroup.started first hfirst
    have hlt : first < j := lt_of_le_of_ne (hle j hj) hne.symm
    obtain ⟨hcopy, hnear⟩ := hgroup.close first hfirst j hj q r hq hr
    exact ⟨q, (hbefore hq hr hlt).1, hcopy, hnear.2⟩

theorem Orderly.servedOnce : ServedOnce s := by
  have hfirst : ∀ {numbers}, IsGroup s.requests numbers → ∀ i ∈ numbers, s.phase i = .goesOn →
      ∀ r, s.requests[i]? = some r → ¬ Preceded (s.requests.take i) r := by
    intro numbers _ i _ hgoes r hr
    have hknows := h.knows i r hr
    rw [hgoes] at hknows
    exact hknows
  constructor
  case unique =>
    intro numbers hgroup i hi j hj hgoesi hgoesj
    obtain ⟨first, -, -, hothers⟩ := h.exists_first hgroup
    have hone : ∀ k ∈ numbers, s.phase k = .goesOn → k = first := by
      intro k hk hgoes
      obtain ⟨r, hr, -⟩ := hgroup.started k hk
      by_contra hne
      exact hfirst hgroup k hk hgoes r hr (hothers k hk hne r hr)
    exact (hone i hi hgoesi).trans (hone j hj hgoesj).symm
  case served =>
    intro numbers hgroup hdecided
    obtain ⟨first, hin, hnone, -⟩ := h.exists_first hgroup
    obtain ⟨r, hr, -⟩ := hgroup.started first hin
    refine ⟨first, hin, (hdecided first hin).resolve_left fun hdropped => ?_⟩
    have hknows := h.knows first r hr
    rw [hdropped] at hknows
    exact hnone r hr hknows
  case fresh =>
    intro i r hr hdropped
    have hknows := h.knows i r hr
    rw [hdropped] at hknows
    obtain ⟨q, hq, hcopy, hclose⟩ := hknows
    exact ⟨q, hq, hcopy.2, hclose⟩

end

end Steps

theorem orderly_start : Orderly {} :=
  ⟨nofun, List.Pairwise.nil, nofun, nofun, fun _ _ => rfl⟩

/-- In every state of a run that fits, requests are served once. -/
theorem requests_served_once (run : List Event) (h : RunMeets step Fits {} run) (before after : List Event)
    (hrun : run = before ++ after) : ServedOnce (runEvents step {} before) := by
  have hbefore := (runMeets_append.mp (hrun ▸ h)).1
  exact (runEvents_invariant (fun s e hs hfits => hs.step hfits) orderly_start hbefore).servedOnce

section Samples

/-- A request starts and its handler takes its four steps. -/
def handled (kind : Kind) (addr : SocketAddr) (i : ℕ) : List Event :=
  .start kind addr :: List.replicate 4 (.run i)

def peer (d : UInt8) : SocketAddr := .v4 ⟨192, 168, 0, d⟩ 21116

/-- Two copies 10 milliseconds apart, and another peer. -/
def copies : List Event :=
  handled .punchHole (peer 1) 0 ++ .pass 10000000 :: handled .punchHole (peer 1) 1 ++ handled .requestRelay (peer 2) 2

theorem requests_served_once_copies : ServedOnce (runEvents step {} copies) :=
  requests_served_once copies (by decide) copies [] (List.append_nil _).symm

/-- Another peer's request in between. -/
def interrupted : List Event :=
  handled .punchHole (peer 1) 0 ++ handled .punchHole (peer 2) 1 ++ handled .punchHole (peer 1) 2

theorem not_served_once_interrupted : ¬ ∀ run, ServedOnce (runEvents step {} run) := by
  intro h
  have hrequests : (runEvents step {} interrupted).requests =
      [⟨.punchHole, peer 1, 0⟩, ⟨.punchHole, peer 2, 0⟩, ⟨.punchHole, peer 1, 0⟩] := by decide
  have hgroup : IsGroup (runEvents step {} interrupted).requests {0, 2} := by
    rw [hrequests]
    constructor
    case nonempty => exact ⟨0, .inl rfl⟩
    case started =>
      rintro i (rfl | rfl)
      · exact ⟨_, rfl, by decide⟩
      · exact ⟨_, rfl, by decide⟩
    case close =>
      rintro i (rfl | rfl) j (rfl | rfl) q r ⟨⟩ ⟨⟩ <;> decide
    case all =>
      intro j r hr hall
      have hcopy := (hall 0 (.inl rfl) _ rfl).1
      match j with
      | 0 => exact .inl rfl
      | 1 =>
        obtain rfl := Option.some.inj hr
        exact absurd hcopy (by decide)
      | 2 => exact .inr rfl
      | j + 3 => cases hr
  have hsame := (h interrupted).unique {0, 2} hgroup 0 (.inl rfl) 2 (.inr rfl) (by decide) (by decide)
  exact absurd hsame (by decide)

end Samples

end UnyDesk.Rendezvous.Duplicates
