import Mathlib.Tactic.NormNum
import UnyDesk.Lib.ByteMemory
import UnyDesk.Lib.Simulation

/-!
# The counters in shared memory

The helper of the portable service and the server share two pairs of numbers, one for frames and one
for cursors. The writer counts the first number of a pair up and starts again at zero; the reader
makes the second number equal to it and takes unequal numbers for news.

The writer means to set the second number back where its count arrives there, but it compares its own
number instead. So news is lost when the count has gone round once without being read.
-/

namespace UnyDesk.FrameCounter

open Lib

def i32Max : ℤ := 2 ^ 31 - 1

def sizeOfI32 : ℕ := 4

section Model

variable (m : ByteMemory) (counter : ℕ)

def ptrToI32 (ptr : ℕ) : ℤ := m.readI32 ptr

/-- What it returns, and the memory. -/
def counterReady : Bool × ByteMemory :=
  let wptr := counter
  let rptr := counter + sizeOfI32
  let iw := ptrToI32 m wptr
  let ir := ptrToI32 m rptr
  (ir ≠ iw, if ir ≠ iw then m.write rptr (m.read wptr sizeOfI32) else m)

def counterEqual : Bool :=
  let wptr := counter
  let rptr := counter + sizeOfI32
  let iw := ptrToI32 m wptr
  let ir := ptrToI32 m rptr
  iw = ir

def increaseCounter : ByteMemory :=
  let wptr := counter
  let rptr := counter + sizeOfI32
  let iw := ptrToI32 m counter
  -- the number of the writer once more
  let ir := ptrToI32 m counter
  let iwPlus1 := if iw = i32Max then 0 else iw + 1
  let m := m.write wptr (ByteMemory.i32Bytes iwPlus1)
  if ir = iwPlus1 then m.write rptr (ByteMemory.i32Bytes iw) else m

end Model

inductive Call
  | increase
  | ready
  | equal

def step (counter : ℕ) (m : ByteMemory) : Call → ByteMemory
  | .increase => increaseCounter m counter
  | .ready => (counterReady m counter).2
  | .equal => m

/-- The numbers differ after an increase, and only `counter_ready` makes them equal again. -/
structure Notifies (counter : ℕ) (m : ByteMemory) (call : Call) : Prop where
  unequal : call = .increase → counterEqual (step counter m call) counter = false
  readied : counterEqual m counter = false → counterEqual (step counter m call) counter = true → call = .ready

structure AtZero (m : ByteMemory) (counter : ℕ) : Prop where
  write : ptrToI32 m counter = 0
  read : ptrToI32 m (counter + sizeOfI32) = 0

/-- What is to be read: the increases since the last `counter_ready`. -/
def unreadStep (unread : ℕ) : Call → ℕ
  | .increase => unread + 1
  | .ready => 0
  | .equal => unread

def unread (run : List Call) : ℕ := runEvents unreadStep 0 run

section Specification

variable {m : ByteMemory} {counter n : ℕ}

/-- The number after this one. -/
def next (iw : ℤ) : ℤ := if iw = i32Max then 0 else iw + 1

theorem next_ne (iw : ℤ) : iw ≠ next iw := by
  unfold next i32Max
  split <;> omega

theorem increaseCounter_eq :
    increaseCounter m counter = m.write counter (ByteMemory.i32Bytes (next (ptrToI32 m counter))) := by
  have hne : ptrToI32 m counter ≠ if ptrToI32 m counter = i32Max then 0 else ptrToI32 m counter + 1 :=
    next_ne (ptrToI32 m counter)
  simp only [increaseCounter, if_neg hne, next]

theorem write_increaseCounter (hpos : 0 ≤ ptrToI32 m counter) :
    ptrToI32 (increaseCounter m counter) counter = next (ptrToI32 m counter) := by
  have hlt : ptrToI32 m counter < 2 ^ 31 := m.readI32_lt counter
  rw [increaseCounter_eq]
  refine m.readI32_write ?_ ?_
  all_goals
    unfold next i32Max
    split <;> omega

theorem read_increaseCounter :
    ptrToI32 (increaseCounter m counter) (counter + sizeOfI32) = ptrToI32 m (counter + sizeOfI32) := by
  rw [increaseCounter_eq]
  refine m.readI32_write_of_disjoint (.inl ?_)
  rw [ByteMemory.length_i32Bytes, sizeOfI32]

theorem write_counterReady : ptrToI32 (counterReady m counter).2 counter = ptrToI32 m counter := by
  rw [counterReady]
  split
  case isTrue => exact m.readI32_write_of_disjoint (.inr le_rfl)
  case isFalse => rfl

theorem read_counterReady : ptrToI32 (counterReady m counter).2 (counter + sizeOfI32) = ptrToI32 m counter := by
  rw [counterReady]
  split
  case isTrue => exact m.readI32_copy counter (counter + sizeOfI32)
  case isFalse heq => exact not_ne_iff.mp heq

theorem counterEqual_iff : counterEqual m counter = true ↔ ptrToI32 m counter = ptrToI32 m (counter + sizeOfI32) := by
  simp only [counterEqual, decide_eq_true_eq]

end Specification

section Refinement

variable {m : ByteMemory} {counter n : ℕ}

/-- The writer is this many numbers ahead of the reader. -/
structure Ahead (counter : ℕ) (m : ByteMemory) (n : ℕ) : Prop where
  write_nonneg : 0 ≤ ptrToI32 m counter
  read_nonneg : 0 ≤ ptrToI32 m (counter + sizeOfI32)
  ahead : ptrToI32 m counter = (ptrToI32 m (counter + sizeOfI32) + n) % 2 ^ 31

theorem AtZero.ahead (h : AtZero m counter) : Ahead counter m 0 := by
  constructor
  case write_nonneg => rw [h.write]
  case read_nonneg => rw [h.read]
  case ahead => rw [h.write, h.read]; rfl

theorem next_eq {iw : ℤ} (hpos : 0 ≤ iw) (hlt : iw < 2 ^ 31) : next iw = (iw + 1) % 2 ^ 31 := by
  unfold next i32Max
  split <;> omega

theorem Ahead.step (h : Ahead counter m n) (call : Call) :
    Ahead counter (FrameCounter.step counter m call) (unreadStep n call) := by
  have hlt : ptrToI32 m counter < 2 ^ 31 := m.readI32_lt counter
  cases call with
  | increase =>
    have hnext := next_eq h.write_nonneg hlt
    have hahead := h.ahead
    constructor
    case write_nonneg =>
      rw [FrameCounter.step, write_increaseCounter h.write_nonneg, hnext]
      omega
    case read_nonneg =>
      rw [FrameCounter.step, read_increaseCounter]
      exact h.read_nonneg
    case ahead =>
      rw [FrameCounter.step, write_increaseCounter h.write_nonneg, read_increaseCounter, hnext, unreadStep]
      push_cast
      omega
  | ready =>
    constructor
    case write_nonneg =>
      rw [FrameCounter.step, write_counterReady]
      exact h.write_nonneg
    case read_nonneg =>
      rw [FrameCounter.step, read_counterReady]
      exact h.write_nonneg
    case ahead =>
      rw [FrameCounter.step, write_counterReady, read_counterReady, unreadStep]
      have hpos := h.write_nonneg
      omega
  | equal => exact h

/-- The numbers are equal when the writer has gone round. -/
theorem Ahead.counterEqual_iff (h : Ahead counter m n) : counterEqual m counter = true ↔ 2 ^ 31 ∣ n := by
  have hlt : ptrToI32 m (counter + sizeOfI32) < 2 ^ 31 := m.readI32_lt _
  have hpos := h.read_nonneg
  have hahead := h.ahead
  rw [FrameCounter.counterEqual_iff]
  omega

/-- An increase must not take the count to a full round. -/
def Unfull (n : ℕ) (call : Call) : Prop := call = .increase → ¬ 2 ^ 31 ∣ n + 1

theorem Ahead.notifies_step_iff (h : Ahead counter m n) (call : Call) : Notifies counter m call ↔ Unfull n call := by
  have hnext := (h.step call).counterEqual_iff
  constructor
  · rintro hnotifies rfl hdvd
    have hequal := hnext.mpr hdvd
    rw [hnotifies.unequal rfl] at hequal
    cases hequal
  · intro hunfull
    have hincrease : call = .increase → counterEqual (FrameCounter.step counter m call) counter = false := by
      rintro rfl
      exact Bool.eq_false_iff.mpr fun hequal => hunfull rfl (hnext.mp hequal)
    refine ⟨hincrease, fun hbefore hafter => ?_⟩
    cases call with
    | increase => exact absurd (hafter.symm.trans (hincrease rfl)) (by decide)
    | ready => rfl
    | equal => exact absurd (hafter.symm.trans hbefore) (by decide)

/-- As long as no round is full, the count is below one. -/
theorem unreadStep_lt_iff (hn : n < 2 ^ 31) (call : Call) : unreadStep n call < 2 ^ 31 ↔ Unfull n call := by
  cases call with
  | increase =>
    have hround : 2 ^ 31 ∣ n + 1 ↔ n + 1 = 2 ^ 31 := by omega
    rw [unreadStep, Unfull, hround]
    constructor
    · intro hlt _ heq
      omega
    · intro hne
      have hne := hne rfl
      omega
  | ready => exact iff_of_true (Nat.two_pow_pos 31) nofun
  | equal => exact iff_of_true hn nofun

theorem runMeets_notifies_iff (h : AtZero m counter) (run : List Call) :
    RunMeets (step counter) (Notifies counter) m run ↔ RunMeets unreadStep Unfull 0 run :=
  runMeets_lockstep (fun _ _ call h => h.step call) (fun _ _ call h => h.notifies_step_iff call) h.ahead

theorem runMeets_unfull_iff (run : List Call) :
    RunMeets unreadStep Unfull 0 run ↔ ∀ before after, run = before ++ after → unread before < 2 ^ 31 := by
  have hkept : ∀ n call, True → n < 2 ^ 31 → Unfull n call → True := fun _ _ _ _ _ => trivial
  have hexact : ∀ n call, True → n < 2 ^ 31 → (unreadStep n call < 2 ^ 31 ↔ Unfull n call) := fun n call _ hn =>
    unreadStep_lt_iff hn call
  exact (runMeets_iff hkept hexact trivial (Nat.two_pow_pos 31)).symm

end Refinement

/-- A notification is lost exactly when the counter has been increased 2^31 times since it was last found ready: in all
other runs of any length the numbers differ after every increase until they are found so. -/
theorem notifies_iff {m : ByteMemory} {counter : ℕ} (h : AtZero m counter) (run : List Call) :
    RunMeets (step counter) (Notifies counter) m run ↔
      ∀ before after, run = before ++ after → unread before < 2 ^ 31 := by
  rw [runMeets_notifies_iff h, runMeets_unfull_iff]

theorem atZero_zeros : AtZero (fun _ => 0) 0 := ⟨by decide, by decide⟩

theorem notifies_iff_zeros :
    RunMeets (step 0) (Notifies 0) (fun _ => 0) [.increase, .equal, .ready] ↔
      ∀ before after, [.increase, .equal, .ready] = before ++ after → unread before < 2 ^ 31 :=
  notifies_iff atZero_zeros [.increase, .equal, .ready]

theorem unread_replicate (count : ℕ) : unread (List.replicate count .increase) = count := by
  induction count with
  | zero => rfl
  | succ count ih =>
    rw [List.replicate_succ', unread, runEvents_append, ← unread, ih]
    rfl

/-- The count has gone round once. -/
theorem not_notifies_round : ¬ RunMeets (step 0) (Notifies 0) (fun _ => 0) (List.replicate (2 ^ 31) .increase) := by
  rw [runMeets_notifies_iff atZero_zeros, runMeets_unfull_iff]
  intro h
  have hlt := h (List.replicate (2 ^ 31) .increase) [] (List.append_nil _).symm
  rw [unread_replicate] at hlt
  exact lt_irrefl _ hlt

end UnyDesk.FrameCounter
