import UnyDesk.Lib.Machine
import UnyDesk.Terminal.Session

/-!
# The redraw leaves the right size

Two writers change the size of a terminal: the client, which also says what the size is meant to be, and the two resizes
that make the shell draw again after a reconnect. The first of these leaves the terminal a row too small or too large,
and only the second, or a resize of the client, sets that right. A session that is done with them has the right size,
unless a resize failed, and whatever fails the session is done after a few polls.
-/

namespace UnyDesk

open Lib SigwinchPhase Nat

namespace TerminalSession

/-- `handle_resize`, in the direct PTY mode; whether it succeeds is the second component. -/
def handleResize (session : TerminalSession) (rows cols : ℕ) (resizeOk : Bool) : TerminalSession × Bool :=
  let session := { session with rows := rows % 2 ^ 16, cols := cols % 2 ^ 16 }
  if session.ptySize.isSome then
    if resizeOk then ({ session with ptySize := some (rows % 2 ^ 16, cols % 2 ^ 16) }, true) else (session, false)
  else (session, true)

/-- What `reset_status` does to a session. -/
def resetStatus (session : TerminalSession) : TerminalSession := { session with state := .closed }

/-- What happens to a session, with what comes of the resize if one is made. -/
inductive Event
  | resize (rows cols : ℕ) (resizeOk : Bool)
  | readOutputs (late : List Bytes) (resizeOk : Bool)
  | resetStatus
  | open

def step (codec : Codec) (terminalId : Int) (session : TerminalSession) : Event → TerminalSession
  | .resize rows cols resizeOk => (session.handleResize rows cols resizeOk).1
  | .readOutputs late resizeOk => (session.readOutputs codec terminalId late resizeOk).1
  | .resetStatus => session.resetStatus
  | .open => session.reconnect

/-- The PTY is resized. -/
def resizes (session : TerminalSession) : Event → Bool
  | .resize _ _ _ => session.ptySize.isSome
  | .readOutputs _ _ =>
    match session.state with
    | .closed => false
    | .active _ sigwinch =>
      sigwinch.next.2.isSome && session.rows != 0 && session.cols != 0 && session.ptySize.isSome
  | .resetStatus | .open => false

def Event.resizeOk : Event → Bool
  | .resize _ _ resizeOk => resizeOk
  | .readOutputs _ resizeOk => resizeOk
  | .resetStatus | .open => true

/-- The PTY is not resized, or that succeeds. -/
def ResizeSucceeds (session : TerminalSession) (event : Event) : Prop :=
  session.resizes event = true → event.resizeOk = true

end TerminalSession

namespace SigwinchPhase

def retries : SigwinchPhase → ℕ
  | .idle => 0
  | .tempResize retries | .restore retries => retries

/-- The polls after which the phase is idle, whatever comes of the resizes. -/
def pollsLeft : SigwinchPhase → ℕ
  | .idle => 0
  | .restore retries => retries + 1
  | .tempResize 0 => 1
  | .tempResize (retries + 1) => retries + maxSigwinchPhaseAttempts + 2

/-- The phase after a poll. -/
def polled (phase : SigwinchPhase) (resizeOk : Bool) : SigwinchPhase :=
  match phase.next with
  | (phase, none) => phase
  | (phase, some action) => phase.resized action resizeOk

variable {phase : SigwinchPhase}

theorem pollsLeft_eq_zero_iff : phase.pollsLeft = 0 ↔ phase = .idle := by
  cases phase with
  | idle => simp [pollsLeft]
  | restore retries => simp [pollsLeft]
  | tempResize retries => cases retries <;> simp [pollsLeft]

theorem pollsLeft_le (h : phase.retries ≤ maxSigwinchPhaseAttempts) : phase.pollsLeft ≤ 8 := by
  have hthree : maxSigwinchPhaseAttempts = 3 := rfl
  cases phase with
  | idle => exact zero_le 8
  | restore retries =>
    rw [SigwinchPhase.retries] at h
    rw [pollsLeft]
    omega
  | tempResize retries =>
    rw [SigwinchPhase.retries] at h
    cases retries with
    | zero => exact (by decide : 1 ≤ 8)
    | succ retries =>
      rw [pollsLeft]
      omega

/-- A poll makes a phase without attempts idle, or spends one attempt on the resize of the phase. -/
theorem next_cases (phase : SigwinchPhase) : phase.retries = 0 ∧ phase.next = (.idle, none) ∨
      ∃ retries, phase = .tempResize (retries + 1) ∧ phase.next = (.tempResize retries, some .tempResize) ∨
        phase = .restore (retries + 1) ∧ phase.next = (.restore retries, some .restore) := by
  cases phase with
  | idle => exact .inl ⟨rfl, rfl⟩
  | tempResize retries =>
    cases retries with
    | zero => exact .inl ⟨rfl, rfl⟩
    | succ retries => exact .inr ⟨retries, .inl ⟨rfl, rfl⟩⟩
  | restore retries =>
    cases retries with
    | zero => exact .inl ⟨rfl, rfl⟩
    | succ retries => exact .inr ⟨retries, .inr ⟨rfl, rfl⟩⟩

theorem isSome_next (h : phase.retries ≠ 0) : phase.next.2.isSome = true := by
  obtain ⟨hretries, -⟩ | ⟨retries, ⟨-, hnext⟩ | ⟨-, hnext⟩⟩ := phase.next_cases
  · exact absurd hretries h
  · rw [hnext]
    rfl
  · rw [hnext]
    rfl

theorem pollsLeft_polled (phase : SigwinchPhase) (resizeOk : Bool) :
    (phase.polled resizeOk).pollsLeft ≤ phase.pollsLeft - 1 := by
  have hthree : maxSigwinchPhaseAttempts = 3 := rfl
  obtain ⟨-, hnext⟩ | ⟨retries, ⟨rfl, hnext⟩ | ⟨rfl, hnext⟩⟩ := phase.next_cases
  · rw [polled, hnext]
    exact Nat.zero_le _
  · rw [polled, hnext]
    cases resizeOk with
    | true =>
      change maxSigwinchPhaseAttempts + 1 ≤ retries + maxSigwinchPhaseAttempts + 2 - 1
      omega
    | false =>
      change (tempResize retries).pollsLeft ≤ retries + maxSigwinchPhaseAttempts + 2 - 1
      cases retries <;> rw [pollsLeft] <;> omega
  · rw [polled, hnext]
    cases resizeOk with
    | true => exact Nat.zero_le _
    | false => exact Nat.le_refl (retries + 1)

theorem retries_polled (h : phase.retries ≤ maxSigwinchPhaseAttempts) (resizeOk : Bool) :
    (phase.polled resizeOk).retries ≤ maxSigwinchPhaseAttempts := by
  obtain ⟨-, hnext⟩ | ⟨retries, ⟨rfl, hnext⟩ | ⟨rfl, hnext⟩⟩ := phase.next_cases
  · rw [polled, hnext]
    exact Nat.zero_le _
  · rw [polled, hnext]
    cases resizeOk with
    | true => exact Nat.le_refl _
    | false => exact Nat.le_of_succ_le h
  · rw [polled, hnext]
    cases resizeOk with
    | true => exact Nat.zero_le _
    | false => exact Nat.le_of_succ_le h

end SigwinchPhase

namespace TerminalSession

variable {pendingBuffer : Option Bytes} {sigwinch : SigwinchPhase}

/-- A session between two events: it has a PTY and no phase has more attempts left than it starts with. -/
structure Redrawing (session : TerminalSession) : Prop where
  hasPty : session.ptySize.isSome = true
  retries : ∀ pendingBuffer sigwinch, session.state = .active pendingBuffer sigwinch →
    sigwinch.retries ≤ maxSigwinchPhaseAttempts

/-- A size that is wrong will be set right: it is one that can be set, and the session is closed or has attempts left. -/
def Repairs (session : TerminalSession) : Prop :=
  session.ptySize = some (session.rows, session.cols) ∨ session.rows ≠ 0 ∧ session.cols ≠ 0 ∧
      ∀ pendingBuffer sigwinch, session.state = .active pendingBuffer sigwinch → sigwinch.retries ≠ 0

/-- The size that the PTY has after a poll. -/
def polledSize (session : TerminalSession) (sigwinch : SigwinchPhase) (resizeOk : Bool) : Option (ℕ × ℕ) :=
  match sigwinch.next.2 with
  | some action => if resizeOk then some (session.targetRows action, session.cols) else session.ptySize
  | none => session.ptySize

section Steps

variable {session : TerminalSession} {codec : Codec} {terminalId : Int}

section

variable (hpty : session.ptySize.isSome = true)
include hpty

/-- A poll of an active session; a size that is zero is not set. -/
theorem readOutputs_active (late : List Bytes) (resizeOk : Bool)
    (h : session.state = .active pendingBuffer sigwinch) :
    (session.readOutputs codec terminalId late resizeOk).1 =
      let resized := decide (session.rows ≠ 0 ∧ session.cols ≠ 0) && resizeOk
      { session.drain late with
        ptySize := session.polledSize sigwinch resized
        state := .active none (sigwinch.polled resized) } := by
  have hpty' : (session.drain late).ptySize.isSome = true := hpty
  simp only [readOutputs, h, polledSize, polled]
  rcases sigwinch.next with ⟨sigwinch', _ | action⟩
  · rfl
  · simp only [doSigwinchResize, hpty', Bool.true_and]
    by_cases hzero : session.rows = 0 ∨ session.cols = 0
    · have hsized : ¬(session.rows ≠ 0 ∧ session.cols ≠ 0) := fun hne => hzero.elim hne.1 hne.2
      have hdrained : (session.drain late).rows = 0 ∨ (session.drain late).cols = 0 := hzero
      rw [if_pos hdrained, decide_eq_false hsized]
      rfl
    · have hsized : session.rows ≠ 0 ∧ session.cols ≠ 0 := not_or.mp hzero
      have hdrained : ¬((session.drain late).rows = 0 ∨ (session.drain late).cols = 0) := hzero
      rw [if_neg hdrained, decide_eq_true hsized]
      cases resizeOk <;> rfl

theorem isSome_polledSize (sigwinch : SigwinchPhase) (resizeOk : Bool) :
    (session.polledSize sigwinch resizeOk).isSome = true := by
  rw [polledSize]
  split
  · split
    · rfl
    · exact hpty
  · exact hpty

theorem handleResize_of_pty (rows cols : ℕ) (resizeOk : Bool) :
    (session.handleResize rows cols resizeOk).1 = { session with
        rows := rows % 2 ^ 16
        cols := cols % 2 ^ 16
        ptySize := if resizeOk then some (rows % 2 ^ 16, cols % 2 ^ 16) else session.ptySize } := by
  simp only [handleResize, hpty, if_true]
  cases resizeOk <;> rfl

end

theorem redrawing_create (request : OpenTerminal) (pid : ℕ) : (create request pid).Redrawing where
  hasPty := rfl
  retries := by
    intro pendingBuffer sigwinch hstate
    cases hstate
    exact zero_le _

/-- Every event keeps the attempts within their bound, whatever comes of its resize. -/
theorem Redrawing.step (h : session.Redrawing) (event : Event) : (session.step codec terminalId event).Redrawing := by
  obtain ⟨hpty, hretries⟩ := h
  cases event with
  | resize rows cols resizeOk =>
    rw [TerminalSession.step, handleResize_of_pty hpty]
    refine ⟨?_, hretries⟩
    cases resizeOk
    · exact hpty
    · rfl
  | readOutputs late resizeOk =>
    rw [TerminalSession.step]
    cases hstate : session.state with
    | closed =>
      rw [readOutputs_of_closed codec terminalId late resizeOk hstate]
      exact ⟨hpty, hretries⟩
    | active pendingBuffer sigwinch =>
      rw [readOutputs_active hpty late resizeOk hstate]
      refine ⟨isSome_polledSize hpty sigwinch _, fun pendingBuffer' sigwinch' hnext => ?_⟩
      cases hnext
      exact SigwinchPhase.retries_polled (hretries pendingBuffer sigwinch hstate) _
  | resetStatus =>
    refine ⟨hpty, fun pendingBuffer sigwinch hstate => ?_⟩
    cases hstate
  | «open» =>
    refine ⟨hpty, fun pendingBuffer sigwinch hstate => ?_⟩
    cases hstate
    exact Nat.le_refl _

theorem polledSize_of_failed (session : TerminalSession) (sigwinch : SigwinchPhase) :
    session.polledSize sigwinch false = session.ptySize := by
  rw [polledSize]
  split <;> rfl

/-- A poll of a session that has a size and an attempt left resizes the PTY. -/
theorem resizes_readOutputs (hpty : session.ptySize.isSome = true)
    (hstate : session.state = .active pendingBuffer sigwinch)
    (hsized : session.rows ≠ 0 ∧ session.cols ≠ 0) (hretries : sigwinch.retries ≠ 0) (late : List Bytes)
    (resizeOk : Bool) : session.resizes (.readOutputs late resizeOk) = true := by
  have hnext : sigwinch.next.2.isSome = true := isSome_next hretries
  simp [resizes, hstate, hnext, hsized, hpty]

/-- A poll whose resize succeeds if it is made leaves a size that is right or will be set right. -/
theorem Repairs.polled (hpty : session.ptySize.isSome = true) (h : session.Repairs) {late : List Bytes}
    {resizeOk : Bool}
    (hstate : session.state = .active pendingBuffer sigwinch)
    (hok : session.ResizeSucceeds (.readOutputs late resizeOk)) :
    (session.readOutputs codec terminalId late resizeOk).1.Repairs := by
  rw [readOutputs_active hpty late resizeOk hstate]
  dsimp only
  by_cases hsized : session.rows ≠ 0 ∧ session.cols ≠ 0
  · rw [decide_eq_true hsized, Bool.true_and]
    have hmade : sigwinch.retries ≠ 0 → resizeOk = true := fun hretries =>
      hok (resizes_readOutputs hpty hstate hsized hretries late resizeOk)
    obtain ⟨hretries, hnext⟩ | ⟨retries, ⟨rfl, -⟩ | ⟨rfl, -⟩⟩ := sigwinch.next_cases
    · have hsynced := h.resolve_right fun hwrong => hwrong.2.2 pendingBuffer sigwinch hstate hretries
      left
      rw [polledSize, hnext]
      exact hsynced
    · rw [hmade (succ_ne_zero retries)]
      refine .inr ⟨hsized.1, hsized.2, fun pendingBuffer' sigwinch' hnext => ?_⟩
      cases hnext
      exact succ_ne_zero _
    · rw [hmade (succ_ne_zero retries)]
      exact .inl rfl
  · have hsynced := h.resolve_right fun hwrong => hsized ⟨hwrong.1, hwrong.2.1⟩
    left
    rw [decide_eq_false hsized, Bool.false_and, polledSize_of_failed]
    exact hsynced

/-- Every event whose resize succeeds if it is made does so. -/
theorem Repairs.step (hredraws : session.Redrawing) (h : session.Repairs) {event : Event}
    (hok : session.ResizeSucceeds event) : (session.step codec terminalId event).Repairs := by
  have hpty := hredraws.hasPty
  cases event with
  | resize rows cols resizeOk =>
    have hmade : resizeOk = true := hok hpty
    left
    rw [TerminalSession.step, handleResize_of_pty hpty, if_pos hmade]
  | readOutputs late resizeOk =>
    rw [TerminalSession.step]
    cases hstate : session.state with
    | closed =>
      rw [readOutputs_of_closed codec terminalId late resizeOk hstate]
      exact h
    | active pendingBuffer sigwinch => exact h.polled hpty hstate hok
  | resetStatus =>
    refine h.imp_right fun hwrong => ⟨hwrong.1, hwrong.2.1, fun pendingBuffer sigwinch hstate => ?_⟩
    cases hstate
  | «open» =>
    refine h.imp_right fun hwrong => ⟨hwrong.1, hwrong.2.1, fun pendingBuffer sigwinch hstate => ?_⟩
    cases hstate
    exact succ_ne_zero _

/-- A poll of an active session brings it nearer to being idle. -/
theorem pollsLeft_readOutputs (codec : Codec) (terminalId : Int) (hpty : session.ptySize.isSome = true)
    (late : List Bytes) (resizeOk : Bool)
    (hstate : session.state = .active pendingBuffer sigwinch) :
    ∃ sigwinch', (session.readOutputs codec terminalId late resizeOk).1.state = .active none sigwinch' ∧
      sigwinch'.pollsLeft ≤ sigwinch.pollsLeft - 1 := by
  rw [readOutputs_active hpty late resizeOk hstate]
  exact ⟨_, rfl, pollsLeft_polled _ _⟩

end Steps

section Runs

variable {codec : Codec} {terminalId : Int} {session : TerminalSession}

theorem redrawing_run (request : OpenTerminal) (pid : ℕ) (events : List Event) :
    (runEvents (step codec terminalId) (create request pid) events).Redrawing :=
  runEvents_invariant_of_step (fun _ event h => h.step event) (redrawing_create request pid) events

/-- Polls alone make a session idle. -/
theorem idle_of_polls (hredraws : session.Redrawing)
    (hstate : session.state = .active pendingBuffer sigwinch) (polls : List (List Bytes × Bool))
    (hpolls : sigwinch.pollsLeft ≤ polls.length) :
    ∃ pendingBuffer', (runEvents (step codec terminalId) session
      (polls.map fun poll => .readOutputs poll.1 poll.2)).state = .active pendingBuffer' .idle := by
  induction polls generalizing session pendingBuffer sigwinch with
  | nil =>
    have hidle := pollsLeft_eq_zero_iff.mp (le_zero.mp hpolls)
    subst hidle
    exact ⟨pendingBuffer, hstate⟩
  | cons poll polls ih =>
    obtain ⟨sigwinch', hnext, hleft⟩ :=
      pollsLeft_readOutputs codec terminalId hredraws.hasPty poll.1 poll.2 hstate
    rw [List.length_cons] at hpolls
    exact ih (hredraws.step (.readOutputs poll.1 poll.2)) hnext (by omega)

/-- A session that is done with its redraw has the size that the client wants, if every resize that was made succeeded;
and whatever comes of them, an active session is done after eight polls. -/
theorem redraw_size (codec : Codec) (terminalId : Int) (request : OpenTerminal) (pid : ℕ) (events : List Event) :
    let session := runEvents (step codec terminalId) (create request pid) events
    (RunMeets (step codec terminalId) ResizeSucceeds (create request pid) events →
      ∀ pendingBuffer, session.state = .active pendingBuffer .idle → session.ptySize = some (session.rows, session.cols)) ∧
    ∀ pendingBuffer sigwinch, session.state = .active pendingBuffer sigwinch →
      ∀ polls : List (List Bytes × Bool), 8 ≤ polls.length →
        ∃ pendingBuffer', (runEvents (step codec terminalId) session
          (polls.map fun poll => .readOutputs poll.1 poll.2)).state = .active pendingBuffer' .idle := by
  intro session
  have hredraws : session.Redrawing := redrawing_run request pid events
  refine ⟨fun hrun pendingBuffer hidle => ?_, fun pendingBuffer sigwinch hstate polls hpolls => ?_⟩
  · have hrepairs : session.Redrawing ∧ session.Repairs :=
      runEvents_invariant (I := fun session => session.Redrawing ∧ session.Repairs)
        (fun _ event h hok => ⟨h.1.step event, h.2.step h.1 hok⟩) ⟨redrawing_create request pid, .inl rfl⟩ hrun
    exact hrepairs.2.resolve_right fun hwrong => hwrong.2.2 pendingBuffer .idle hidle rfl
  · have hleft := SigwinchPhase.pollsLeft_le (hredraws.retries pendingBuffer sigwinch hstate)
    exact idle_of_polls hredraws hstate polls (Nat.le_trans hleft hpolls)

end Runs

/-- A client that comes back to a terminal of 24 rows. -/
theorem redraw_size_reconnect : (runEvents (step ⟨id, id⟩ 0) (create ⟨0, 24, 80⟩ 7)
      [.open, .readOutputs [] true, .readOutputs [] true]).ptySize = some (24, 80) :=
  (redraw_size ⟨id, id⟩ 0 ⟨0, 24, 80⟩ 7 [.open, .readOutputs [] true, .readOutputs [] true]).1
    ⟨fun _ => rfl, fun _ => rfl, fun _ => rfl, trivial⟩ none rfl

end TerminalSession

end UnyDesk
