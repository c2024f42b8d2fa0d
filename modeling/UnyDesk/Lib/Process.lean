import UnyDesk.Lib.Machine

/-!
# Two processes joined by queues

A process runs a finite program that sends and receives frames and changes a local state. Two of them
exchange frames through queues in both directions, in any interleaving; a process that has returned
may say more. What each end does depends on the frames it was sent and not on the interleaving: a run
in which both return is the run of each program alone on everything the other end sent.
-/

namespace UnyDesk.Lib

open List

/-- A program over frames `F` with a local state `S`. -/
inductive Process (F S A : Type) where
  | pure (a : A)
  | fail
  | modify (f : S → S) (next : Process F S A)
  | send (frame : F) (next : Process F S A)
  | recv (next : F → Process F S A)

/-- Where a program stands, its state, what it sent and what it has not read. -/
@[ext] structure Execution (F S A : Type) where
  rest : Process F S A
  state : S
  sent : List F
  unread : List F

namespace Process

variable {F S A : Type}

/-- The program run on a list of frames until it returns, fails or waits for one more. -/
def exec : Process F S A → S → List F → Execution F S A
  | .pure a, s, inbox => ⟨.pure a, s, [], inbox⟩
  | .fail, s, inbox => ⟨.fail, s, [], inbox⟩
  | .modify f next, s, inbox => next.exec (f s) inbox
  | .send frame next, s, inbox => { next.exec s inbox with sent := frame :: (next.exec s inbox).sent }
  | .recv next, s, [] => ⟨.recv next, s, [], []⟩
  | .recv next, s, frame :: inbox => (next frame).exec s inbox

/-- The result of a program that has returned. -/
def result : Process F S A → Option A
  | .pure a => some a
  | _ => none

theorem eq_pure_of_result {p : Process F S A} {a : A} (h : p.result = some a) : p = .pure a := by
  cases p with
  | pure b => rw [Option.some.inj h]
  | fail | modify | send | recv => exact nomatch h

@[simp] theorem exec_pure (a : A) (s : S) (inbox : List F) :
    (Process.pure a).exec s inbox = ⟨.pure a, s, [], inbox⟩ := rfl

@[simp] theorem exec_fail (s : S) (inbox : List F) :
    (Process.fail : Process F S A).exec s inbox = ⟨.fail, s, [], inbox⟩ := rfl

@[simp] theorem exec_send (frame : F) (next : Process F S A) (s : S) (inbox : List F) :
    (Process.send frame next).exec s inbox = { next.exec s inbox with sent := frame :: (next.exec s inbox).sent } := rfl

@[simp] theorem exec_recv_cons (next : F → Process F S A) (s : S) (frame : F) (inbox : List F) :
    (Process.recv next).exec s (frame :: inbox) = (next frame).exec s inbox := rfl

end Process

/-- What an end does next: a step of its program, or a frame of its own once the program has returned. -/
inductive Turn (F : Type)
  | advance
  | say (frame : F)

/-- A program at work, the frames that have arrived and those said since the program returned. -/
structure Endpoint (F S A : Type) where
  process : Process F S A
  state : S
  inbox : List F := []
  said : List F := []

namespace Endpoint

variable {F S A : Type}

/-- One turn and the frames that it sends. -/
def turn (e : Endpoint F S A) : Turn F → Endpoint F S A × List F
  | .advance =>
    match e.process with
    | .pure _ => (e, [])
    | .fail => (e, [])
    | .modify f next => ({ e with process := next, state := f e.state }, [])
    | .send frame next => ({ e with process := next }, [frame])
    | .recv next =>
      match e.inbox with
      | [] => (e, [])
      | frame :: inbox => ({ e with process := next frame, inbox }, [])
  | .say frame =>
    match e.process with
    | .pure _ => ({ e with said := e.said ++ [frame] }, [frame])
    | _ => (e, [])

def deliver (e : Endpoint F S A) (frames : List F) : Endpoint F S A := { e with inbox := e.inbox ++ frames }

/-- The end has come from running the program on what was received, and the program has sent `sent`. -/
structure Follows (p : Process F S A) (s : S) (received sent : List F) (e : Endpoint F S A) : Prop where
  quiet : e.said = [] ∨ ∃ a, e.process = .pure a
  exec_eq : ∀ more, p.exec s (received ++ more) =
    { e.process.exec e.state (e.inbox ++ more) with
      sent := sent ++ (e.process.exec e.state (e.inbox ++ more)).sent }

variable {p : Process F S A} {s : S} {received sent : List F} {e : Endpoint F S A}

theorem Follows.start (p : Process F S A) (s : S) : Follows p s [] [] { process := p, state := s } :=
  ⟨.inl rfl, fun _ => rfl⟩

section Follows

variable (h : Follows p s received sent e)
include h

theorem Follows.deliver (frames : List F) : Follows p s (received ++ frames) sent (e.deliver frames) := by
  refine ⟨h.quiet, fun more => ?_⟩
  have heq := h.exec_eq (frames ++ more)
  rw [← append_assoc, ← append_assoc] at heq
  exact heq

theorem Follows.turn (t : Turn F) :
    ∃ sent', sent' ++ (e.turn t).1.said = sent ++ e.said ++ (e.turn t).2 ∧ Follows p s received sent' (e.turn t).1 := by
  obtain ⟨process, state, inbox, said⟩ := e
  cases t with
  | say frame =>
    cases process with
    | pure a => exact ⟨sent, (append_assoc ..).symm, .inr ⟨a, rfl⟩, h.exec_eq⟩
    | fail | modify | send | recv => exact ⟨sent, (append_nil _).symm, h⟩
  | advance =>
    cases process with
    | pure | fail => exact ⟨sent, (append_nil _).symm, h⟩
    | modify f next => exact ⟨sent, (append_nil _).symm, .inl (h.quiet.resolve_right nofun), h.exec_eq⟩
    | send frame next =>
      have hsaid : said = [] := h.quiet.resolve_right nofun
      refine ⟨sent ++ [frame], by simp [hsaid, Endpoint.turn], .inl hsaid, fun more => ?_⟩
      rw [h.exec_eq more, Process.exec_send]
      simp [Endpoint.turn]
    | recv next =>
      cases inbox with
      | nil => exact ⟨sent, (append_nil _).symm, h⟩
      | cons frame inbox => exact ⟨sent, (append_nil _).symm, .inl (h.quiet.resolve_right nofun), h.exec_eq⟩

/-- A program that has returned has run on everything that was received. -/
theorem Follows.exec_of_returned {a : A} (hreturned : e.process = .pure a) :
    p.exec s received = ⟨.pure a, e.state, sent, e.inbox⟩ := by
  have heq := h.exec_eq []
  rw [hreturned, Process.exec_pure] at heq
  simpa using heq

theorem Follows.exec_of_failed (hfailed : e.process = .fail) : p.exec s received = ⟨.fail, e.state, sent, e.inbox⟩ := by
  have heq := h.exec_eq []
  rw [hfailed, Process.exec_fail] at heq
  simpa using heq

/-- What a program sends on all frames, it has sent or is going to send. -/
theorem Follows.sent_prefix : sent <+: (p.exec s received).sent := by
  have heq := h.exec_eq []
  rw [append_nil] at heq
  rw [heq]
  exact prefix_append _ _

end Follows

end Endpoint

/-- Two ends, each of which sends to the other. -/
structure Duplex (F S T A B : Type) where
  left : Endpoint F S A
  right : Endpoint F T B

namespace Duplex

variable {F S T A B : Type}

/-- A turn of the left or of the right end. -/
def step (d : Duplex F S T A B) : Turn F ⊕ Turn F → Duplex F S T A B
  | .inl t => { left := (d.left.turn t).1, right := d.right.deliver (d.left.turn t).2 }
  | .inr t => { left := d.left.deliver (d.right.turn t).2, right := (d.right.turn t).1 }

def start (p : Process F S A) (s : S) (q : Process F T B) (t : T) : Duplex F S T A B :=
  ⟨{ process := p, state := s }, { process := q, state := t }⟩

def run (d : Duplex F S T A B) (turns : List (Turn F ⊕ Turn F)) : Duplex F S T A B := runEvents step d turns

/-- Each end has run on what the other sent, first as its program and then after it. -/
def Joined (p : Process F S A) (s : S) (q : Process F T B) (t : T) (d : Duplex F S T A B) : Prop :=
  ∃ sent sent', d.left.Follows p s (sent' ++ d.right.said) sent ∧ d.right.Follows q t (sent ++ d.left.said) sent'

theorem joined_run (p : Process F S A) (s : S) (q : Process F T B) (t : T) (turns : List (Turn F ⊕ Turn F)) :
    Joined p s q t ((start p s q t).run turns) := by
  refine runEvents_invariant_of_step (fun d event h => ?_) ?_ turns
  · obtain ⟨sent, sent', hleft, hright⟩ := h
    cases event with
    | inl t =>
      obtain ⟨sent'', hsent, hturn⟩ := hleft.turn t
      exact ⟨sent'', sent', hturn, hsent ▸ hright.deliver _⟩
    | inr t =>
      obtain ⟨sent'', hsent, hturn⟩ := hright.turn t
      exact ⟨sent, sent'', hsent ▸ hleft.deliver _, hturn⟩
  · exact ⟨[], [], .start p s, .start q t⟩

end Duplex

end UnyDesk.Lib
