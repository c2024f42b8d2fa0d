import UnyDesk.Lib.Entries
import UnyDesk.Lib.Machine

/-!
# The clipboard listener

One thread listens to the clipboard for all subscribers. The first subscriber starts it, and the last
one that leaves stops it. It can die at any time; its handle is then kept until the next subscriber
finds it finished and starts another thread.

A subscriber is put into the map before the thread is started, and stays there when the start fails.
-/

namespace UnyDesk.Clipboard

open Lib List Option Entries

inductive CallbackResult
  | next
  | stop
  | stopWithError (msg : String)

/-- A channel to a subscriber. -/
abbrev Sender := ℕ

/-- A started thread, with its shutdown channel. -/
structure ListenerHandle where
  isFinished : Bool := false

/-- What becomes of a new thread. -/
inductive StartResult
  | started
  /-- `Master::new` fails. -/
  | refused (err : String)
  /-- The thread ends without an answer. -/
  | vanished (err : String)
deriving DecidableEq

structure ClipboardListener where
  subscribers : List (String × Sender) := []
  handle : Option ListenerHandle := none
  /-- What the calls have sent. -/
  sent : List (Sender × CallbackResult) := []

namespace ClipboardListener

section Model

variable (s : ClipboardListener)

def isStale : Bool := s.handle.any (·.isFinished)

def cleanupStaleListener : ClipboardListener := if s.isStale then { s with handle := none } else s

def subscribe (name : String) (tx : Sender) (start : StartResult) : Except String Unit × ClipboardListener :=
  let s := { s with subscribers := insert name tx s.subscribers }
  let s := s.cleanupStaleListener
  if s.handle.isNone then
    match start with
    | .started => (.ok (), { s with handle := some {} })
    | .refused err => (.error err, s)
    | .vanished e => (.error ("Failed to create clipboard listener: " ++ e), s)
  else (.ok (), s)

def unsubscribe (name : String) : ClipboardListener :=
  let s := match s.subscribers.lookup name with
    | some tx =>
      { s with subscribers := erase name s.subscribers, sent := s.sent ++ [(tx, CallbackResult.stop)] }
    | none => s
  if s.subscribers.isEmpty then { s with handle := none } else s

end Model

inductive Event
  | subscribe (name : String) (tx : Sender) (start : StartResult)
  | unsubscribe (name : String)
  /-- The listener thread ends by itself. -/
  | die

section

variable (s : ClipboardListener)

def step : Event → ClipboardListener
  | .subscribe name tx start => (s.subscribe name tx start).2
  | .unsubscribe name => s.unsubscribe name
  | .die => { s with handle := s.handle.map fun _ => { isFinished := true } }

/-- The call has not failed. -/
def Succeeds : Event → Prop
  | .subscribe name tx start => (s.subscribe name tx start).1 = .ok ()
  | .unsubscribe _ => True
  | .die => False

/-- There is a handle for as long as there are subscribers. -/
def Attended : Prop := s.handle.isSome ↔ s.subscribers ≠ []

structure Orderly (s : ClipboardListener) (e : Event) : Prop where
  /-- A call that fails leaves the map, and the handle unless it is a dead one. -/
  failed : ∀ name tx start, e = .subscribe name tx start → ¬ Succeeds s e →
    (∀ name', (step s e).subscribers.lookup name' = s.subscribers.lookup name') ∧
      ((step s e).handle = s.handle ∨ s.isStale = true ∧ (step s e).handle = none)
  attended : Succeeds s e → Attended (step s e)
  stopped : ∀ name tx, e = .unsubscribe name → s.subscribers.lookup name = some tx →
    (step s e).subscribers.lookup name = none ∧ (step s e).sent = s.sent ++ [(tx, .stop)]

/-- A thread that has to be started is started. -/
def Starts (e : Event) : Prop :=
  ∀ name tx start, e = .subscribe name tx start → s.cleanupStaleListener.handle = none → start = .started

/-- A subscriber brings a channel that is not yet registered under its name. -/
def BringsNew (e : Event) : Prop :=
  ∀ name tx start, e = .subscribe name tx start → s.subscribers.lookup name ≠ some tx

end

section Calls

variable {s : ClipboardListener} {name : String} {tx : Sender} {start : StartResult} {e : Event}

theorem insert_ne_nil : insert name tx s.subscribers ≠ [] :=
  append_ne_nil_of_right_ne_nil _ (cons_ne_nil _ _)

theorem handle_cleanup : s.cleanupStaleListener.handle = if s.isStale then none else s.handle := by
  rw [cleanupStaleListener]
  split <;> rfl

theorem subscribers_subscribe : (s.subscribe name tx start).2.subscribers = insert name tx s.subscribers := by
  unfold subscribe cleanupStaleListener isStale
  cases start <;> (dsimp only; repeat' split) <;> rfl

/-- A live thread is kept. -/
theorem subscribe_of_live (h : s.cleanupStaleListener.handle ≠ none) :
    s.subscribe name tx start = (.ok (), { s with subscribers := insert name tx s.subscribers }) := by
  rw [handle_cleanup] at h
  have hstale : s.isStale = false := by
    by_contra hstale
    rw [if_pos (Bool.of_not_eq_false hstale)] at h
    exact h rfl
  rw [hstale, if_neg Bool.false_ne_true] at h
  obtain ⟨handle, hhandle⟩ := ne_none_iff_exists'.mp h
  have hlive : handle.isFinished = false := by simpa [isStale, hhandle] using hstale
  simp [subscribe, cleanupStaleListener, isStale, hhandle, hlive]

theorem subscribe_started (h : s.cleanupStaleListener.handle = none) : s.subscribe name tx .started =
    (.ok (), { s with subscribers := insert name tx s.subscribers, handle := some {} }) := by
  cases hhandle : s.handle with
  | none => simp [subscribe, cleanupStaleListener, isStale, hhandle]
  | some handle =>
    have hdead : handle.isFinished = true := by
      by_contra hdead
      rw [handle_cleanup, isStale, hhandle, any_some, if_neg hdead] at h
      cases h
    simp [subscribe, cleanupStaleListener, isStale, hhandle, hdead]

/-- A start that fails. -/
theorem subscribe_of_not_started (h : s.cleanupStaleListener.handle = none) (hstart : start ≠ .started) :
    (∃ err, (s.subscribe name tx start).1 = .error err) ∧ (s.subscribe name tx start).2.handle = none := by
  let named : ClipboardListener := { s with subscribers := insert name tx s.subscribers }
  have hnone : named.cleanupStaleListener.handle = none := by
    rw [handle_cleanup] at h ⊢
    exact h
  unfold subscribe
  dsimp only
  rw [hnone, isNone_none, if_pos rfl]
  cases start with
  | started => exact absurd rfl hstart
  | refused err => exact ⟨⟨err, rfl⟩, hnone⟩
  | vanished e => exact ⟨⟨_, rfl⟩, hnone⟩

theorem succeeds_subscribe_iff : Succeeds s (.subscribe name tx start) ↔ Starts s (.subscribe name tx start) := by
  by_cases hhandle : s.cleanupStaleListener.handle = none
  · constructor
    · rintro hok name' tx' start' heq -
      obtain ⟨rfl, rfl, rfl⟩ := Event.subscribe.inj heq
      by_contra hstart
      obtain ⟨⟨err, herr⟩, -⟩ := @subscribe_of_not_started s name tx start hhandle hstart
      cases herr.symm.trans hok
    · intro hstarts
      obtain rfl := hstarts name tx start rfl hhandle
      exact congrArg Prod.fst (subscribe_started hhandle)
  · refine iff_of_true (congrArg Prod.fst (subscribe_of_live hhandle)) ?_
    rintro name' tx' start' heq hnone
    exact absurd hnone hhandle

theorem attended_subscribe (h : Succeeds s (.subscribe name tx start)) : Attended (s.subscribe name tx start).2 := by
  refine iff_of_true ?_ (subscribers_subscribe ▸ insert_ne_nil)
  by_cases hhandle : s.cleanupStaleListener.handle = none
  · obtain rfl := succeeds_subscribe_iff.mp h name tx start rfl hhandle
    rw [subscribe_started hhandle]
    rfl
  · rw [subscribe_of_live hhandle]
    rw [handle_cleanup] at hhandle
    split at hhandle
    · exact absurd rfl hhandle
    · exact isSome_iff_ne_none.mpr hhandle

theorem attended_unsubscribe (h : Attended s) : Attended (s.unsubscribe name) := by
  unfold unsubscribe
  cases hlookup : s.subscribers.lookup name with
  | none =>
    dsimp only
    split
    case isTrue hempty => exact iff_of_false Bool.false_ne_true fun hne => hne (isEmpty_iff.mp hempty)
    case isFalse => exact h
  | some tx =>
    dsimp only
    split
    case isTrue hempty => exact iff_of_false Bool.false_ne_true fun hne => hne (isEmpty_iff.mp hempty)
    case isFalse hrest =>
      have hne : s.subscribers ≠ [] := by
        intro hnil
        rw [hnil] at hlookup
        cases hlookup
      exact iff_of_true (h.mpr hne) (mt isEmpty_iff.mpr hrest)

theorem Attended.step (h : Attended s) (hstarts : Starts s e) : Attended (step s e) := by
  cases e with
  | subscribe name tx start => exact attended_subscribe (succeeds_subscribe_iff.mpr hstarts)
  | unsubscribe name => exact attended_unsubscribe h
  | die =>
    rw [Attended, ClipboardListener.step, isSome_map]
    exact h

/-- Who leaves is told to stop. -/
theorem unsubscribe_of_lookup (h : s.subscribers.lookup name = some tx) :
    (s.unsubscribe name).subscribers.lookup name = none ∧ (s.unsubscribe name).sent = s.sent ++ [(tx, .stop)] := by
  unfold unsubscribe
  rw [h]
  dsimp only
  split <;> exact ⟨lookup_erase_self, rfl⟩

theorem Attended.orderly (h : Attended s) (hstarts : Starts s e) : Orderly s e := by
  constructor
  case failed =>
    rintro name tx start rfl hfails
    exact absurd (succeeds_subscribe_iff.mpr hstarts) hfails
  case attended => exact fun _ => h.step hstarts
  case stopped =>
    rintro name tx rfl hlookup
    exact unsubscribe_of_lookup hlookup

theorem Orderly.starts (h : Orderly s e) (hnew : BringsNew s e) : Starts s e := by
  rintro name tx start rfl hhandle
  by_contra hstart
  have hfails : ¬ Succeeds s (.subscribe name tx start) := fun hok =>
    hstart (succeeds_subscribe_iff.mp hok name tx start rfl hhandle)
  have hlookup := (h.failed name tx start rfl hfails).1 name
  rw [ClipboardListener.step, subscribers_subscribe, lookup_insert_self] at hlookup
  exact hnew name tx start rfl hlookup.symm

end Calls

/-- The listener is in order through every run in which each thread that has to be started is started. In the runs in
which the subscribers bring new channels it is in order in no other ones: the name of a call that fails stays in the
map. -/
theorem listener_lifecycle (run : List Event) :
    (RunMeets step Starts {} run → RunMeets step Orderly {} run) ∧
      (RunMeets step BringsNew {} run → RunMeets step Orderly {} run → RunMeets step Starts {} run) := by
  constructor
  · have hempty : Attended {} := iff_of_false Bool.false_ne_true fun hne => hne rfl
    exact runMeets_of_invariant (fun s e h hstarts => Attended.step h hstarts)
      (fun s e h hstarts => h.orderly hstarts) hempty
  · intro hnew horderly
    have hboth := runMeets_and horderly hnew
    have hstarts : ∀ s e, True → Orderly s e ∧ BringsNew s e → Starts s e := fun _ _ _ h => h.1.starts h.2
    exact runMeets_of_invariant (fun _ _ _ _ => trivial) hstarts trivial hboth

/-- The thread dies, and the next subscriber starts another one; then both leave. -/
def restartRun : List Event :=
  [.subscribe "host" 1 .started, .die, .subscribe "client" 2 .started, .unsubscribe "host", .unsubscribe "client"]

theorem listener_lifecycle_restart : RunMeets step Starts {} restartRun ∧ RunMeets step Orderly {} restartRun := by
  have hstarts : RunMeets step Starts {} restartRun := by
    refine ⟨?_, nofun, ?_, nofun, nofun, trivial⟩
    all_goals
      rintro name tx start heq -
      cases heq
      rfl
  exact ⟨hstarts, (listener_lifecycle restartRun).1 hstarts⟩

/-- The thread of the first subscriber cannot be started. -/
theorem not_listener_lifecycle_refused : ¬ ∀ run : List Event, RunMeets step Orderly {} run := by
  intro h
  have hfirst := (h [.subscribe "clipboard" 1 (.refused "no display")]).1
  have hfails : ¬ Succeeds {} (.subscribe "clipboard" 1 (.refused "no display")) := by
    rintro hok
    cases (show Except.error "no display" = Except.ok () from hok)
  have hkept := (hfirst.failed "clipboard" 1 (.refused "no display") rfl hfails).1 "clipboard"
  exact absurd hkept (by decide)

end ClipboardListener

end UnyDesk.Clipboard
