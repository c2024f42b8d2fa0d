import Mathlib.Data.Finset.Card
import UnyDesk.Lib.Machine

/-!
# Flow control of video frames

A video service waits, after each frame, for as many connections as it has sent the frame to. The notices that a connection
has fetched a frame carry neither the source nor the frame: they go to one channel for each display index, which a monitor
and a camera of that index share, and they stay there when the wait for their frame is over.
-/

namespace UnyDesk

open Lib Function List

inductive VideoSource
  | monitor
  | camera
deriving DecidableEq

/-- A video service. -/
structure FrameSource where
  source : VideoSource
  idx : ℕ
deriving DecidableEq

/-- A notice in a channel, and what it was meant for: the source whose frame was fetched, or every one when the connection
closes. The notices are numbered. -/
structure FrameFetched where
  conn : Int
  source : Option FrameSource
  number : ℕ
deriving DecidableEq

/-- A `VideoFrameController` that has sent a frame. -/
structure FrameWait where
  source : FrameSource
  sendConnIds : Finset Int
  /-- How many notices there were when the frame was sent. -/
  sentAt : ℕ
  /-- The connections are recorded, and the wait has begun. -/
  begun : Bool := false
  fetchedConnIds : Finset Int := ∅
deriving DecidableEq

/-- The controllers, and what they share. -/
structure FrameFlow where
  /-- `FRAME_FETCHED_NOTIFIERS` -/
  notifiers : ℕ → List FrameFetched := fun _ => []
  /-- `DISPLAY_CONN_IDS` -/
  displayConnIds : ℕ → Finset Int := fun _ => ∅
  waits : List FrameWait := []
  /-- All notices there ever were, newest first. -/
  notices : List FrameFetched := []

inductive FrameEvent
  /-- A frame is sent to the connections. -/
  | send (source : FrameSource) (connIds : Finset Int)
  | setSend (source : FrameSource)
  | tryWaitNext (source : FrameSource)
  /-- The test whether all connections have fetched the frame. -/
  | check (source : FrameSource)
  /-- The limit has passed, or the inner loop is left. -/
  | giveUp (source : FrameSource)
  /-- A round that sends no frame. -/
  | skip (source : FrameSource)
  /-- A connection that does not acknowledge takes a frame of the source out of its queue. -/
  | notifyFetched (conn : Int) (source : FrameSource)
  /-- `VideoReceived`, for a frame of the source. -/
  | videoReceived (conn : Int) (source : FrameSource)
  | close (conn : Int)

namespace FrameFlow

variable (f : FrameFlow)

section

variable (source : FrameSource)

def waitOf : Option FrameWait := f.waits.find? (·.source = source)

def setWait (change : FrameWait → FrameWait) : FrameFlow :=
  { f with waits := f.waits.map fun wait => if wait.source = source then change wait else wait }

/-- The end of a round. -/
def endRound : FrameFlow :=
  { f with
    waits := f.waits.filter (·.source ≠ source)
    displayConnIds := Function.update f.displayConnIds source.idx ∅ }

end

/-- A notice goes to the channels of the indexes that pass the test. -/
def notify (conn : Int) (source : Option FrameSource) (test : ℕ → Bool) : FrameFlow :=
  let notice : FrameFetched := { conn, source, number := f.notices.length }
  { f with
    notifiers := fun idx => if test idx then f.notifiers idx ++ [notice] else f.notifiers idx
    notices := notice :: f.notices }

/-- `notify_video_frame_fetched_by_conn_id` -/
def notifyByConnId (conn : Int) (source : Option FrameSource) : FrameFlow :=
  f.notify conn source fun idx => decide (conn ∈ f.displayConnIds idx)

/-- All connections have fetched the frame, as far as their number goes. -/
def allFetched (wait : FrameWait) : Bool := wait.begun && decide (wait.sendConnIds.card ≤ wait.fetchedConnIds.card)

def step (f : FrameFlow) : FrameEvent → FrameFlow
  | .send source connIds =>
    if (f.waitOf source).isSome = true ∨ connIds = ∅ then f
    else { f with waits := { source, sendConnIds := connIds, sentAt := f.notices.length } :: f.waits }
  | .setSend source =>
    match f.waitOf source with
    | none => f
    | some wait =>
      { f.setWait source fun wait => { wait with begun := true } with
        displayConnIds := Function.update f.displayConnIds source.idx wait.sendConnIds }
  | .tryWaitNext source =>
    match f.waitOf source with
    | none => f
    | some wait =>
      if wait.begun = true then
        let fetched := ((f.notifiers source.idx).map FrameFetched.conn).toFinset
        { f.setWait source fun wait => { wait with fetchedConnIds := wait.fetchedConnIds ∪ fetched } with
          notifiers := Function.update f.notifiers source.idx [] }
      else f
  | .check source =>
    match f.waitOf source with
    | none => f
    | some wait => if allFetched wait = true then f.endRound source else f
  | .giveUp source => if (f.waitOf source).isSome = true then f.endRound source else f
  | .skip source => if (f.waitOf source).isSome = true then f else f.endRound source
  | .notifyFetched conn source => f.notify conn (some source) fun idx => decide (idx = source.idx)
  | .videoReceived conn source => f.notifyByConnId conn (some source)
  | .close conn => f.notifyByConnId conn none

/-- The notice is for the source, or of a connection that closes. -/
def MeantFor (source : FrameSource) (notice : FrameFetched) : Prop := ∀ other ∈ notice.source, other = source

/-- The connection has given the source a notice since the frame of the wait was sent. -/
def Acknowledged (wait : FrameWait) (conn : Int) : Prop :=
  ∃ notice ∈ f.notices, notice.conn = conn ∧ wait.sentAt ≤ notice.number ∧ MeantFor wait.source notice

/-- A wait that ends before its limit ends behind the notices of all its connections, and no source takes a notice that was
meant for another one. -/
def FlowControlled (f : FrameFlow) : FrameEvent → Prop
  | .check source => ∀ wait ∈ f.waitOf source, allFetched wait = true → ∀ conn ∈ wait.sendConnIds, f.Acknowledged wait conn
  | .tryWaitNext source => ∀ wait ∈ f.waitOf source, wait.begun = true → ∀ notice ∈ f.notifiers source.idx, MeantFor source notice
  | _ => True

/-- The channel is empty when a frame is sent, and the notices that come before the end of its wait are of its connections
and for its source. -/
def Matched (f : FrameFlow) : FrameEvent → Prop
  | .send source connIds => connIds ≠ ∅ → f.waitOf source = none → f.notifiers source.idx = []
  | .notifyFetched conn source =>
    ∀ wait ∈ f.waits, wait.source.idx = source.idx → wait.source = source ∧ conn ∈ wait.sendConnIds
  | .videoReceived conn source =>
    ∀ wait ∈ f.waits, conn ∈ f.displayConnIds wait.source.idx → wait.source = source ∧ conn ∈ wait.sendConnIds
  | .close conn => ∀ wait ∈ f.waits, conn ∈ f.displayConnIds wait.source.idx → conn ∈ wait.sendConnIds
  | _ => True

instance (f : FrameFlow) (e : FrameEvent) : Decidable (f.Matched e) := by
  cases e <;> unfold Matched <;> infer_instance

/-- What a wait has and will have fetched are notices of its own connections since its frame was sent. -/
structure Awaits (f : FrameFlow) (wait : FrameWait) : Prop where
  queued : ∀ notice ∈ f.notifiers wait.source.idx,
    notice ∈ f.notices ∧ notice.conn ∈ wait.sendConnIds ∧ wait.sentAt ≤ notice.number ∧ MeantFor wait.source notice
  fetched : ∀ conn ∈ wait.fetchedConnIds, conn ∈ wait.sendConnIds ∧ f.Acknowledged wait conn
  sentAt : wait.sentAt ≤ f.notices.length

section Steps

variable {f} {source : FrameSource} {wait : FrameWait} {conn : Int} {f' : FrameFlow}

theorem mem_of_waitOf (h : wait ∈ f.waitOf source) : wait ∈ f.waits ∧ wait.source = source :=
  ⟨mem_of_find?_eq_some h, by simpa using find?_some h⟩

/-- A wait whose count is full has the notices of all its connections. -/
theorem Awaits.acknowledged (h : f.Awaits wait) (hfetched : allFetched wait = true)
    (hconn : conn ∈ wait.sendConnIds) : f.Acknowledged wait conn := by
  have hsubset : wait.fetchedConnIds ⊆ wait.sendConnIds := fun id hid => (h.fetched id hid).1
  have hcard : wait.sendConnIds.card ≤ wait.fetchedConnIds.card :=
    of_decide_eq_true (Bool.and_eq_true_iff.mp hfetched).2
  have heq : wait.fetchedConnIds = wait.sendConnIds := Finset.eq_of_subset_of_card_le hsubset hcard
  exact (h.fetched conn (heq ▸ hconn)).2

theorem Acknowledged.mono (hnotices : ∀ notice ∈ f.notices, notice ∈ f'.notices)
    (h : f.Acknowledged wait conn) : f'.Acknowledged wait conn := by
  obtain ⟨notice, hmem, hnotice⟩ := h
  exact ⟨notice, hnotices notice hmem, hnotice⟩

/-- The rule for a wait that changes in nothing but its begin. -/
theorem Awaits.congr {wait' : FrameWait} (h : f.Awaits wait)
    (hnotifiers : f'.notifiers wait.source.idx = f.notifiers wait.source.idx) (hnotices : f'.notices = f.notices)
    (hsource : wait'.source = wait.source) (hsend : wait'.sendConnIds = wait.sendConnIds)
    (hfetched : wait'.fetchedConnIds = wait.fetchedConnIds) (hsentAt : wait'.sentAt = wait.sentAt) :
    f'.Awaits wait' := by
  obtain ⟨source, sendConnIds, sentAt, begun, fetchedConnIds⟩ := wait
  obtain ⟨source', sendConnIds', sentAt', begun', fetchedConnIds'⟩ := wait'
  obtain rfl : source' = source := hsource
  obtain rfl : sendConnIds' = sendConnIds := hsend
  obtain rfl : fetchedConnIds' = fetchedConnIds := hfetched
  obtain rfl : sentAt' = sentAt := hsentAt
  refine ⟨?_, ?_, ?_⟩
  · rw [hnotifiers, hnotices]
    exact h.queued
  · intro conn hconn
    obtain ⟨hsent, hacknowledged⟩ := h.fetched conn hconn
    exact ⟨hsent, hacknowledged.mono fun notice hmem => hnotices ▸ hmem⟩
  · rw [hnotices]
    exact h.sentAt

/-- A notice that suits the waits that it reaches. -/
theorem awaits_notify (h : f.Awaits wait) {meant : Option FrameSource} {test : ℕ → Bool}
    (hsuits : test wait.source.idx = true → conn ∈ wait.sendConnIds ∧ ∀ other ∈ meant, other = wait.source) :
    (f.notify conn meant test).Awaits wait := by
  have hnotices (notice : FrameFetched) (hmem : notice ∈ f.notices) : notice ∈ (f.notify conn meant test).notices :=
    mem_cons_of_mem _ hmem
  have hold (notice : FrameFetched) (hmem : notice ∈ f.notifiers wait.source.idx) :
      notice ∈ (f.notify conn meant test).notices ∧ notice.conn ∈ wait.sendConnIds ∧ wait.sentAt ≤ notice.number ∧
        MeantFor wait.source notice := by
    obtain ⟨hnotice, hrest⟩ := h.queued notice hmem
    exact ⟨hnotices notice hnotice, hrest⟩
  refine ⟨fun notice hmem => ?_, fun id hid => ?_, ?_⟩
  · change notice ∈ (if test wait.source.idx = true then _ else _) at hmem
    split_ifs at hmem with htest
    · rcases mem_append.mp hmem with hbefore | hnew
      · exact hold notice hbefore
      · obtain rfl := mem_singleton.mp hnew
        exact ⟨mem_cons_self, (hsuits htest).1, h.sentAt, (hsuits htest).2⟩
    · exact hold notice hmem
  · obtain ⟨hsent, hacknowledged⟩ := h.fetched id hid
    exact ⟨hsent, hacknowledged.mono hnotices⟩
  · exact h.sentAt.trans (Nat.le_succ _)

section Awaiting

variable (h : ∀ wait ∈ f.waits, f.Awaits wait)
include h

/-- The waits of the source have fetched what is in the channel, and those of other sources find it empty. -/
theorem awaits_tryWaitNext (source : FrameSource) :
    ∀ wait ∈ (f.step (.tryWaitNext source)).waits, (f.step (.tryWaitNext source)).Awaits wait := by
  rw [step]
  cases f.waitOf source with
  | none => exact h
  | some first =>
    dsimp only
    split_ifs
    · intro wait hwait
      obtain ⟨before, hbefore, rfl⟩ := mem_map.mp hwait
      have hawaits := h before hbefore
      have hqueued : ∀ notice ∈ update f.notifiers source.idx [] before.source.idx,
          notice ∈ f.notifiers before.source.idx := by
        intro notice hmem
        by_cases hidx : before.source.idx = source.idx
        · rw [hidx, update_self] at hmem
          exact nomatch hmem
        · rwa [update_of_ne hidx] at hmem
      by_cases hsource : before.source = source
      · subst hsource
        rw [if_pos rfl]
        refine ⟨fun notice hmem => hawaits.queued notice (hqueued notice hmem), fun conn hconn => ?_, hawaits.sentAt⟩
        rcases Finset.mem_union.mp hconn with hold | hnew
        · exact hawaits.fetched conn hold
        · obtain ⟨notice, hnotice, rfl⟩ := mem_map.mp (mem_toFinset.mp hnew)
          obtain ⟨hmem, hsent, hrest⟩ := hawaits.queued notice hnotice
          exact ⟨hsent, notice, hmem, rfl, hrest⟩
      · rw [if_neg hsource]
        exact ⟨fun notice hmem => hawaits.queued notice (hqueued notice hmem), hawaits.fetched, hawaits.sentAt⟩
    · exact h

theorem awaits_endRound (source : FrameSource) :
    ∀ wait ∈ (f.endRound source).waits, (f.endRound source).Awaits wait := by
  intro wait hwait
  exact (h wait (mem_of_mem_filter hwait)).congr rfl rfl rfl rfl rfl rfl

theorem awaits_step {e : FrameEvent} (hmatched : f.Matched e) : ∀ wait ∈ (f.step e).waits, (f.step e).Awaits wait := by
  cases e with
  | send source connIds =>
    rw [step]
    split_ifs with hskip
    · exact h
    · intro wait hwait
      rcases mem_cons.mp hwait with rfl | hold
      · have hnone : f.waitOf source = none := by simpa using (not_or.mp hskip).1
        have hempty : f.notifiers source.idx = [] := hmatched (not_or.mp hskip).2 hnone
        refine ⟨fun notice hmem => ?_, fun conn hconn => ?_, Nat.le_refl _⟩
        · exact nomatch hempty ▸ hmem
        · exact absurd hconn (Finset.notMem_empty conn)
      · exact (h wait hold).congr rfl rfl rfl rfl rfl rfl
  | setSend source =>
    rw [step]
    cases f.waitOf source with
    | none => exact h
    | some first =>
      intro wait hwait
      obtain ⟨before, hbefore, rfl⟩ := mem_map.mp hwait
      by_cases hsource : before.source = source
      · rw [if_pos hsource]
        exact (h before hbefore).congr rfl rfl rfl rfl rfl rfl
      · rw [if_neg hsource]
        exact (h before hbefore).congr rfl rfl rfl rfl rfl rfl
  | tryWaitNext source => exact awaits_tryWaitNext h source
  | check source =>
    rw [step]
    cases f.waitOf source with
    | none => exact h
    | some first =>
      dsimp only
      split_ifs
      · exact awaits_endRound h source
      · exact h
  | giveUp source =>
    rw [step]
    split_ifs
    · exact awaits_endRound h source
    · exact h
  | skip source =>
    rw [step]
    split_ifs
    · exact h
    · exact awaits_endRound h source
  | notifyFetched conn source =>
    intro wait hwait
    refine awaits_notify (h wait hwait) fun hidx => ?_
    obtain ⟨hsource, hconn⟩ := hmatched wait hwait (of_decide_eq_true hidx)
    refine ⟨hconn, ?_⟩
    rintro _ ⟨⟩
    exact hsource.symm
  | videoReceived conn source =>
    intro wait hwait
    refine awaits_notify (h wait hwait) fun hshown => ?_
    obtain ⟨hsource, hconn⟩ := hmatched wait hwait (of_decide_eq_true hshown)
    refine ⟨hconn, ?_⟩
    rintro _ ⟨⟩
    exact hsource.symm
  | close conn =>
    intro wait hwait
    refine awaits_notify (h wait hwait) fun hshown => ?_
    exact ⟨hmatched wait hwait (of_decide_eq_true hshown), fun _ hother => nomatch hother⟩

theorem flowControlled (e : FrameEvent) : f.FlowControlled e := by
  cases e with
  | check source =>
    intro wait hwait hfetched conn hconn
    exact (h wait (mem_of_waitOf hwait).1).acknowledged hfetched hconn
  | tryWaitNext source =>
    intro wait hwait _ notice hnotice
    obtain ⟨hmem, rfl⟩ := mem_of_waitOf hwait
    exact ((h wait hmem).queued notice hnotice).2.2.2
  | _ => trivial

end Awaiting

end Steps

end FrameFlow

/-- A wait that ends before its limit ends behind the notices of all its connections since its frame was sent, and no source
takes a notice that was meant for another one, along every run whose notices all match the waits that they reach. -/
theorem flow_controlled {events : List FrameEvent}
    (h : RunMeets FrameFlow.step FrameFlow.Matched ({} : FrameFlow) events) :
    RunMeets FrameFlow.step FrameFlow.FlowControlled ({} : FrameFlow) events :=
  runMeets_of_invariant (I := fun f => ∀ wait ∈ f.waits, f.Awaits wait)
    (fun _ _ hawaits hmatched => FrameFlow.awaits_step hawaits hmatched)
    (fun _ e hawaits _ => FrameFlow.flowControlled hawaits e) (fun _ hmem => nomatch hmem) h

def sampleMonitor : FrameSource := { source := .monitor, idx := 0 }

def sampleCamera : FrameSource := { source := .camera, idx := 0 }

/-- Two connections acknowledge two frames. -/
def sampleFlow : List FrameEvent :=
  [.send sampleMonitor {1, 2}, .setSend sampleMonitor, .videoReceived 1 sampleMonitor, .notifyFetched 2 sampleMonitor,
    .tryWaitNext sampleMonitor, .check sampleMonitor, .send sampleMonitor {1}, .setSend sampleMonitor,
    .videoReceived 1 sampleMonitor, .tryWaitNext sampleMonitor, .check sampleMonitor]

theorem flow_controlled_sample : RunMeets FrameFlow.step FrameFlow.FlowControlled ({} : FrameFlow) sampleFlow :=
  flow_controlled (by decide)

/-- A notice that comes behind the limit ends the wait for the next frame. -/
def staleFlow : List FrameEvent :=
  [.send sampleMonitor {1}, .setSend sampleMonitor, .giveUp sampleMonitor, .notifyFetched 1 sampleMonitor,
    .send sampleMonitor {1}, .setSend sampleMonitor, .tryWaitNext sampleMonitor, .check sampleMonitor]

/-- The camera of the same index takes the notice that the monitor waits for. -/
def sharedFlow : List FrameEvent :=
  [.send sampleMonitor {1}, .setSend sampleMonitor, .send sampleCamera {2}, .setSend sampleCamera,
    .notifyFetched 1 sampleMonitor, .tryWaitNext sampleCamera]

/-- A stale notice ends a wait too early, and a source takes a notice of another one. -/
theorem flow_uncontrolled :
    ¬ RunMeets FrameFlow.step FrameFlow.FlowControlled ({} : FrameFlow) staleFlow ∧
      ¬ RunMeets FrameFlow.step FrameFlow.FlowControlled ({} : FrameFlow) sharedFlow := by
  constructor
  · rintro ⟨-, -, -, -, -, -, -, h, -⟩
    obtain ⟨notice, hmem, -, hsent, -⟩ := h ⟨sampleMonitor, {1}, 1, true, {1}⟩ (by decide) (by decide) 1 (by decide)
    have hnotices : notice = { conn := 1, source := some sampleMonitor, number := 0 } := List.mem_singleton.mp hmem
    rw [hnotices] at hsent
    exact absurd hsent (by decide)
  · rintro ⟨-, -, -, -, -, h, -⟩
    have hmeant := h ⟨sampleCamera, {2}, 0, true, ∅⟩ (by decide) rfl ⟨1, some sampleMonitor, 0⟩ (by decide)
      sampleMonitor rfl
    exact absurd hmeant (by decide)

end UnyDesk
