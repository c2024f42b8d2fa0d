import UnyDesk.Terminal.Registry

/-!
# Removing terminal services

The cleanup task and the run loops that end decide under one lock to remove a service and remove what the id stands
for under another. What happens between is lost: a service that a client came back to, or one that took the place of
the first. A run loop that ends does not ask whether another connection is served. Where nobody comes between, and no
other connection is served when the decision is made, a service in use is not removed.
-/

namespace UnyDesk

open Lib Function PersistentTerminalService List Option TerminalAct LoopPhase

/-- The ids that the cleanup is going to remove. -/
def CleanupPhase.pending : CleanupPhase → List String
  | .waiting => []
  | .selecting _ selected => selected
  | .removing ids | .stopping _ _ ids => ids

namespace TerminalServices

section

variable (s : TerminalServices)

/-- The cleanup is going to remove the service, or to stop its sessions. -/
def Selected (id : String) (object : ℕ) : Prop :=
  id ∈ s.cleanup.pending ∧ s.lookup id = some object ∨ ∃ ids, s.cleanup = .stopping id object ids

/-- The run loop is going to remove the service, or to stop its sessions. -/
def Condemned (i : ℕ) (id : String) (object : ℕ) : Prop :=
  s.loops i = .removing id ∧ s.lookup id = some object ∨ s.loops i = .stopping id object

/-- A connection that is attached to the service, with a run loop that serves it or is about to. -/
def Serving (i : ℕ) (id : String) : Prop := s.loops i = .attached id ∨ s.loops i = .running id

/-- Nobody comes between a decision and the removal, and no other connection is there when it is made. -/
def Undisturbed : TerminalStep → Prop
  | .attach _ id _ _ => id ∉ s.cleanup.pending ∧ ∀ j, s.loops j ≠ .removing id
  | .advance j =>
    (∀ object terminalId spawned, s.acts j = some (.perform object (.openTerminal terminalId spawned)) →
      ∀ id, ¬ s.Selected id object) ∧
    ∀ object, s.acts j = some (.perform object (.setPersistent true)) →
      ∀ id, ¬ s.Selected id object ∧ ∀ i, ¬ s.Condemned i id object
  | .cleanup => ∀ id todo selected object, s.cleanup = .selecting (id :: todo) selected → s.lookup id = some object →
      (s.objects object).isIdle s.now = true → ∀ i, ¬ s.Serving i id
  | .loop i => ∀ id object, s.loops i = .checking id object → (s.objects object).isPersistent = false →
      (∀ object', s.lookup id = some object' → object' = object) ∧ ∀ j ≠ i, ¬ s.Serving j id
  | .spawn _ | .leave _ | .act .. | .wait _ => True

/-- A service that the cleanup may remove. -/
def Idle (id : String) (object : ℕ) : Prop :=
  object ∉ s.used ∧ ((s.objects object).isPersistent = true → (s.objects object).sessions = []) ∧ ∀ i, ¬ s.Serving i id

/-- A service that the run loop may remove. -/
def Left (i : ℕ) (id : String) (object : ℕ) : Prop :=
  (s.objects object).isPersistent = false ∧ ∀ j ≠ i, ¬ s.Serving j id

end

/-- The invariant of a run in which nobody comes between. -/
structure Calm (s : TerminalServices) : Prop where
  named : ∀ id object, s.lookup id = some object → (s.objects object).serviceId = id ∧ object < s.nextObject
  cleanupNamed : ∀ id object ids, s.cleanup = .stopping id object ids →
    (s.objects object).serviceId = id ∧ object < s.nextObject
  loopNamed : ∀ i id object, s.loops i = .stopping id object → (s.objects object).serviceId = id ∧ object < s.nextObject
  cleanupSelects : ∀ todo selected, s.cleanup = .selecting todo selected → s.lock = some .cleanup
  cleanupStops : ∀ id object ids, s.cleanup = .stopping id object ids → s.lock = some .cleanup
  loopStops : ∀ i id object, s.loops i = .stopping id object → s.lock = some (.loop i)
  selected : ∀ id object, s.Selected id object → s.Idle id object
  condemned : ∀ i id object, s.Condemned i id object → s.Left i id object

section Steps

variable {s s' : TerminalServices} {i j : ℕ} {id id' : String} {object object' : ℕ} {phase : LoopPhase}

@[simp] theorem loops_setLoop (s : TerminalServices) (i : ℕ) (phase : LoopPhase) : (s.setLoop i phase).loops i = phase :=
  update_self ..

theorem loops_setLoop_of_ne (h : j ≠ i) (s : TerminalServices) (phase : LoopPhase) :
    (s.setLoop i phase).loops j = s.loops j := update_of_ne h ..

theorem find?_erase {services : List (String × ℕ)}
    (h : ((services.filter (·.1 ≠ id)).find? (·.1 = id')).map Prod.snd = some object) :
    (services.find? (·.1 = id')).map Prod.snd = some object := by
  induction services with
  | nil => exact h
  | cons entry services ih =>
    by_cases hid : entry.1 = id'
    · rw [find?_cons_of_pos (by simpa using hid)]
      by_cases hkept : entry.1 = id
      · rw [filter_cons_of_neg (by simpa using hkept)] at h
        obtain ⟨found, hfound, -⟩ := map_eq_some_iff.mp h
        have hne : found.1 ≠ id := by simpa using (mem_filter.mp (mem_of_find?_eq_some hfound)).2
        have heq : found.1 = id' := by simpa using find?_some hfound
        exact absurd (heq.trans (hid.symm.trans hkept)) hne
      · rwa [filter_cons_of_pos (by simpa using hkept), find?_cons_of_pos (by simpa using hid)] at h
    · rw [find?_cons_of_neg (by simpa using hid)]
      refine ih ?_
      by_cases hkept : entry.1 = id
      · rwa [filter_cons_of_neg (by simpa using hkept)] at h
      · rwa [filter_cons_of_pos (by simpa using hkept), find?_cons_of_neg (by simpa using hid)] at h

theorem Serving.of_setLoop (h : (s.setLoop i phase).Serving j id) :
    s.Serving j id ∨ j = i ∧ (phase = .attached id ∨ phase = .running id) := by
  by_cases hji : j = i
  · subst hji
    rw [Serving, loops_setLoop] at h
    exact .inr ⟨rfl, h⟩
  · rw [Serving, loops_setLoop_of_ne hji] at h
    exact .inl h

namespace Calm

/-- The rule for a run loop that goes on without the lock of the registry: it serves nothing anew that is going to be
removed. -/
theorem setLoop (h : s.Calm) (hserving : ∀ id, phase = .attached id ∨ phase = .running id →
      s.Serving i id ∨ (∀ object, ¬ s.Selected id object) ∧ ∀ j object, ¬ s.Condemned j id object)
    (hstopping : ∀ id object, phase ≠ .stopping id object)
    (hremoving : ∀ id object, phase = .removing id → s.lookup id = some object → s.Left i id object) :
    (s.setLoop i phase).Calm where
  named := h.named
  cleanupNamed := h.cleanupNamed
  loopNamed j id object hj := by
    by_cases hji : j = i
    · subst hji
      exact absurd ((loops_setLoop ..).symm.trans hj) (hstopping id object)
    · exact h.loopNamed j id object ((loops_setLoop_of_ne hji ..).symm.trans hj)
  cleanupSelects := h.cleanupSelects
  cleanupStops := h.cleanupStops
  loopStops j id object hj := by
    by_cases hji : j = i
    · subst hji
      exact absurd ((loops_setLoop ..).symm.trans hj) (hstopping id object)
    · exact h.loopStops j id object ((loops_setLoop_of_ne hji ..).symm.trans hj)
  selected id object hsel := by
    obtain ⟨hunused, hempty, hunserved⟩ := h.selected id object hsel
    refine ⟨hunused, hempty, fun j hserves => ?_⟩
    rcases hserves.of_setLoop with hold | ⟨rfl, hnew⟩
    · exact hunserved j hold
    · exact (hserving id hnew).elim (hunserved j) fun hfree => hfree.1 object hsel
  condemned j id object hcond := by
    by_cases hji : j = i
    · subst hji
      rcases hcond with ⟨hj, hlookup⟩ | hj
      · obtain ⟨hvolatile, hunserved⟩ := hremoving id object ((loops_setLoop ..).symm.trans hj) hlookup
        exact ⟨hvolatile, fun k hk hserves => hserves.of_setLoop.elim (hunserved k hk) fun hnew => hk hnew.1⟩
      · exact absurd ((loops_setLoop ..).symm.trans hj) (hstopping id object)
    · have hold : s.Condemned j id object := by
        rwa [Condemned, loops_setLoop_of_ne hji] at hcond
      obtain ⟨hvolatile, hunserved⟩ := h.condemned j id object hold
      refine ⟨hvolatile, fun k hk hserves => ?_⟩
      rcases hserves.of_setLoop with hbefore | ⟨rfl, hnew⟩
      · exact hunserved k hk hbefore
      · exact (hserving id hnew).elim (hunserved k hk) fun hfree => hfree.2 j object hold

/-- Opening a terminal changes the sessions only. -/
theorem handleOpen_fields (service : PersistentTerminalService) (terminalId : Int) (spawned : Bool) :
    (service.handleOpen terminalId spawned).serviceId = service.serviceId ∧
      (service.handleOpen terminalId spawned).isPersistent = service.isPersistent := by
  have hremap : (service.remap terminalId).serviceId = service.serviceId ∧
      (service.remap terminalId).isPersistent = service.isPersistent := by
    unfold remap
    split
    · split
      · exact ⟨rfl, rfl⟩
      · split <;> exact ⟨rfl, rfl⟩
    · exact ⟨rfl, rfl⟩
  unfold handleOpen
  dsimp only
  split_ifs <;> exact hremap

theorem reap_fields (service : PersistentTerminalService) (terminalIds : List Int) :
    ((reap terminalIds).perform service).serviceId = service.serviceId ∧
      ((reap terminalIds).perform service).isPersistent = service.isPersistent ∧
      (service.sessions = [] → ((reap terminalIds).perform service).sessions = []) := by
  simp only [perform]
  induction terminalIds generalizing service with
  | nil => exact ⟨rfl, rfl, id⟩
  | cons terminalId terminalIds ih =>
    obtain ⟨hid, hpersistent, hsessions⟩ := ih (service.removeSession terminalId)
    refine ⟨hid, hpersistent, fun hnil => hsessions ?_⟩
    simp [removeSession, hnil]

section Calm

variable (h : s.Calm) {service : PersistentTerminalService} {isPersistent isSpecifiedUser : Bool} {e : TerminalStep}
include h

/-- The rule for a service that changes. -/
theorem setObject (hid : service.serviceId = (s.objects object).serviceId)
    (hselected : ∀ id, s.Selected id object → service.isPersistent = true → service.sessions = [])
    (hcondemned : ∀ i id, s.Condemned i id object → service.isPersistent = false) :
    (s.setObject object service).Calm := by
  have hname : ∀ object', ((s.setObject object service).objects object').serviceId = (s.objects object').serviceId := by
    intro object'
    by_cases heq : object' = object
    · subst heq
      exact (congrArg _ (update_self ..)).trans hid
    · exact congrArg _ (update_of_ne heq ..)
  refine ⟨fun id object' hlookup => ?_, fun id object' ids hstop => ?_, fun i id object' hstop => ?_, h.cleanupSelects,
    h.cleanupStops, h.loopStops, fun id object' hsel => ?_, fun i id object' hcond => ?_⟩
  · rw [hname]
    exact h.named id object' hlookup
  · rw [hname]
    exact h.cleanupNamed id object' ids hstop
  · rw [hname]
    exact h.loopNamed i id object' hstop
  · obtain ⟨hunused, hempty, hunserved⟩ := h.selected id object' hsel
    refine ⟨hunused, ?_, hunserved⟩
    by_cases heq : object' = object
    · subst heq
      rw [show (s.setObject object' service).objects object' = service from update_self ..]
      exact hselected id hsel
    · rw [show (s.setObject object service).objects object' = s.objects object' from update_of_ne heq ..]
      exact hempty
  · obtain ⟨hvolatile, hunserved⟩ := h.condemned i id object' hcond
    refine ⟨?_, hunserved⟩
    by_cases heq : object' = object
    · subst heq
      rw [show (s.setObject object' service).objects object' = service from update_self ..]
      exact hcondemned i id hcond
    · rw [show (s.setObject object service).objects object' = s.objects object' from update_of_ne heq ..]
      exact hvolatile

/-- The rule for a service that comes into use. -/
theorem use (hfree : ∀ id, ¬ s.Selected id object) : Calm { s with used := object :: s.used } := by
  refine ⟨h.named, h.cleanupNamed, h.loopNamed, h.cleanupSelects, h.cleanupStops, h.loopStops,
    fun id object' hsel => ?_, h.condemned⟩
  obtain ⟨hunused, hrest⟩ := h.selected id object' hsel
  refine ⟨fun hmem => ?_, hrest⟩
  rcases mem_cons.mp hmem with rfl | hold
  · exact hfree id hsel
  · exact hunused hold

theorem setAct (j : ℕ) (phase : Option ActPhase) : (s.setAct j phase).Calm :=
  ⟨h.named, h.cleanupNamed, h.loopNamed, h.cleanupSelects, h.cleanupStops, h.loopStops, h.selected, h.condemned⟩

/-- A run loop takes the service from the registry and keeps its lock. -/
theorem eraseByLoop (hloop : s.loops i = .removing id) (hlock : s.lock = none) (hlookup : s.lookup id = some object) :
    (TerminalServices.setLoop { s with services := s.erase id, lock := some (.loop i) } i (.stopping id object)).Calm := by
  have hserving : ∀ {k id'}, (TerminalServices.setLoop { s with services := s.erase id, lock := some (.loop i) } i
      (.stopping id object)).Serving k id' → s.Serving k id' := by
    intro k id' hserves
    refine (Serving.of_setLoop (s := { s with services := s.erase id, lock := some (.loop i) }) hserves).resolve_right ?_
    exact fun hnew => hnew.2.elim nofun nofun
  refine ⟨fun id' object' hlookup' => h.named id' object' (find?_erase hlookup'), h.cleanupNamed,
    fun j id' object' hj => ?_, fun todo selected hc => ?_, fun id' object' ids hc => ?_, fun j id' object' hj => ?_,
    fun id' object' hsel => ?_, fun j id' object' hcond => ?_⟩
  · by_cases hji : j = i
    · subst hji
      obtain ⟨rfl, rfl⟩ := stopping.inj ((loops_setLoop ..).symm.trans hj)
      exact h.named _ _ hlookup
    · exact h.loopNamed j id' object' ((loops_setLoop_of_ne hji ..).symm.trans hj)
  · exact nomatch hlock.symm.trans (h.cleanupSelects todo selected hc)
  · exact nomatch hlock.symm.trans (h.cleanupStops id' object' ids hc)
  · by_cases hji : j = i
    · subst hji
      rfl
    · exact nomatch hlock.symm.trans (h.loopStops j id' object' ((loops_setLoop_of_ne hji ..).symm.trans hj))
  · obtain ⟨hunused, hempty, hunserved⟩ := h.selected id' object' (hsel.imp_left fun hp => ⟨hp.1, find?_erase hp.2⟩)
    exact ⟨hunused, hempty, fun k hk => hunserved k (hserving hk)⟩
  · have hold : s.Condemned j id' object' := by
      by_cases hji : j = i
      · subst hji
        rcases hcond with ⟨hj, -⟩ | hj
        · exact nomatch (loops_setLoop ..).symm.trans hj
        · obtain ⟨rfl, rfl⟩ := stopping.inj ((loops_setLoop ..).symm.trans hj)
          exact .inl ⟨hloop, hlookup⟩
      · refine hcond.imp (fun hp => ⟨?_, find?_erase hp.2⟩) fun hj => ?_
        · exact (loops_setLoop_of_ne hji ..).symm.trans hp.1
        · exact (loops_setLoop_of_ne hji ..).symm.trans hj
    obtain ⟨hvolatile, hunserved⟩ := h.condemned j id' object' hold
    exact ⟨hvolatile, fun k hk hserves => hunserved k hk (hserving hserves)⟩

/-- A run loop stops the sessions of what it has removed and gives the lock back. -/
theorem stopByLoop (hloop : s.loops i = .stopping id object) : ((s.stopSessions object).setLoop i .gone).Calm := by
  have hlock := h.loopStops i id object hloop
  have hfree : ∀ j id' object', ((s.stopSessions object).setLoop i .gone).loops j ≠ .stopping id' object' := by
    intro j id' object' hj
    by_cases hji : j = i
    · subst hji
      exact nomatch (loops_setLoop ..).symm.trans hj
    · have hother := h.loopStops j id' object' ((loops_setLoop_of_ne hji ..).symm.trans hj)
      exact hji (Remover.loop.inj (some.inj (hother.symm.trans hlock)))
  have hserving : ∀ {k id'}, ((s.stopSessions object).setLoop i .gone).Serving k id' → s.Serving k id' := by
    intro k id' hserves
    refine (Serving.of_setLoop (s := s.stopSessions object) hserves).resolve_right ?_
    exact fun hnew => hnew.2.elim nofun nofun
  refine ⟨h.named, h.cleanupNamed, fun j id' object' hj => absurd hj (hfree j id' object'), fun todo selected hc => ?_,
    fun id' object' ids hc => ?_, fun j id' object' hj => absurd hj (hfree j id' object'), fun id' object' hsel => ?_,
    fun j id' object' hcond => ?_⟩
  · exact nomatch hlock.symm.trans (h.cleanupSelects todo selected hc)
  · exact nomatch hlock.symm.trans (h.cleanupStops id' object' ids hc)
  · obtain ⟨hunused, hempty, hunserved⟩ := h.selected id' object' hsel
    exact ⟨hunused, hempty, fun k hk => hunserved k (hserving hk)⟩
  · have hji : j ≠ i := by
      rintro rfl
      rcases hcond with ⟨hj, -⟩ | hj
      · exact nomatch (loops_setLoop ..).symm.trans hj
      · exact hfree _ _ _ hj
    have hold : s.Condemned j id' object' := by
      rw [Condemned, loops_setLoop_of_ne hji] at hcond
      exact hcond
    obtain ⟨hvolatile, hunserved⟩ := h.condemned j id' object' hold
    exact ⟨hvolatile, fun k hk hserves => hunserved k hk (hserving hserves)⟩

theorem loopStep (hundisturbed : s.Undisturbed (.loop i)) : (s.loopStep i (s.loops i)).Calm := by
  cases hloop : s.loops i with
  | absent | attached | running | gone => exact h
  | ended id =>
    simp only [TerminalServices.loopStep]
    split
    · exact h
    · split
      · exact h.setLoop (fun _ hp => hp.elim nofun nofun) nofun nofun
      · exact h.setLoop (fun _ hp => hp.elim nofun nofun) nofun nofun
  | checking id object =>
    simp only [TerminalServices.loopStep]
    split
    next => exact h.setLoop (fun _ hp => hp.elim nofun nofun) nofun nofun
    next hvolatile =>
      replace hvolatile := Bool.eq_false_iff.mpr hvolatile
      obtain ⟨hsame, hunserved⟩ := hundisturbed id object hloop hvolatile
      refine h.setLoop (fun _ hp => hp.elim nofun nofun) nofun fun id' object' hid hlookup => ?_
      obtain rfl := removing.inj hid
      rw [hsame object' hlookup]
      exact ⟨hvolatile, hunserved⟩
  | removing id =>
    simp only [TerminalServices.loopStep]
    split
    next => exact h
    next hfree =>
      split
      next => exact h.setLoop (fun _ hp => hp.elim nofun nofun) nofun nofun
      next object hlookup => exact h.eraseByLoop hloop (by simpa using hfree) hlookup
  | stopping id object => exact h.stopByLoop hloop

/-- The rule for the cleanup where it holds no lock before or behind the step, or gives its lock back. -/
theorem setCleanup {phase : CleanupPhase} {lock : Option Remover} {stopped : List (ℕ × Int)}
    (hpending : ∀ id object, id ∈ phase.pending → s.lookup id = some object → s.Idle id object)
    (hselecting : ∀ todo selected, phase = .selecting todo selected → lock = some .cleanup)
    (hstopping : ∀ id object ids, phase ≠ .stopping id object ids)
    (hlock : ∀ i, s.lock = some (.loop i) → lock = some (.loop i)) :
    Calm { s with cleanup := phase, lock, stopped } := by
  refine ⟨h.named, fun id object ids hc => absurd hc (hstopping id object ids), h.loopNamed, hselecting,
    fun id object ids hc => absurd hc (hstopping id object ids),
    fun i id object hi => hlock i (h.loopStops i id object hi), fun id object hsel => ?_, h.condemned⟩
  rcases hsel with ⟨hmem, hlookup⟩ | ⟨ids, hc⟩
  · exact hpending id object hmem hlookup
  · exact absurd hc (hstopping id object ids)

theorem eraseByCleanup {ids : List String} (hcleanup : s.cleanup = .removing (id :: ids))
    (hlock : s.lock = none) (hlookup : s.lookup id = some object) :
    Calm { s with services := s.erase id, lock := some .cleanup, cleanup := .stopping id object ids } := by
  have hpending : ∀ {id'}, id' ∈ id :: ids → id' ∈ s.cleanup.pending := fun hmem => by rwa [hcleanup]
  refine ⟨fun id' object' hlookup' => h.named id' object' (find?_erase hlookup'), fun id' object' ids' hc => ?_,
    h.loopNamed, nofun, fun _ _ _ _ => rfl, fun i id' object' hi => ?_,
    fun id' object' hsel => ?_, fun i id' object' hcond => ?_⟩
  · obtain ⟨rfl, rfl, -⟩ := CleanupPhase.stopping.inj hc
    exact h.named _ _ hlookup
  · exact nomatch hlock.symm.trans (h.loopStops i id' object' hi)
  · refine h.selected id' object' (.inl ?_)
    rcases hsel with ⟨hmem, hlookup'⟩ | ⟨ids', hc⟩
    · exact ⟨hpending (mem_cons_of_mem _ hmem), find?_erase hlookup'⟩
    · obtain ⟨rfl, rfl, -⟩ := CleanupPhase.stopping.inj hc
      exact ⟨hpending mem_cons_self, hlookup⟩
  · exact h.condemned i id' object' (hcond.imp_left fun hp => ⟨hp.1, find?_erase hp.2⟩)

/-- The cleanup selects a service that is idle and that nobody is attached to. -/
theorem select {todo selected : List String} (hcleanup : s.cleanup = .selecting (id :: todo) selected)
    (hlookup : s.lookup id = some object) (hidle : (s.objects object).isIdle s.now = true)
    (hunserved : ∀ i, ¬ s.Serving i id) :
    Calm { s with cleanup := .selecting todo (selected ++ [id]), used := s.used.filter (· ≠ object) } := by
  refine ⟨h.named, nofun, h.loopNamed, fun _ _ _ => h.cleanupSelects _ _ hcleanup, nofun, h.loopStops,
    fun id' object' hsel => ?_, h.condemned⟩
  have hrest : id' ∈ s.cleanup.pending → s.lookup id' = some object' → s.Idle id' object' :=
    fun hmem hlookup' => h.selected id' object' (.inl ⟨hmem, hlookup'⟩)
  rcases hsel with ⟨hmem, hlookup'⟩ | ⟨ids, hc⟩
  · rcases mem_append.mp hmem with hold | hnew
    · obtain ⟨hunused, hempty, hnobody⟩ := hrest (by rwa [hcleanup]) hlookup'
      exact ⟨fun hused => hunused (mem_of_mem_filter hused), hempty, hnobody⟩
    · obtain rfl := mem_singleton.mp hnew
      obtain rfl := some.inj (hlookup.symm.trans hlookup')
      refine ⟨fun hused => ?_, fun hpersistent => ?_, hunserved⟩
      · simpa using (mem_filter.mp hused).2
      · have hold : (s.objects object).isPersistent = true := hpersistent
        rw [isIdle, if_pos hold, Bool.and_eq_true] at hidle
        exact isEmpty_iff.mp hidle.1
  · exact nomatch hc

theorem cleanupStep (hundisturbed : s.Undisturbed .cleanup) : (s.cleanupStep s.cleanup).Calm := by
  have hold : ∀ {id object}, id ∈ s.cleanup.pending → s.lookup id = some object → s.Idle id object :=
    fun hmem hlookup => h.selected _ _ (.inl ⟨hmem, hlookup⟩)
  cases hcleanup : s.cleanup with
  | waiting =>
    simp only [TerminalServices.cleanupStep]
    split
    next => exact h
    next hfree =>
      refine h.setCleanup (fun _ _ hmem => absurd hmem not_mem_nil) (fun _ _ _ => rfl) nofun fun i hi => ?_
      simp [hi] at hfree
  | selecting todo selected =>
    rw [hcleanup] at hold
    have hlock := h.cleanupSelects todo selected hcleanup
    have hnoloop : ∀ (lock : Option Remover) i, s.lock = some (.loop i) → lock = some (.loop i) :=
      fun _ i hi => nomatch hlock.symm.trans hi
    cases todo with
    | nil => exact h.setCleanup (fun _ _ => hold) nofun nofun (hnoloop none)
    | cons id todo =>
      have hskip : Calm { s with cleanup := .selecting todo selected, lock := s.lock } :=
        h.setCleanup (fun _ _ => hold) (fun _ _ _ => hlock) nofun (fun _ hi => hi)
      simp only [TerminalServices.cleanupStep]
      split
      next => exact hskip
      next object hlookup =>
        split
        next hidle => exact h.select hcleanup hlookup hidle (hundisturbed id todo selected object hcleanup hlookup hidle)
        next => exact hskip
  | removing ids =>
    rw [hcleanup] at hold
    cases ids with
    | nil =>
      exact h.setCleanup (fun _ _ hmem => absurd hmem not_mem_nil) nofun nofun fun _ hi => hi
    | cons id ids =>
      simp only [TerminalServices.cleanupStep]
      split
      next => exact h
      next hfree =>
        split
        next =>
          refine h.setCleanup (fun _ _ hmem => ?_) nofun nofun fun _ hi => hi
          exact hold (mem_cons_of_mem _ hmem)
        next object hlookup => exact h.eraseByCleanup hcleanup (by simpa using hfree) hlookup
  | stopping id object ids =>
    rw [hcleanup] at hold
    have hlock := h.cleanupStops id object ids hcleanup
    exact h.setCleanup (fun _ _ => hold) nofun nofun fun i hi => nomatch hlock.symm.trans hi

/-- What an act keeps of a service that is going to be removed. -/
theorem perform {act : TerminalAct} (hact : s.acts j = some (.perform object act))
    (hundisturbed : s.Undisturbed (.advance j)) : (s.setObject object (act.perform (s.objects object))).Calm := by
  have hselected : ∀ id, s.Selected id object → (s.objects object).isPersistent = true →
      (s.objects object).sessions = [] := fun id hsel => (h.selected id object hsel).2.1
  have hcondemned : ∀ i id, s.Condemned i id object → (s.objects object).isPersistent = false :=
    fun i id hcond => (h.condemned i id object hcond).1
  cases act with
  | openTerminal terminalId spawned =>
    have hopen := handleOpen_fields (s.objects object) terminalId spawned
    refine h.setObject hopen.1 (fun id hsel => ?_) fun i id hcond => hopen.2.trans (hcondemned i id hcond)
    exact absurd hsel (hundisturbed.1 object terminalId spawned hact id)
  | closeTerminal terminalId =>
    refine h.setObject rfl (fun id hsel hpersistent => ?_) hcondemned
    simp [TerminalAct.perform, removeSession, hselected id hsel hpersistent]
  | input => exact h.setObject rfl hselected hcondemned
  | setPersistent isPersistent =>
    cases isPersistent with
    | false => exact h.setObject rfl (fun _ _ hp => nomatch hp) fun _ _ _ => rfl
    | true =>
      have hfree := hundisturbed.2 object hact
      exact h.setObject rfl (fun id hsel => absurd hsel (hfree id).1) fun i id hcond => absurd hcond ((hfree id).2 i)
  | reap terminalIds =>
    obtain ⟨hid, hpersistent, hsessions⟩ := reap_fields (s.objects object) terminalIds
    refine h.setObject hid (fun id hsel hp => hsessions (hselected id hsel (hpersistent.symm.trans hp))) fun i id hcond => ?_
    exact hpersistent.trans (hcondemned i id hcond)

theorem actStep {phase : ActPhase} (hact : s.acts j = some phase)
    (hundisturbed : s.Undisturbed (.advance j)) : (s.actStep j phase).Calm := by
  cases phase with
  | lookup id act =>
    simp only [TerminalServices.actStep]
    split
    · exact h
    · split <;> exact h.setAct j _
  | touch object act =>
    have htouched : (s.setObject object ((s.objects object).updateActivity s.now)).Calm :=
      h.setObject rfl (fun id hsel => (h.selected id object hsel).2.1) fun i id hcond => (h.condemned i id object hcond).1
    exact htouched.setAct j _
  | perform object act =>
    have hperformed := (h.perform hact hundisturbed).setAct j none
    simp only [TerminalServices.actStep]
    split
    next terminalId spawned => exact hperformed.use (hundisturbed.1 object terminalId spawned hact)
    next => exact hperformed

/-- A service that is created has an object of its own. -/
theorem createService (hname : service.serviceId = id)
    (hlock : s.lock = none) (hpending : id ∉ s.cleanup.pending) (hremoving : ∀ j, s.loops j ≠ .removing id) :
    Calm { s.setObject s.nextObject service with
      services := (id, s.nextObject) :: s.services
      nextObject := s.nextObject + 1
      used := s.nextObject :: s.used } := by
  have hlookup : ∀ {id' object'}, (((id, s.nextObject) :: s.services).find? (·.1 = id')).map Prod.snd = some object' →
      id' = id ∧ object' = s.nextObject ∨ id' ≠ id ∧ s.lookup id' = some object' := by
    intro id' object' hfound
    by_cases heq : id = id'
    · rw [find?_cons_of_pos (by simpa using heq)] at hfound
      exact .inl ⟨heq.symm, (some.inj hfound).symm⟩
    · rw [find?_cons_of_neg (by simpa using heq)] at hfound
      exact .inr ⟨Ne.symm heq, hfound⟩
  have hold : ∀ {object'}, object' < s.nextObject →
      (update s.objects s.nextObject service) object' = s.objects object' := fun hlt =>
    update_of_ne (Nat.ne_of_lt hlt) ..
  refine ⟨fun id' object' hfound => ?_, fun id' object' ids hc => ?_, fun j id' object' hj => ?_, h.cleanupSelects,
    h.cleanupStops, h.loopStops, fun id' object' hsel => ?_, fun j id' object' hcond => ?_⟩
  · rcases hlookup hfound with ⟨rfl, rfl⟩ | ⟨-, hbefore⟩
    · exact ⟨(congrArg _ (update_self ..)).trans hname, Nat.lt_succ_self _⟩
    · obtain ⟨hid, hlt⟩ := h.named id' object' hbefore
      exact ⟨(congrArg _ (hold hlt)).trans hid, Nat.lt_succ_of_lt hlt⟩
  · exact nomatch hlock.symm.trans (h.cleanupStops id' object' ids hc)
  · exact nomatch hlock.symm.trans (h.loopStops j id' object' hj)
  · rcases hsel with ⟨hmem, hfound⟩ | ⟨ids, hc⟩
    · rcases hlookup hfound with ⟨rfl, -⟩ | ⟨-, hbefore⟩
      · exact absurd hmem hpending
      · have hlt := (h.named id' object' hbefore).2
        obtain ⟨hunused, hempty, hunserved⟩ := h.selected id' object' (.inl ⟨hmem, hbefore⟩)
        refine ⟨fun hused => ?_, ?_, hunserved⟩
        · rcases mem_cons.mp hused with heq | hmem'
          · exact Nat.ne_of_lt hlt heq
          · exact hunused hmem'
        · change ((update s.objects s.nextObject service) object').isPersistent = true → _
          rw [hold hlt]
          intro hp
          exact (congrArg _ (hold hlt)).trans (hempty hp)
    · exact nomatch hlock.symm.trans (h.cleanupStops id' object' ids hc)
  · rcases hcond with ⟨hj, hfound⟩ | hj
    · rcases hlookup hfound with ⟨rfl, -⟩ | ⟨-, hbefore⟩
      · exact absurd hj (hremoving j)
      · obtain ⟨hvolatile, hunserved⟩ := h.condemned j id' object' (.inl ⟨hj, hbefore⟩)
        exact ⟨(congrArg _ (hold (h.named id' object' hbefore).2)).trans hvolatile, hunserved⟩
    · exact nomatch hlock.symm.trans (h.loopStops j id' object' hj)

/-- Attaching to a service, or creating one under an id that nobody is going to remove. -/
theorem getOrCreateService (hlock : s.lock = none)
    (hpending : id ∉ s.cleanup.pending) (hremoving : ∀ j, s.loops j ≠ .removing id) :
    (s.getOrCreateService id isPersistent isSpecifiedUser).Calm := by
  have hselected : ∀ object, ¬ s.Selected id object := by
    rintro object (⟨hmem, -⟩ | ⟨ids, hc⟩)
    · exact hpending hmem
    · exact nomatch hlock.symm.trans (h.cleanupStops id object ids hc)
  have hcondemned : ∀ j object, ¬ s.Condemned j id object := by
    rintro j object (⟨hj, -⟩ | hj)
    · exact hremoving j hj
    · exact nomatch hlock.symm.trans (h.loopStops j id object hj)
  unfold TerminalServices.getOrCreateService
  split
  next object hlookup =>
    have hid := (h.named id object hlookup).1
    have hfree : ∀ id', ¬ s.Selected id' object := by
      rintro id' hsel
      have hid' : (s.objects object).serviceId = id' := by
        rcases hsel with ⟨-, hlookup'⟩ | ⟨ids, hc⟩
        · exact (h.named id' object hlookup').1
        · exact (h.cleanupNamed id' object ids hc).1
      exact hselected object (hid ▸ hid' ▸ hsel)
    refine Calm.use (h.setObject rfl (fun id' hsel => absurd hsel (hfree id')) fun j id' hcond => ?_) hfree
    have hid' : (s.objects object).serviceId = id' := by
      rcases hcond with ⟨-, hlookup'⟩ | hj
      · exact (h.named id' object hlookup').1
      · exact (h.loopNamed j id' object hj).1
    exact absurd (hid ▸ hid' ▸ hcond) (hcondemned j object)
  next hnone =>
    split
    next => exact h
    next => exact h.createService rfl hlock hpending hremoving

theorem attach (hundisturbed : s.Undisturbed (.attach i id isPersistent isSpecifiedUser)) (hlock : s.lock = none) :
    ((s.getOrCreateService id isPersistent isSpecifiedUser).setLoop i (.attached id)).Calm := by
  have hcreated : (s.getOrCreateService id isPersistent isSpecifiedUser).Calm :=
    h.getOrCreateService hlock hundisturbed.1 hundisturbed.2
  have hsame : (s.getOrCreateService id isPersistent isSpecifiedUser).cleanup = s.cleanup ∧
      (s.getOrCreateService id isPersistent isSpecifiedUser).loops = s.loops ∧
      (s.getOrCreateService id isPersistent isSpecifiedUser).lock = s.lock := by
    unfold TerminalServices.getOrCreateService
    split
    · exact ⟨rfl, rfl, rfl⟩
    · split <;> exact ⟨rfl, rfl, rfl⟩
  obtain ⟨hcleanup, hloops, hlocks⟩ := hsame
  have hfree := hlocks.trans hlock
  refine hcreated.setLoop (fun id' hid => .inr ⟨?_, ?_⟩) nofun nofun
  · obtain rfl : id = id' := hid.elim attached.inj nofun
    rintro object (⟨hmem, -⟩ | ⟨ids, hc⟩)
    · exact hundisturbed.1 (hcleanup ▸ hmem)
    · exact nomatch hfree.symm.trans (hcreated.cleanupStops id object ids hc)
  · obtain rfl : id = id' := hid.elim attached.inj nofun
    rintro j object (⟨hj, -⟩ | hj)
    · exact hundisturbed.2 j (hloops ▸ hj)
    · exact nomatch hfree.symm.trans (hcreated.loopStops j id object hj)

theorem step (hundisturbed : s.Undisturbed e) : (s.step e).Calm := by
  cases e with
  | attach i id isPersistent isSpecifiedUser =>
    simp only [TerminalServices.step]
    split
    next hfree => exact h.attach hundisturbed (isNone_iff_eq_none.mp (Bool.and_eq_true_iff.mp hfree).2)
    next => exact h
  | spawn i =>
    simp only [TerminalServices.step]
    split
    next id hloop =>
      refine h.setLoop (fun id' hid => .inl (.inl ?_)) nofun nofun
      rw [hloop, hid.elim nofun running.inj]
    next => exact h
  | leave i =>
    simp only [TerminalServices.step]
    split
    next => exact h.setLoop (fun _ hp => hp.elim nofun nofun) nofun nofun
    next => exact h
  | loop i => exact h.loopStep hundisturbed
  | act j id act =>
    simp only [TerminalServices.step]
    split
    · exact h
    · exact h.setAct j _
  | advance j =>
    simp only [TerminalServices.step]
    split
    next => exact h
    next phase hact => exact h.actStep hact hundisturbed
  | cleanup => exact h.cleanupStep hundisturbed
  | wait ms =>
    exact ⟨h.named, h.cleanupNamed, h.loopNamed, h.cleanupSelects, h.cleanupStops, h.loopStops, h.selected, h.condemned⟩

/-- What is removed in such a run is not in use. -/
theorem not_inUse {remover : Remover} (hremoves : s.Removes remover id object e) : ¬ s.InUse remover id object := by
  cases e with
  | loop i =>
    obtain ⟨rfl, hloop⟩ := hremoves
    obtain ⟨hvolatile, hunserved⟩ := h.condemned i id object (hloop.imp_left fun hp => ⟨hp.1, hp.2.2⟩)
    rintro (⟨hremover, -⟩ | ⟨hpersistent, -⟩ | ⟨j, hj, hrunning⟩)
    · exact nomatch hremover
    · exact Bool.noConfusion (hvolatile.symm.trans hpersistent)
    · exact hunserved j (fun hji => hj (congrArg _ hji.symm)) (.inr hrunning)
  | cleanup =>
    obtain ⟨rfl, hcleanup⟩ := hremoves
    have hselected : s.Selected id object := by
      refine hcleanup.imp_left fun ⟨⟨ids, hids⟩, _, hlookup⟩ => ⟨?_, hlookup⟩
      rw [hids]
      exact mem_cons_self
    obtain ⟨hunused, hempty, hunserved⟩ := h.selected id object hselected
    rintro (⟨-, hused⟩ | ⟨hpersistent, hsessions⟩ | ⟨j, -, hrunning⟩)
    · exact hunused hused
    · exact hsessions (hempty hpersistent)
    · exact hunserved j (.inr hrunning)
  | attach | spawn | leave | act | advance | wait => exact hremoves.elim

end Calm

end Calm

end Steps

/-- What a step removes or stops is not in use. -/
def Spares (s : TerminalServices) (e : TerminalStep) : Prop :=
  ∀ remover id object, s.Removes remover id object e → ¬ s.InUse remover id object

theorem calm_start : Calm {} := by
  refine ⟨nofun, nofun, nofun, nofun, nofun, nofun, fun id object hsel => ?_, fun i id object hcond => ?_⟩
  · rcases hsel with ⟨hmem, -⟩ | ⟨ids, hc⟩
    · exact absurd hmem not_mem_nil
    · exact nomatch hc
  · rcases hcond with ⟨hi, -⟩ | hi <;> exact nomatch hi

end TerminalServices

/-- A terminal service in use is not removed, in every run in which nobody comes back to a service between the decision
to remove it and its removal, and no other connection is attached to it when the decision is made. -/
theorem terminal_service_in_use_kept {steps : List TerminalStep}
    (hundisturbed : RunMeets TerminalServices.step TerminalServices.Undisturbed {} steps) :
    RunMeets TerminalServices.step TerminalServices.Spares {} steps :=
  runMeets_of_invariant (I := TerminalServices.Calm) (fun _ _ h hok => h.step hok)
    (fun _ _ h _ _ _ _ hremoves => h.not_inUse hremoves) TerminalServices.calm_start hundisturbed

/-- A client with a persistent service leaves, and the service is idle until the cleanup selects it. -/
def idleService : List TerminalStep :=
  [.attach 0 "ts" true false, .spawn 0, .leave 0, .loop 0, .loop 0, .wait (serviceIdleTimeout * 2 + 1),
    .cleanup, .cleanup, .cleanup]

/-- Nobody comes back. -/
theorem terminal_service_in_use_kept_idle :
    (runEvents TerminalServices.step {} idleService).Removes .cleanup "ts" 0 .cleanup ∧
      RunMeets TerminalServices.step TerminalServices.Spares {} (idleService ++ [.cleanup, .cleanup]) := by
  refine ⟨⟨rfl, .inl ⟨⟨[], rfl⟩, rfl, rfl⟩⟩, terminal_service_in_use_kept ?_⟩
  refine ⟨⟨List.not_mem_nil, nofun⟩, trivial, trivial, nofun, ?_, trivial, nofun, ?_, nofun, nofun, nofun, trivial⟩
  · rintro id object hloop hvolatile
    obtain ⟨rfl, rfl⟩ := checking.inj hloop
    exact nomatch hvolatile
  · rintro id todo selected object - - - i hserving
    cases i <;> exact hserving.elim nofun nofun

/-- The client comes back between the selection and the removal, and opens a terminal. -/
def reattached : List TerminalStep :=
  idleService ++ [.attach 1 "ts" true false, .spawn 1, .act 0 "ts" (.openTerminal 1 true), .advance 0, .advance 0, .advance 0]

/-- The service is removed with the terminal of the client. -/
theorem reattached_service_removed : ¬ RunMeets TerminalServices.step TerminalServices.Spares {} (reattached ++ [.cleanup]) := by
  intro h
  refine (runMeets_append.mp h).2.1 .cleanup "ts" 0 ⟨rfl, .inl ⟨⟨[], rfl⟩, rfl, rfl⟩⟩ (.inl ⟨rfl, ?_⟩)
  decide

end UnyDesk
