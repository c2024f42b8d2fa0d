import UnyDesk.Terminal.Orderly

/-!
# Continuity of terminal streams

What a client is sent after its terminal was opened is the end of what had been kept and then every chunk that is taken
out of the channel, in every orderly run.
-/

namespace UnyDesk

open Lib Function TerminalSession List

namespace TerminalStreams

variable {spawned : Except String ℕ} {session : TerminalSession} {request : OpenTerminal} {object : ℕ}
  {late : List Bytes} {resizeOk : Bool}

/-- The event is no reset, and opens neither the session nor the terminal of the client. -/
def Leaves (connection : ℕ) (terminalId : Int) (object : ℕ) (s : TerminalStreams) : TerminalEvent → Prop
  | .reset _ => False
  | .openTerminal connection' request _ =>
    (connection', request.terminalId) ≠ (connection, terminalId) ∧ s.target request.terminalId ≠ some object
  | _ => True

/-- The state is one after the terminal was opened, in the first state. What the client was sent since, what is on its
way and what is pending are the end of what had been kept when it was opened, and the chunks taken out since. -/
def Continues (codec : Codec) (s₁ s : TerminalStreams) (connection : ℕ) (terminalId : Int) (object : ℕ) : Prop :=
  ∃ pendingBuffer sigwinch received, (s.objects object).state = .active pendingBuffer sigwinch ∧
    (s.objects object).taken = (s₁.objects object).taken ++ received ∧
    payloads codec terminalId (sinceOpened terminalId (s.wires connection)) ++
        payloads codec terminalId (s.inFlight connection) ++ replayed pendingBuffer =
      replayed (some ((s₁.objects object).outputBuffer.getRecent defaultReconnectBufferBytes)) ++ received

/-- The client has the session under the id, and gets the buffer and then what was taken out of the channel. -/
def Streams (codec : Codec) (s : TerminalStreams) (c : ℕ) (terminalId : Int) (k : ℕ) (before : List Bytes)
    (buffer : Bytes) : Prop :=
  s.opened k = some (c, terminalId) ∧ ∃ pendingBuffer sigwinch received,
      (s.objects k).state = .active pendingBuffer sigwinch ∧ (s.objects k).taken = before ++ received ∧
      payloads codec terminalId (s.trace c terminalId) ++ replayed pendingBuffer = replayed (some buffer) ++ received

section Streams

variable {codec : Codec} {s s' : TerminalStreams} {c : ℕ} {terminalId : Int} {k : ℕ} {before : List Bytes}
  {buffer : Bytes} {c' : ℕ} {response : TerminalResponse}

section StreamsFrame

variable (h : Streams codec s c terminalId k before buffer)
include h

theorem Streams.frame (hopened : s'.opened k = s.opened k)
    (hstate : (s'.objects k).state = (s.objects k).state) (htaken : (s'.objects k).taken = (s.objects k).taken)
    (hpayloads : payloads codec terminalId (s'.trace c terminalId) = payloads codec terminalId (s.trace c terminalId)) :
    Streams codec s' c terminalId k before buffer := by
  obtain ⟨hk, pendingBuffer, sigwinch, received, hs, ht, heq⟩ := h
  exact ⟨hopened.trans hk, pendingBuffer, sigwinch, received, hstate.trans hs, htaken.trans ht, hpayloads ▸ heq⟩

theorem Streams.setObject
    (hstate : session.state = (s.objects object).state) (htaken : session.taken = (s.objects object).taken) :
    Streams codec (s.setObject object session) c terminalId k before buffer := by
  by_cases hk : k = object
  · subst hk
    have hself : (s.setObject k session).objects k = session := update_self ..
    exact h.frame rfl (by rw [hself, hstate]) (by rw [hself, htaken]) rfl
  · have hne : (s.setObject object session).objects k = s.objects k := update_of_ne hk ..
    exact h.frame rfl (by rw [hne]) (by rw [hne]) rfl

theorem Streams.setPoll {poll : Poll} (hresponses : poll.responses = (s.polls c').responses) :
    Streams codec (s.setPoll c' poll) c terminalId k before buffer :=
  h.frame rfl rfl rfl (congrArg _ (trace_of_inFlight (inFlight_setPoll hresponses c) rfl terminalId))

theorem Streams.queue {responses : List TerminalResponse} (hresponses : (s.polls c').responses = responses) :
    Streams codec (s.queue c' responses) c terminalId k before buffer :=
  h.frame rfl rfl rfl (congrArg _ (trace_of_inFlight (inFlight_queue hresponses c) rfl terminalId))

end StreamsFrame

/-- An answer without data leaves the data of the terminal as they are, unless it opens the terminal. -/
theorem payloads_answer (hdata : response.isDataFor terminalId = false)
    (hopens : c' = c → response.opens terminalId = false) :
    payloads codec terminalId ((s.answer c' response).trace c terminalId) =
      payloads codec terminalId (s.trace c terminalId) := by
  by_cases hc : c = c'
  · subst hc
    have hnone : payloads codec terminalId [response] = [] :=
      payloads_eq_nil fun r hr => by rwa [mem_singleton.mp hr]
    rw [trace, show (s.answer c response).wires c = _ from update_self .., sinceOpened_concat (hopens rfl),
      payloads_append, payloads_append, hnone, append_nil, trace, payloads_append]
    rfl
  · rw [trace, show (s.answer c' response).wires c = s.wires c from update_of_ne hc .., trace]
    rfl

section StreamsSteps

variable (h : Streams codec s c terminalId k before buffer)
include h

namespace Streams

theorem answer (hdata : response.isDataFor terminalId = false) (hopens : c' = c → response.opens terminalId = false) :
    Streams codec (s.answer c' response) c terminalId k before buffer :=
  h.frame rfl rfl rfl (payloads_answer hdata hopens)

/-- A session that is read sends what is pending and what it received, if the client has it, and otherwise nothing. -/
theorem readNext (hcodec : ∀ bytes, codec.decompress (codec.compress bytes) = bytes)
    (hsteady : Steady s) (hok : s.Orderly (.read c' late resizeOk)) :
    Streams codec (s.readNext codec c' late resizeOk) c terminalId k before buffer := by
  obtain hsame | ⟨isPersistent, id, object, sessions, responses, closedTerminals, hpoll⟩ :=
    readNext_cases codec s c' late resizeOk
  · rw [hsame]
    exact h
  obtain ⟨howner, -⟩ := hok id object (by rw [hpoll]; rfl)
  rw [readNext_of_reading hpoll]
  set received := ((s.objects object).readOutputs codec id late resizeOk).2 with hreceived
  set s' := (s.setObject object ((s.objects object).readOutputs codec id late resizeOk).1).setPoll c'
    (.reading isPersistent sessions (responses ++ received)
      (if (s.objects object).shouldSendClosed then closedTerminals ++ [id] else closedTerminals)) with hs'
  have hpayloads : payloads codec terminalId (s'.trace c terminalId) =
      payloads codec terminalId (s.trace c terminalId) ++
        if c' = c then payloads codec terminalId received else [] := by
    by_cases hc : c = c'
    · subst hc
      have hpoll' : s'.polls c = _ := polls_setPoll ..
      rw [if_pos rfl, ← payloads_append, trace, inFlight, hpoll', trace, inFlight, hpoll, Poll.responses,
        Poll.responses, append_assoc, append_assoc]
      rfl
    · rw [if_neg (Ne.symm hc), append_nil, trace, inFlight,
        show s'.polls c = s.polls c from update_of_ne hc .., trace, inFlight]
      rfl
  by_cases hk : k = object
  · subst hk
    obtain ⟨hopened, pendingBuffer, sigwinch, taken, hstate, htaken, heq⟩ := h
    obtain ⟨rfl, rfl⟩ : c' = c ∧ id = terminalId := by
      have hsame := (howner (by simp [hstate])).symm.trans hopened
      exact Prod.mk.inj (Option.some.inj hsame)
    obtain ⟨ptySize, sigwinch', hread⟩ := readOutputs_of_active codec id late resizeOk hstate
    have hself : s'.objects k = _ := update_self ..
    rw [hread] at hself hreceived
    refine ⟨hopened, none, sigwinch', taken ++ ((s.objects k).outputRx ++ late), by rw [hself], ?_, ?_⟩
    · rw [hself]
      simp [drain, htaken]
    · rw [hpayloads, if_pos rfl, hreceived, payloads_create hcodec, ← append_assoc, heq]
      simp [replayed]
  · have hne : s'.objects k = s.objects k := update_of_ne hk ..
    refine h.frame rfl (by rw [hne]) (by rw [hne]) ?_
    rw [hpayloads]
    split
    next hc =>
      -- another session does not send data for the terminal to the client
      have hnone : payloads codec terminalId received = [] := by
        refine payloads_eq_nil fun response hmem => ?_
        obtain ⟨hactive, data, rfl⟩ := mem_readOutputs hmem
        rw [isDataFor_create, decide_eq_false_iff_not]
        rintro rfl
        exact hk (hsteady.mapped.unique k object _ h.1 (by rw [howner hactive, hc]))
      rw [hnone, append_nil]
    · rw [append_nil]

theorem sendNext (hsteady : Steady s) (c' : ℕ) : Streams codec (s.sendNext c') c terminalId k before buffer := by
  cases hqueue : s.queues c' with
  | nil =>
    simp only [TerminalStreams.sendNext, hqueue]
    exact h
  | cons response queued =>
    obtain ⟨s', hsend, rfl, hflight, htrace⟩ := sendNext_spec hqueue
    rw [hsend]
    refine h.frame rfl rfl rfl (congrArg _ ?_)
    by_cases hc : c = c'
    · subst hc
      exact htrace terminalId ((hsteady.quiet c).unopened response (by rw [hflight]; exact mem_cons_self) terminalId)
    · exact trace_congr rfl (Function.update_of_ne hc ..) (Function.update_of_ne hc ..)

theorem cleanupNext (c' : ℕ) : Streams codec (s.cleanupNext c') c terminalId k before buffer := by
  obtain hsame | ⟨isPersistent, sessions, responses, id, closedTerminals, hpoll⟩ := cleanupNext_cases s c'
  · rw [hsame]
    exact h
  obtain ⟨s', sessions', exitCode, hstep, hpolls, hqueues, hwires, hopened, -, -, hobjects, -⟩ :=
    cleanupNext_spec hpoll
  obtain ⟨child, hobject⟩ := hobjects k
  rw [hstep]
  refine h.frame (congrFun hopened k) (by rw [hobject]) (by rw [hobject]) ?_
  by_cases hc : c = c'
  · subst hc
    have hnone : payloads codec terminalId [.closed { terminalId := id, exitCode }] = [] := rfl
    rw [trace, inFlight, hpolls, update_self, hqueues, hwires, trace, inFlight, hpoll, Poll.responses,
      Poll.responses, ← append_assoc, ← append_assoc, payloads_append, hnone, append_nil,
      append_assoc]
  · refine congrArg _ (trace_congr ?_ (congrFun hqueues c) (congrFun hwires c))
    rw [hpolls, update_of_ne hc]

theorem handleClose (c' : ℕ) (id : Int)
    (killed : Except String Unit) : Streams codec (s.handleClose c' id killed) c terminalId k before buffer := by
  cases hat : sessionAt s.sessions id with
  | none =>
    simp only [TerminalStreams.handleClose, hat]
    exact h
  | some object =>
    obtain ⟨response, hclose, hresponse⟩ := handleClose_spec killed c' hat
    have hneutral (id : Int) : response.opens id = false ∧ response.isDataFor id = false := by
      obtain ⟨message, rfl⟩ | ⟨-, exitCode, rfl⟩ := hresponse <;> exact ⟨rfl, rfl⟩
    rw [hclose]
    refine answer ?_ (hneutral terminalId).2 fun _ => (hneutral terminalId).1
    exact setObject (s := { s with sessions := withoutSession s.sessions id }) h rfl rfl

theorem handleOpen (hsteady : Steady s) (hleaves : Leaves c terminalId k s (.openTerminal c' request spawned)) :
    Streams codec (s.handleOpen c' request spawned) c terminalId k before buffer := by
  obtain ⟨hother, hne⟩ := hleaves
  have hopens (message : TerminalOpened) (hmessage : message.terminalId = request.terminalId) (hc : c' = c) :
      (TerminalResponse.opened message).opens terminalId = false := by
    rw [TerminalResponse.opens, hmessage, decide_eq_false_iff_not]
    exact fun hid => hother (by rw [hc, hid])
  have hmarked {object : ℕ} (hobject : k ≠ object) (s' : TerminalStreams) (hs' : s'.opened = s.opened) :
      (s'.markOpened c' request.terminalId object).opened k = s.opened k := by
    rw [h.1, opened_markOpened]
    exact .inr ⟨hobject, by rw [hs', h.1], Ne.symm hother⟩
  cases htarget : s.target request.terminalId with
  | some object =>
    obtain ⟨message, hmessage, hopen⟩ := handleOpen_of_target spawned c' htarget
    have hk : k ≠ object := fun heq => hne (by rw [htarget, heq])
    rw [hopen]
    refine answer ?_ rfl (hopens message hmessage)
    exact h.frame (hmarked hk _ rfl) (congrArg _ (update_of_ne hk ..)) (congrArg _ (update_of_ne hk ..))
      rfl
  | none =>
    cases spawned with
    | error err =>
      rw [handleOpen_of_error err c' htarget]
      exact h.answer rfl fun _ => rfl
    | ok pid =>
      obtain ⟨message, hmessage, hopen⟩ := handleOpen_of_spawned pid c' htarget
      have hk : k ≠ s.nextObject := Nat.ne_of_lt (hsteady.mapped.created k _ h.1)
      rw [hopen]
      refine answer ?_ rfl (hopens message hmessage)
      exact h.frame (hmarked hk _ rfl) (congrArg _ (update_of_ne hk ..)) (congrArg _ (update_of_ne hk ..)) rfl

/-- Every orderly step that leaves the session and the terminal alone continues the stream. -/
theorem step
    (hcodec : ∀ bytes, codec.decompress (codec.compress bytes) = bytes) (hsteady : Steady s) (e : TerminalEvent)
    (hok : s.Orderly e) (hleaves : Leaves c terminalId k s e) :
    Streams codec (s.step codec e) c terminalId k before buffer := by
  cases e with
  | output object data =>
    refine h.setObject ?_ ?_
    all_goals unfold TerminalSession.trySendOutput; split <;> rfl
  | readerEnds object => exact h.setObject rfl rfl
  | exit object code =>
    simp only [TerminalStreams.step]
    split
    · exact h.setObject rfl rfl
    · exact h
  | reset isPersistent => exact hleaves.elim
  | openTerminal connection request spawned => exact h.handleOpen hsteady hleaves
  | closeTerminal connection id killed => exact h.handleClose connection id killed
  | poll connection =>
    simp only [TerminalStreams.step]
    split
    next hpoll => exact h.setPoll (by rw [hpoll]; rfl)
    · exact h
  | list connection sessions =>
    simp only [TerminalStreams.step]
    split
    next hpoll =>
      split
      · exact h.setPoll (by rw [hpoll]; rfl)
      · exact h
    · exact h
  | read connection late resizeOk => exact h.readNext hcodec hsteady hok
  | skip connection =>
    simp only [TerminalStreams.step]
    split
    next hpoll => exact h.setPoll (by rw [hpoll]; rfl)
    · exact h
  | endReading connection =>
    simp only [TerminalStreams.step]
    split
    next hpoll => exact h.queue (by rw [hpoll]; rfl)
    next hpoll => exact h.setPoll (by rw [hpoll]; rfl)
    · exact h
  | cleanup connection => exact h.cleanupNext connection
  | endCleanup connection =>
    simp only [TerminalStreams.step]
    split
    next hpoll => exact h.queue (by rw [hpoll]; rfl)
    · exact h
  | send connection => exact h.sendNext hsteady connection

end Streams

end StreamsSteps

theorem target_of_sessionAt {id : Int} (h : sessionAt s.sessions id = some object) : s.target id = some object := by
  rw [target, remapped, h]
  exact h

theorem streams_opens {message : TerminalOpened} (hmessage : message.terminalId = terminalId)
    (hclear : ∀ response ∈ s.inFlight c, response.isDataFor terminalId = false)
    (hflight : s'.inFlight c = s.inFlight c) (hwire : s'.wires c = s.wires c ++ [.opened message])
    (hopened : s'.opened k = some (c, terminalId)) (hsession : s'.objects k = session)
    {pendingBuffer : Option Bytes} {sigwinch : SigwinchPhase} (hstate : session.state = .active pendingBuffer sigwinch)
    (hpending : replayed pendingBuffer = replayed (some (session.outputBuffer.getRecent defaultReconnectBufferBytes))) :
    Streams codec s' c terminalId k (s'.objects k).taken
      ((s'.objects k).outputBuffer.getRecent defaultReconnectBufferBytes) := by
  refine ⟨hopened, pendingBuffer, sigwinch, [], by rw [hsession, hstate], (append_nil _).symm, ?_⟩
  rw [trace, hwire, sinceOpened_concat_of_opens (by simpa [TerminalResponse.opens] using hmessage), hflight,
    nil_append, payloads_eq_nil hclear, hsession, hpending, nil_append, append_nil]

/-- A client that opens a terminal is about to get what was kept of it. -/
theorem streams_handleOpen (hok : s.Orderly (.openTerminal c request spawned))
    (hat : sessionAt (s.handleOpen c request spawned).sessions request.terminalId = some k) :
    Streams codec (s.handleOpen c request spawned) c request.terminalId k
      ((s.handleOpen c request spawned).objects k).taken
      (((s.handleOpen c request spawned).objects k).outputBuffer.getRecent defaultReconnectBufferBytes) := by
  cases htarget : s.target request.terminalId with
  | some object =>
    obtain ⟨hclear, -⟩ := hok (.inl (by rw [htarget]; rfl))
    obtain ⟨message, hmessage, hopen⟩ := handleOpen_of_target spawned c htarget
    rw [hopen] at hat ⊢
    obtain rfl : object = k := Option.some.inj (htarget.symm.trans hat)
    refine streams_opens hmessage (fun response hmem => (hclear response hmem).2) rfl (update_self ..)
      (opened_markOpened.mpr (.inl ⟨rfl, rfl⟩)) (update_self ..) rfl ?_
    split
    next hempty =>
      rw [reconnect, hempty]
      rfl
    · rfl
  | none =>
    cases spawned with
    | error err =>
      rw [handleOpen_of_error err c htarget] at hat
      rw [target_of_sessionAt (s := s) hat] at htarget
      cases htarget
    | ok pid =>
      obtain ⟨hclear, -⟩ := hok (.inr rfl)
      obtain ⟨message, hmessage, hopen⟩ := handleOpen_of_spawned pid c htarget
      rw [hopen] at hat ⊢
      obtain rfl : s.nextObject = k := by simpa [sessionAt, answer, markOpened, setObject] using hat
      refine streams_opens hmessage (fun response hmem => (hclear response hmem).2) rfl (update_self ..)
        (opened_markOpened.mpr (.inl ⟨rfl, rfl⟩)) (update_self ..) rfl ?_
      rw [create, OutputBuffer.getRecent_empty]
      rfl

end Streams

section Runs

variable {codec : Codec} {s s₁ : TerminalStreams} {c : ℕ} {terminalId : Int} {k : ℕ}

/-- Sessions that have kept what they were read, each chunk once. -/
def KeepOnce (s : TerminalStreams) : Prop := ∀ k, (s.objects k).KeptOnce

section

variable (h : KeepOnce s)
include h

namespace KeepOnce

theorem setObject (hsession : session.KeptOnce) : KeepOnce (s.setObject object session) := by
  intro k
  by_cases hk : k = object
  · subst hk
    rwa [show (s.setObject k session).objects k = session from update_self ..]
  · rw [show (s.setObject object session).objects k = s.objects k from update_of_ne hk ..]
    exact h k

theorem readNext : KeepOnce (s.readNext codec c late resizeOk) := by
  unfold TerminalStreams.readNext
  split
  next terminalId object _ _ _ _ => exact h.setObject ((h object).readOutputs codec terminalId late resizeOk)
  · exact h

theorem cleanupNext : KeepOnce (s.cleanupNext c) := by
  unfold TerminalStreams.cleanupNext
  split
  · dsimp only
    split
    · exact h
    next object _ =>
      split
      · exact h.setObject (h object)
      · exact h.setObject (h object)
  · exact h

theorem handleOpen : KeepOnce (s.handleOpen c request spawned) := by
  unfold TerminalStreams.handleOpen
  dsimp only
  split
  next object _ => exact h.setObject (h object).reconnect
  · cases spawned with
    | error err => exact h
    | ok pid => exact h.setObject ⟨rfl, rfl⟩

theorem step (e : TerminalEvent) : KeepOnce (s.step codec e) := by
  cases e with
  | output object data => exact h.setObject ((h object).trySendOutput data)
  | readerEnds object => exact h.setObject (h object)
  | exit object code =>
    simp only [TerminalStreams.step]
    split
    · exact h.setObject (h object)
    · exact h
  | reset isPersistent =>
    intro k
    simp only [TerminalStreams.step, resetStatus]
    split <;> exact h k
  | openTerminal connection request spawned => exact h.handleOpen
  | closeTerminal connection terminalId killed =>
    simp only [TerminalStreams.step, TerminalStreams.handleClose]
    split
    · exact h
    next object _ => exact h.setObject (h object)
  | poll connection | list connection sessions | skip connection | endReading connection | endCleanup connection =>
    simp only [TerminalStreams.step]
    repeat' split
    all_goals exact h
  | read connection late resizeOk => exact h.readNext
  | cleanup connection => exact h.cleanupNext
  | send connection =>
    simp only [TerminalStreams.step, TerminalStreams.sendNext]
    split <;> exact h

end KeepOnce

end

theorem Streams.continues (h : Streams codec s c terminalId k (s₁.objects k).taken
      ((s₁.objects k).outputBuffer.getRecent defaultReconnectBufferBytes)) : Continues codec s₁ s c terminalId k := by
  obtain ⟨-, pendingBuffer, sigwinch, received, hstate, htaken, heq⟩ := h
  refine ⟨pendingBuffer, sigwinch, received, hstate, htaken, ?_⟩
  rw [← heq, trace, payloads_append]

/-- In every orderly run, a client gets from the answer that opens a terminal up to the next reset or opening of it the
end of what had been kept and then every chunk that is taken out of the channel; every session keeps what it takes out
once; and no data for a terminal follow the response that says that it has closed. -/
theorem terminal_streams_continuous (codec : Codec) (hcodec : ∀ bytes, codec.decompress (codec.compress bytes) = bytes)
    (es : List TerminalEvent) (hrun : RunMeets (TerminalStreams.step codec) Orderly {} es) :
    (∀ es₁ c request spawned es₂ k, es = es₁ ++ .openTerminal c request spawned :: es₂ →
      let s₁ := runEvents (TerminalStreams.step codec) {} (es₁ ++ [.openTerminal c request spawned])
      sessionAt s₁.sessions request.terminalId = some k →
      RunMeets (TerminalStreams.step codec) (Leaves c request.terminalId k) s₁ es₂ →
      Continues codec s₁ (runEvents (TerminalStreams.step codec) {} es) c request.terminalId k) ∧
    (∀ k, ((runEvents (TerminalStreams.step codec) {} es).objects k).KeptOnce) ∧
    ∀ c terminalId, SilentAfterClosed terminalId
      (sinceOpened terminalId ((runEvents (TerminalStreams.step codec) {} es).wires c)) := by
  have hsteady {es : List TerminalEvent} (hrun : RunMeets (TerminalStreams.step codec) Orderly {} es) :
      Steady (runEvents (TerminalStreams.step codec) {} es) :=
    runEvents_invariant (fun s e h hok => h.step e hok) steady_start hrun
  refine ⟨?_, ?_, ?_⟩
  · rintro es₁ c request spawned es₂ k rfl s₁ hat hleaves
    obtain ⟨hbefore, hok, hafter⟩ := runMeets_append.mp hrun
    have hs₁ : s₁ = (runEvents (TerminalStreams.step codec) {} es₁).handleOpen c request spawned :=
      runEvents_append ..
    have hstart : Streams codec s₁ c request.terminalId k (s₁.objects k).taken
        ((s₁.objects k).outputBuffer.getRecent defaultReconnectBufferBytes) := by
      rw [hs₁] at hat ⊢
      exact streams_handleOpen hok hat
    have hend : Steady (runEvents (TerminalStreams.step codec) s₁ es₂) ∧
        Streams codec (runEvents (TerminalStreams.step codec) s₁ es₂) c request.terminalId k (s₁.objects k).taken
          ((s₁.objects k).outputBuffer.getRecent defaultReconnectBufferBytes) := by
      have hstep (s : TerminalStreams) (e : TerminalEvent) (h : Steady s ∧ Streams codec s c request.terminalId k
          (s₁.objects k).taken ((s₁.objects k).outputBuffer.getRecent defaultReconnectBufferBytes))
          (hok : s.Orderly e ∧ Leaves c request.terminalId k s e) :
          Steady (s.step codec e) ∧ Streams codec (s.step codec e) c request.terminalId k (s₁.objects k).taken
            ((s₁.objects k).outputBuffer.getRecent defaultReconnectBufferBytes) :=
        ⟨h.1.step e hok.1, h.2.step hcodec h.1 e hok.1 hok.2⟩
      have hsteady₁ : Steady s₁ := by
        rw [hs₁]
        exact (hsteady hbefore).handleOpen hok
      have hafter₁ : RunMeets (TerminalStreams.step codec) Orderly s₁ es₂ := by
        rw [hs₁]
        exact hafter
      exact runEvents_invariant hstep ⟨hsteady₁, hstart⟩ (runMeets_and hafter₁ hleaves)
    rw [runEvents_append]
    have hstep : runEvents (TerminalStreams.step codec) (runEvents (TerminalStreams.step codec) {} es₁)
        (.openTerminal c request spawned :: es₂) = runEvents (TerminalStreams.step codec) s₁ es₂ := by
      rw [hs₁]
      rfl
    rw [hstep]
    exact hend.2.continues
  · have hkept : KeepOnce (runEvents (TerminalStreams.step codec) {} es) :=
      runEvents_invariant_of_step (I := KeepOnce) (fun _ e h => h.step e) (fun _ => ⟨rfl, rfl⟩) es
    exact hkept
  · intro c terminalId
    exact ((hsteady hrun).quiet c).silent terminalId |>.sublist (List.sublist_append_left ..)

/-- A terminal is opened and a chunk of its session is read. -/
def openedOnce : List TerminalEvent :=
  [.reset true, .openTerminal 0 ⟨1, 24, 80⟩ (.ok 7), .output 0 [120], .poll 0, .list 0 [(1, 0)], .read 0 [] true,
    .endReading 0]

/-- The client gets the chunk. Another connection attaches to the service, and its client opens the terminal again. -/
def openedAgain : List TerminalEvent := openedOnce ++ [.send 0, .reset true]

/-- A chunk is read for the second client. -/
def readAgain : List TerminalEvent :=
  [.output 0 [121], .poll 1, .list 1 [(1, 0)], .read 1 [] true, .endReading 1]

theorem terminal_streams_continuous_again : Continues ⟨id, id⟩
      (runEvents (TerminalStreams.step ⟨id, id⟩) {} (openedAgain ++ [.openTerminal 1 ⟨1, 24, 80⟩ (.ok 8)]))
      (runEvents (TerminalStreams.step ⟨id, id⟩) {} (openedAgain ++ .openTerminal 1 ⟨1, 24, 80⟩ (.ok 8) :: readAgain))
      1 1 0 := by
  have hread {s : TerminalStreams} {c object : ℕ} {terminalId : Int}
      (hnext : (s.polls c).todo.head? = some (terminalId, object))
      (hopened : s.opened object = some (c, terminalId)) (hlive : (s.objects object).shouldSendClosed = false) :
      s.Orderly (.read c [] true) := by
    intro terminalId' object' hhead
    obtain ⟨rfl, rfl⟩ := Prod.mk.inj (Option.some.inj (hnext.symm.trans hhead))
    exact ⟨fun _ => hopened, fun hclosed => absurd hclosed (by simp [hlive])⟩
  have hrun : RunMeets (TerminalStreams.step ⟨id, id⟩) Orderly {}
      (openedAgain ++ .openTerminal 1 ⟨1, 24, 80⟩ (.ok 8) :: readAgain) :=
    ⟨trivial, fun _ => ⟨nofun, nofun⟩, trivial, trivial, trivial, hread rfl rfl rfl, trivial, trivial, trivial,
      fun _ => ⟨nofun, fun c => by cases c <;> exact nofun⟩, trivial, trivial, trivial, hread rfl rfl rfl, trivial,
      trivial⟩
  exact (terminal_streams_continuous ⟨id, id⟩ (fun _ => rfl) _ hrun).1 openedAgain 1 ⟨1, 24, 80⟩ (.ok 8) readAgain 0
    rfl rfl ⟨trivial, trivial, trivial, trivial, trivial, trivial⟩

/-- A client that opens its terminal again gets first what was on its way to it, and then the same again. -/
theorem reopened_terminal_repeats : ¬ ∀ es₁ es₂ c request spawned k,
      let s₁ := runEvents (TerminalStreams.step ⟨id, id⟩) {} (es₁ ++ [.openTerminal c request spawned])
      sessionAt s₁.sessions request.terminalId = some k →
      RunMeets (TerminalStreams.step ⟨id, id⟩) (Leaves c request.terminalId k) s₁ es₂ →
      Continues ⟨id, id⟩ s₁ (runEvents (TerminalStreams.step ⟨id, id⟩) s₁ es₂) c request.terminalId k := by
  intro h
  obtain ⟨pendingBuffer, sigwinch, received, hstate, htaken, heq⟩ :=
    h openedOnce [.send 0] 0 ⟨1, 24, 80⟩ (.ok 7) 0 rfl ⟨trivial, trivial⟩
  obtain ⟨rfl, -⟩ : pendingBuffer = some [120] ∧ sigwinch = .tempResize 3 := by
    injection hstate.symm with hpending hsigwinch
    exact ⟨hpending, hsigwinch⟩
  have hreceived : received = [] := by
    have hlength := congrArg List.length htaken
    rw [List.length_append] at hlength
    exact List.length_eq_zero_iff.mp (Nat.add_left_cancel (hlength.symm.trans (Nat.add_zero _).symm))
  rw [hreceived] at heq
  exact absurd heq (by decide)

end Runs

end TerminalStreams

end UnyDesk
