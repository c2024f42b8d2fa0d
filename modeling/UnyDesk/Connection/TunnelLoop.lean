import UnyDesk.Connection.Playback
import UnyDesk.Connection.SessionScope

/-!
# The end of the loop and the tunnel

Every way out of the loop leads to the same code, and whether bytes are forwarded afterwards is
decided by a leftover socket alone. Closing a connection drops the socket, unless the connection
was closed before; since every closing also ends the loop, no close decision ever finds the
connection closed.
-/

namespace UnyDesk

open Lib Host

/-- What the forwarding loop waits for. -/
inductive TunnelEvent
  -- Messages of the connection manager.
  | close
  | cmErr (e : String)
  | cmOther
  /-- Bytes of the target, and whether they could be sent to the peer. -/
  | forward (bytes : Bytes) (sent : Bool)
  | forwardEnd
  /-- Bytes of the peer, and whether they could be sent to the target. -/
  | stream (bytes : Bytes) (sent : Bool)
  | streamEnd
  | timer (idle : Bool)
  | webConsole (listed : Bool)

/-- The bytes copied so far. -/
structure Tunnel where
  toTarget : Bytes := []
  toPeer : Bytes := []
  running : Bool := true

/-- One round of the forwarding loop. -/
def Tunnel.step (t : Tunnel) (e : TunnelEvent) : Tunnel :=
  if t.running then
    match e with
    | .close | .cmErr _ | .forwardEnd | .streamEnd => { t with running := false }
    | .cmOther => t
    | .forward bytes sent =>
      if sent then { t with toPeer := t.toPeer ++ bytes } else { t with running := false }
    | .stream bytes sent =>
      if sent then { t with toTarget := t.toTarget ++ bytes } else { t with running := false }
    | .timer idle => if idle then { t with running := false } else t
    | .webConsole listed => if listed then { t with running := false } else t
  else t

/-- `try_port_forward_loop`, which runs after the loop of the connection has ended. -/
def Host.tryPortForwardLoop (h : Host) (events : List TunnelEvent) : Tunnel :=
  match h.conn.portForwardSocket with
  | some _ => runEvents Tunnel.step {} events
  | none => { running := false }

/-- The event is a decision to close the connection. -/
def closeDecision (env : Env) (h : Host) : Event → Bool
  | .close | .hangUp | .shutDown _ => true
  | .cmErr e => e ≠ "expected"
  | .message (.misc (some (.closeReason _))) => true
  | .message (.loginRequest _) => false
  | .message m =>
    h.conn.authorized && (authorizedScopeViolation env.build h.conn.authedConnId m).isSome
      && getBoolOption h.world.option keys.optionAllowScopeViolationClose
  | _ => false

section Close

variable {env : Env} {h : Host} {e : Event}

theorem KeepsSteady.closed_of_alive {r : Handled} (hkeeps : KeepsSteady h r) (halive : r.2 = true) :
    r.1.conn.closed = h.conn.closed := by
  rcases hkeeps with heq | ⟨hdead, -⟩
  · exact congrArg Prod.snd heq
  · exact Bool.noConfusion (hdead.symm.trans halive)

/-- No event leaves a closed connection running. -/
theorem closed_step (hopen : h.alive = true → h.conn.closed = false) :
    (h.step env e).alive = true → (h.step env e).conn.closed = false := by
  intro halive'
  have halive : h.alive = true := by
    by_contra hdead
    have hstep : h.step env e = h := if_neg hdead
    rw [hstep] at halive'
    exact hdead halive'
  rw [← hopen halive]
  by_cases haudio : ∃ m, e = .message m ∧ m.isAudio = true
  · obtain ⟨m, rfl, hm⟩ := haudio
    rcases step_audio (h := h) hm with ⟨-, hconn, -⟩ | ⟨-, hkeeps, -⟩
    · rw [hconn]
      unfold Message.isAudio at hm
      split at hm
      · change (h.onAudioFrame _).conn.closed = _
        unfold onAudioFrame
        split_ifs <;> rfl
      · change (h.onAudioFormat _).conn.closed = _
        unfold onAudioFormat
        split_ifs <;> rfl
      · cases hm
    · exact hkeeps.closed_of_alive halive'
  · have hkeeps : KeepsSteady h (h.step env e, (h.step env e).alive) := by
      refine step_steady fun m hm => ?_
      rw [Bool.eq_false_iff]
      exact fun hm' => haudio ⟨m, hm, hm'⟩
    exact hkeeps.closed_of_alive halive'

/-- Closing an open connection drops its socket. -/
theorem onClose_socket (hopen : h.conn.closed = false) : (h.onClose env).conn.portForwardSocket = none := by
  unfold onClose
  rw [if_neg (by simp [hopen])]
  rfl

theorem handleAuthorizedScopeViolation_socket (hopen : h.conn.closed = false)
    (hclose : getBoolOption h.world.option keys.optionAllowScopeViolationClose = true) (message : String) :
    (h.handleAuthorizedScopeViolation env message).1.conn.portForwardSocket = none ∧
      (h.handleAuthorizedScopeViolation env message).2 = false := by
  have hnote : (h.noteScopeViolation message).world = h.world ∧ (h.noteScopeViolation message).conn.closed = false := by
    unfold noteScopeViolation
    dsimp only
    split_ifs <;> exact ⟨rfl, hopen⟩
  unfold handleAuthorizedScopeViolation
  dsimp only
  rw [hnote.1, if_pos hclose]
  exact ⟨onClose_socket hnote.2, rfl⟩

/-- A close decision ends the loop without a socket. -/
theorem closeDecision_step (halive : h.alive = true) (hopen : h.conn.closed = false)
    (hclose : closeDecision env h e = true) :
    (h.step env e).alive = false ∧ (h.step env e).conn.portForwardSocket = none := by
  have hstep : h.step env e = h.react env e := if_pos halive
  have hstopped : ∀ {h' : Host} {m : Message}, h.onMessage env m = (h', false) →
      h'.conn.portForwardSocket = none →
      (h.receive env m).alive = false ∧ (h.receive env m).conn.portForwardSocket = none := by
    intro h' m heq hnone
    obtain ⟨hconn, -, hends⟩ := receive_of_onMessage heq
    exact ⟨hends rfl, by rw [hconn]; exact hnone⟩
  rw [hstep]
  unfold closeDecision at hclose
  split at hclose
  · exact ⟨rfl, onClose_socket hopen⟩
  · exact ⟨rfl, onClose_socket hopen⟩
  · exact ⟨rfl, onClose_socket hopen⟩
  · next text =>
    have htext : text ≠ "expected" := by simpa using hclose
    change (h.onCmErr env text).alive = false ∧ (h.onCmErr env text).conn.portForwardSocket = none
    unfold onCmErr
    rw [if_pos htext]
    exact ⟨rfl, onClose_socket hopen⟩
  · exact hstopped rfl (onClose_socket hopen)
  · cases hclose
  · next m hnotClose hnotLogin =>
    simp only [Bool.and_eq_true] at hclose
    obtain ⟨⟨hauth, hscope⟩, hoption⟩ := hclose
    obtain ⟨message, hscope⟩ := Option.isSome_iff_exists.mp hscope
    obtain ⟨hnone, hflag⟩ : (h.handleAuthorizedScopeViolation env message).1.conn.portForwardSocket = none ∧ _ :=
      handleAuthorizedScopeViolation_socket hopen hoption message
    have heq : h.onMessage env m = h.handleAuthorizedScopeViolation env message := by
      unfold onMessage
      split
      · exact absurd rfl (hnotClose _)
      · rw [if_pos hauth]
        unfold guardAuthorized
        split
        · exact absurd rfl (hnotLogin _)
        · rw [hscope]
    exact hstopped (heq.trans (Prod.ext rfl hflag)) hnone
  · cases hclose

end Close

/-- A closed port-forward connection forwards nothing: whenever a close decision ends the loop of
a running connection, no byte is copied to the target or to the peer afterwards. -/
theorem closed_tunnel_copies_nothing (env : Env) (world : World) (hash : HashMsg)
    (require2fa : Option Bytes) (events : List Event) (e : Event) (after : List TunnelEvent) :
    let h := (Host.start env world hash require2fa).run env events
    h.alive = true → closeDecision env h e = true →
      (h.step env e).alive = false ∧ ((h.step env e).tryPortForwardLoop after).toTarget = [] ∧
        ((h.step env e).tryPortForwardLoop after).toPeer = [] := by
  intro h halive hclose
  have hopen : h.alive = true → h.conn.closed = false := by
    refine runEvents_invariant_of_step (I := fun h : Host => h.alive = true → h.conn.closed = false)
      (fun h e hopen => closed_step hopen) (fun _ => ?_) events
    exact congrArg (fun feed => feed.1.closed) (Host.feed_announcePermissions env _)
  obtain ⟨hends, hnone⟩ := closeDecision_step halive (hopen halive) hclose
  refine ⟨hends, ?_, ?_⟩ <;> rw [Host.tryPortForwardLoop, hnone]

/-- The user closes a granted port forward that still waits for the answer to a probe. -/
theorem closed_tunnel_copies_nothing_probe :
    let lr := { sampleRequest with union := some (.portForward { host := "10.0.0.9", port := 22 }) }
    let h := (Host.start sampleEnv switchingWorld sampleHash none).run sampleEnv
      [.testDelayTimer, .message (.switchSidesResponse { uuid := List.replicate 16 7, lr := some lr })]
    h.alive = true ∧ h.conn.portForwardSocket = some "10.0.0.9:22" ∧ (h.step sampleEnv .close).alive = false ∧
      ((h.step sampleEnv .close).tryPortForwardLoop [.stream [1, 2] true]).toTarget = [] ∧
      ((h.step sampleEnv .close).tryPortForwardLoop [.stream [1, 2] true]).toPeer = [] :=
  ⟨by decide, by decide, closed_tunnel_copies_nothing sampleEnv switchingWorld sampleHash none
    _ .close [.stream [1, 2] true] (by decide) (by decide)⟩

end UnyDesk
