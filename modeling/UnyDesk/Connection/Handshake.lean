import UnyDesk.Lib.Base64
import UnyDesk.Lib.Delimited
import UnyDesk.Lib.Process
import UnyDesk.Net.Encrypt

/-!
# The handshake of two peers

Before the connection starts, the controlled side sends a box key signed with its own key, and the
controlling side answers with a fresh symmetric key sealed to it. What the rendezvous server says about
the signing key decides whether the answer can be trusted; on every other path the answer tells the
controlled side to go on without encryption.
-/

namespace UnyDesk

open Lib Process Option List

variable {pk key : Key32} {id : String}

structure IdPk where
  id : String
  pk : Bytes

/-- The kinds of message that the handshake knows. -/
inductive HandshakeUnion
  | signedId (id : Bytes)
  | publicKey (asymmetricValue symmetricValue : Bytes)
  | other

/-- A `Message`, empty when no kind is set. -/
structure HandshakeMessage where
  union : Option HandshakeUnion := none

/-- libsodium and the protobuf runtime. Messages of the kinds that the handshake writes are read back. -/
structure HandshakeRuntime where
  signatures : SignatureScheme
  box : BoxScheme
  writeIdPk : IdPk → Bytes
  parseIdPk : Bytes → Option IdPk
  writeMessage : HandshakeMessage → Bytes
  parseMessage : Bytes → Option HandshakeMessage
  parseIdPk_writeIdPk : ∀ idPk, parseIdPk (writeIdPk idPk) = some idPk
  parseMessage_writeMessage : ∀ m : HandshakeMessage, m.union ≠ some .other → parseMessage (writeMessage m) = some m

structure HandshakeStream where
  encrypt : Option Encrypt := none

def HandshakeStream.setKey (key : Key32) (_ : HandshakeStream) : HandshakeStream := ⟨some (Encrypt.new key)⟩

/-- The random choices of one call: a box key pair and a symmetric key. -/
structure HandshakeDraws where
  boxSk : Key32
  key : Key32

def rsPubKey : String := "OeVuKk5nlHiXp+APNn0Y3pC1Iwpwn44JGqrQCsWqmBw="

def getPk (pk : Bytes) : Option Key32 := if h : pk.length = keyBytes then some ⟨pk, h⟩ else none

def getRsPk (strBase64 : String) : Option Key32 := (Base64.decode strBase64.toList).bind getPk

section Functions

variable (rt : HandshakeRuntime)

def decodeIdPk (signed : Bytes) (key : Key32) : Option (String × Key32) := do
  let bytes ← rt.signatures.verify signed key
  let res ← rt.parseIdPk bytes
  let pk ← getPk res.pk
  some (res.id, pk)

/-- The asymmetric and the symmetric value of the message, and the key. -/
def createSymmetricKeyMsg (theirPkB : Key32) (draws : HandshakeDraws) : Bytes × Bytes × Key32 :=
  let sealedKey := rt.box.sealBox draws.key.1 Nonce.zero theirPkB draws.boxSk
  ((rt.box.publicKey draws.boxSk).1, sealedKey, draws.key)

def Encrypt.decode (symmetricData theirPkB : Bytes) (ourSkB : Key32) : Option Key32 :=
  if h : theirPkB.length ≠ keyBytes then none
  else
    match rt.box.openBox symmetricData Nonce.zero ⟨theirPkB, not_not.mp h⟩ ourSkB with
    | none => none
    | some symmetricKey => getPk symmetricKey

/-- The signing key of the peer, when the rendezvous server vouches for it. -/
def peerSignPk (peerId : String) (signedIdPk : Bytes) (key : String) : Option Key32 :=
  let rsPk := getRsPk (if key = "" then rsPubKey else key)
  if signedIdPk = [] then none
  else
    match rsPk with
    | none => none
    | some rsPk =>
      match decodeIdPk rt signedIdPk rsPk with
      | some (id, pk) => if id = peerId then some pk else none
      | none => none

/-- The controlling side; the result is the signing key that it trusts. -/
def secureConnection (peerId : String) (signedIdPk : Bytes) (key : String) (draws : HandshakeDraws) :
    Process Bytes HandshakeStream (Option Bytes) :=
  let signPk := peerSignPk rt peerId signedIdPk key
  let optionPk := signPk.map (·.1)
  match signPk with
  | none =>
    -- the other end may be waiting for a first message
    .send (rt.writeMessage {}) (.pure optionPk)
  | some signPk =>
    .recv fun bytes =>
      match rt.parseMessage bytes with
      | some msgIn =>
        match msgIn.union with
        | some (.signedId si) =>
          match decodeIdPk rt si signPk with
          | some (id, theirPkB) =>
            if id = peerId then
              let (asymmetricValue, symmetricValue, key) := createSymmetricKeyMsg rt theirPkB draws
              .send (rt.writeMessage ⟨some (.publicKey asymmetricValue symmetricValue)⟩)
                (.modify (·.setKey key) (.pure optionPk))
            else .send (rt.writeMessage {}) (.pure optionPk)
          | none => .send (rt.writeMessage ⟨some (.publicKey [] [])⟩) (.pure optionPk)
        | _ => .send (rt.writeMessage {}) (.pure optionPk)
      | none => .send (rt.writeMessage {}) (.pure optionPk)

/-- What the configuration of the controlled side holds for the handshake. -/
structure HostIdentity where
  id : String
  sk : Bytes
  pk : Bytes

structure HostHandshake where
  stream : HandshakeStream := {}
  /-- `Config::set_key_confirmed`. -/
  keyConfirmed : Bool := true

/-- The controlled side, up to `Connection::start`. -/
def createTcpConnection (host : HostIdentity) (secure : Bool) (draws : HandshakeDraws) :
    Process Bytes HostHandshake Unit :=
  if secure ∧ host.pk.length = keyBytes ∧ host.sk.length = 64 then
    let ourSkB := draws.boxSk
    let ourPkB := rt.box.publicKey ourSkB
    let idPk := rt.writeIdPk { id := host.id, pk := ourPkB.1 }
    .send (rt.writeMessage ⟨some (.signedId (rt.signatures.sign idPk host.sk))⟩) (.recv fun bytes =>
        match rt.parseMessage bytes with
        | some msgIn =>
          match msgIn.union with
          | some (.publicKey asymmetricValue symmetricValue) =>
            if asymmetricValue.length = keyBytes then
              match Encrypt.decode rt symmetricValue asymmetricValue ourSkB with
              | some key => .modify (fun h => { h with stream := h.stream.setKey key }) (.pure ())
              | none => .fail
            else if asymmetricValue = [] then .modify (fun h => { h with keyConfirmed := false }) (.pure ())
            else .fail
          | _ => .pure ()
        | none => .fail)
  else .pure ()

end Functions

section Trust

variable {rt : HandshakeRuntime} {peerId : String} {signed : Bytes}

/-- The text is a peer's id with a key of it, signed with a secret key of `pk`. -/
def Vouches (rt : HandshakeRuntime) (pk : Key32) (signed : Bytes) (id : String) (key : Key32) : Prop :=
  ∃ sk message, rt.signatures.publicKey sk = pk ∧ signed = rt.signatures.sign message sk ∧
    rt.parseIdPk message = some ⟨id, key.1⟩

theorem getPk_eq_some {pk : Bytes} {key : Key32} : getPk pk = some key ↔ pk = key.1 := by
  unfold getPk
  constructor
  · intro h
    split at h
    · exact congrArg Subtype.val (some.inj h)
    · exact nomatch h
  · rintro rfl
    rw [dif_pos key.2]

theorem decodeIdPk_eq_some : decodeIdPk rt signed pk = some (id, key) ↔
      ∃ message, rt.signatures.verify signed pk = some message ∧ rt.parseIdPk message = some ⟨id, key.1⟩ := by
  unfold decodeIdPk
  constructor
  · intro h
    obtain ⟨message, hverify, h⟩ := bind_eq_some_iff.mp h
    obtain ⟨⟨id', bytes⟩, hparse, h⟩ := bind_eq_some_iff.mp h
    obtain ⟨key', hkey, h⟩ := bind_eq_some_iff.mp h
    obtain ⟨rfl, rfl⟩ := Prod.mk.inj (some.inj h)
    exact ⟨message, hverify, by rw [hparse, ← getPk_eq_some.mp hkey]⟩
  · rintro ⟨message, hverify, hparse⟩
    simp [hverify, hparse, getPk_eq_some.mpr rfl]

theorem vouches_of_decodeIdPk (h : decodeIdPk rt signed pk = some (id, key)) : Vouches rt pk signed id key := by
  obtain ⟨message, hverify, hparse⟩ := decodeIdPk_eq_some.mp h
  obtain ⟨sk, hpk, hsigned⟩ := SignatureScheme.signed_of_verify hverify
  exact ⟨sk, message, hpk, hsigned, hparse⟩

/-- The signing key of the peer comes with the word of the rendezvous server. -/
theorem vouches_of_peerSignPk {signedIdPk : Bytes} {key : String} {signPk : Key32}
    (h : peerSignPk rt peerId signedIdPk key = some signPk) :
    ∃ rsPk, getRsPk (if key = "" then rsPubKey else key) = some rsPk ∧ Vouches rt rsPk signedIdPk peerId signPk := by
  unfold peerSignPk at h
  by_cases hempty : signedIdPk = []
  · simp [hempty] at h
  · cases hrs : getRsPk (if key = "" then rsPubKey else key) with
    | none => simp [hempty, hrs] at h
    | some rsPk =>
      cases hdecode : decodeIdPk rt signedIdPk rsPk with
      | none => simp [hempty, hrs, hdecode] at h
      | some found =>
        obtain ⟨id, pk⟩ := found
        obtain ⟨rfl, rfl⟩ : id = peerId ∧ pk = signPk := by simpa [hempty, hrs, hdecode] using h
        exact ⟨rsPk, rfl, vouches_of_decodeIdPk hdecode⟩

/-- The message that carries the key of the call, sealed to a box key of the peer. -/
def sealedKeyMsg (rt : HandshakeRuntime) (theirPkB : Key32) (draws : HandshakeDraws) : Bytes :=
  rt.writeMessage ⟨some (.publicKey (rt.box.publicKey draws.boxSk).1
    (rt.box.sealBox draws.key.1 Nonce.zero theirPkB draws.boxSk))⟩

/-- The ways in which a call of the controlling side can go on a list of frames. -/
inductive SecureConnectionRun (rt : HandshakeRuntime) (peerId : String) (signPk : Option Key32)
    (draws : HandshakeDraws) : List Bytes → Execution Bytes HandshakeStream (Option Bytes) → Prop
  | untrusted (inbox : List Bytes) (hnone : signPk = none) :
      SecureConnectionRun rt peerId signPk draws inbox ⟨.pure none, {}, [rt.writeMessage {}], inbox⟩
  | waiting (next : Bytes → Process Bytes HandshakeStream (Option Bytes)) :
      SecureConnectionRun rt peerId signPk draws [] ⟨.recv next, {}, [], []⟩
  | withKey (pk : Key32) (frame si : Bytes) (theirPkB : Key32) (later : List Bytes) (hpk : signPk = some pk)
      (hframe : rt.parseMessage frame = some ⟨some (.signedId si)⟩)
      (hsigned : decodeIdPk rt si pk = some (peerId, theirPkB)) :
      SecureConnectionRun rt peerId signPk draws (frame :: later)
        ⟨.pure (some pk.1), ⟨some (Encrypt.new draws.key)⟩, [sealedKeyMsg rt theirPkB draws], later⟩
  | withoutKey (pk : Key32) (frame answer : Bytes) (later : List Bytes)
      (hanswer : answer = rt.writeMessage ⟨some (.publicKey [] [])⟩ ∨ answer = rt.writeMessage {}) :
      SecureConnectionRun rt peerId signPk draws (frame :: later) ⟨.pure (some pk.1), {}, [answer], later⟩

theorem secureConnection_run (rt : HandshakeRuntime) (peerId : String) (signedIdPk : Bytes) (key : String)
    (draws : HandshakeDraws) (inbox : List Bytes) :
    SecureConnectionRun rt peerId (peerSignPk rt peerId signedIdPk key) draws inbox
      ((secureConnection rt peerId signedIdPk key draws).exec {} inbox) := by
  unfold secureConnection
  cases hsign : peerSignPk rt peerId signedIdPk key with
  | none => exact .untrusted inbox rfl
  | some pk =>
    cases inbox with
    | nil => exact .waiting _
    | cons frame later =>
      simp only [map_some, exec_recv_cons]
      cases hframe : rt.parseMessage frame with
      | none => exact .withoutKey pk frame _ later (.inr rfl)
      | some msgIn =>
        obtain ⟨kind⟩ := msgIn
        cases kind with
        | none => exact .withoutKey pk frame _ later (.inr rfl)
        | some kind =>
          cases kind with
          | publicKey | other => exact .withoutKey pk frame _ later (.inr rfl)
          | signedId si =>
            cases hsigned : decodeIdPk rt si pk with
            | none =>
              simp only [hsigned]
              exact .withoutKey pk frame _ later (.inl rfl)
            | some found =>
              obtain ⟨id, theirPkB⟩ := found
              by_cases hid : id = peerId
              · simp only [hsigned, if_pos hid]
                exact .withKey pk frame si theirPkB later rfl hframe (hid ▸ hsigned)
              · simp only [hsigned, if_neg hid]
                exact .withoutKey pk frame _ later (.inr rfl)

theorem SecureConnectionRun.rest_ne_fail {signPk : Option Key32} {draws : HandshakeDraws}
    {inbox : List Bytes} {out : Execution Bytes HandshakeStream (Option Bytes)}
    (h : SecureConnectionRun rt peerId signPk draws inbox out) : out.rest ≠ .fail := by
  cases h <;> nofun

end Trust

section Agreement

variable {rt : HandshakeRuntime} {host : HostIdentity} {draws hostDraws : HandshakeDraws}

/-- The first message of the controlled side. -/
def signedIdMsg (rt : HandshakeRuntime) (host : HostIdentity) (draws : HandshakeDraws) : Bytes :=
  rt.writeMessage ⟨some (.signedId (rt.signatures.sign
    (rt.writeIdPk { id := host.id, pk := (rt.box.publicKey draws.boxSk).1 }) host.sk))⟩

theorem parseMessage_signedIdMsg (rt : HandshakeRuntime) (host : HostIdentity) (draws : HandshakeDraws) :
    rt.parseMessage (signedIdMsg rt host draws) = some ⟨some (.signedId (rt.signatures.sign
      (rt.writeIdPk { id := host.id, pk := (rt.box.publicKey draws.boxSk).1 }) host.sk))⟩ :=
  rt.parseMessage_writeMessage _ nofun

/-- A key pair of the configuration that can be used. -/
def HostIdentity.ValidKeyPair (host : HostIdentity) : Prop := host.pk.length = keyBytes ∧ host.sk.length = 64

/-- Whoever accepts the signature finds the box key of the controlled side. -/
theorem decodeIdPk_of_signed {idPk : IdPk} {sk : Bytes}
    (h : decodeIdPk rt (rt.signatures.sign (rt.writeIdPk idPk) sk) pk = some (id, key)) :
    idPk = ⟨id, key.1⟩ := by
  obtain ⟨message, hverify, hparse⟩ := decodeIdPk_eq_some.mp h
  rw [SignatureScheme.eq_of_verify_sign hverify, rt.parseIdPk_writeIdPk] at hparse
  exact some.inj hparse

theorem createTcpConnection_sent (hpair : host.ValidKeyPair) (h : HostHandshake) (inbox : List Bytes) :
    ((createTcpConnection rt host true hostDraws).exec h inbox).sent = [signedIdMsg rt host hostDraws] := by
  rw [createTcpConnection, if_pos ⟨rfl, hpair⟩, exec_send]
  refine congrArg (signedIdMsg rt host hostDraws :: ·) ?_
  cases inbox with
  | nil => rfl
  | cons frame later =>
    rw [exec_recv_cons]
    split
    · split
      · split
        · split <;> rfl
        · split <;> rfl
      · rfl
    · rfl

theorem createTcpConnection_waits (hpair : host.ValidKeyPair) (h : HostHandshake) :
    ((createTcpConnection rt host true hostDraws).exec h []).rest ≠ .fail := by
  rw [createTcpConnection, if_pos ⟨rfl, hpair⟩]
  nofun

/-- The controlled side takes the key out of the box. -/
theorem decode_sealed (theirDraws : HandshakeDraws) :
    Encrypt.decode rt (rt.box.sealBox theirDraws.key.1 Nonce.zero (rt.box.publicKey draws.boxSk) theirDraws.boxSk)
      (rt.box.publicKey theirDraws.boxSk).1 draws.boxSk = some theirDraws.key := by
  have hlength := (rt.box.publicKey theirDraws.boxSk).2
  rw [Encrypt.decode, dif_neg (not_not.mpr hlength)]
  simp only [Subtype.coe_eta, rt.box.openBox_sealBox]
  exact getPk_eq_some.mpr rfl

/-- The controlled side ends with the key that the answer carries. -/
theorem createTcpConnection_withKey (hpair : host.ValidKeyPair) (said : List Bytes) :
    (createTcpConnection rt host true hostDraws).exec {}
        (sealedKeyMsg rt (rt.box.publicKey hostDraws.boxSk) draws :: said) =
      ⟨.pure (), { stream := ⟨some (Encrypt.new draws.key)⟩ }, [signedIdMsg rt host hostDraws], said⟩ := by
  have hlength := (rt.box.publicKey draws.boxSk).2
  have hparse := rt.parseMessage_writeMessage ⟨some (.publicKey (rt.box.publicKey draws.boxSk).1
    (rt.box.sealBox draws.key.1 Nonce.zero (rt.box.publicKey hostDraws.boxSk) draws.boxSk))⟩ nofun
  rw [createTcpConnection, if_pos ⟨rfl, hpair⟩, exec_send, exec_recv_cons, sealedKeyMsg, hparse]
  simp only [hlength, if_true, decode_sealed]
  rfl

/-- Every other answer leaves the controlled side without a key. -/
theorem createTcpConnection_withoutKey (hpair : host.ValidKeyPair) {answer : Bytes}
    (hanswer : answer = rt.writeMessage ⟨some (.publicKey [] [])⟩ ∨ answer = rt.writeMessage {}) (said : List Bytes) :
    ∃ confirmed, (createTcpConnection rt host true hostDraws).exec {} (answer :: said) =
      ⟨.pure (), { keyConfirmed := confirmed }, [signedIdMsg rt host hostDraws], said⟩ := by
  rw [createTcpConnection, if_pos ⟨rfl, hpair⟩, exec_send, exec_recv_cons]
  obtain rfl | rfl := hanswer
  · rw [rt.parseMessage_writeMessage ⟨some (.publicKey [] [])⟩ nofun]
    exact ⟨false, rfl⟩
  · rw [rt.parseMessage_writeMessage {} nofun]
    exact ⟨true, rfl⟩

/-- On what the controlled side sends, the controlling side answers once and reads no more; whatever
follows its answer, the controlled side then has the same key or none either. -/
theorem secureConnection_agrees (peerId : String) (signedIdPk : Bytes) (key : String) (hpair : host.ValidKeyPair)
    (later : List Bytes) :
    ∃ pk answer encrypt unread,
      (secureConnection rt peerId signedIdPk key draws).exec {} (signedIdMsg rt host hostDraws :: later) =
        ⟨.pure pk, ⟨encrypt⟩, [answer], unread⟩ ∧
      (unread = signedIdMsg rt host hostDraws :: later ∨ unread = later) ∧
      (encrypt = none ∨ encrypt = some (Encrypt.new draws.key)) ∧
      ∀ said, ∃ confirmed, (createTcpConnection rt host true hostDraws).exec {} (answer :: said) =
        ⟨.pure (), { stream := ⟨encrypt⟩, keyConfirmed := confirmed }, [signedIdMsg rt host hostDraws], said⟩ := by
  have hrun := secureConnection_run rt peerId signedIdPk key draws (signedIdMsg rt host hostDraws :: later)
  generalize (secureConnection rt peerId signedIdPk key draws).exec {} (signedIdMsg rt host hostDraws :: later) = out
    at hrun
  cases hrun with
  | untrusted _ _ => exact ⟨_, _, none, _, rfl, .inl rfl, .inl rfl, createTcpConnection_withoutKey hpair (.inr rfl)⟩
  | withoutKey _ _ _ _ hanswer =>
    exact ⟨_, _, none, _, rfl, .inr rfl, .inl rfl, createTcpConnection_withoutKey hpair hanswer⟩
  | withKey pk _ si theirPkB _ _ hframe hsigned =>
    -- the frame is the signed message of the controlled side, so the box key in it is its own
    rw [parseMessage_signedIdMsg] at hframe
    obtain rfl : _ = si := HandshakeUnion.signedId.inj (some.inj (HandshakeMessage.mk.inj (some.inj hframe)))
    have hkey : rt.box.publicKey hostDraws.boxSk = theirPkB :=
      Subtype.ext (congrArg IdPk.pk (decodeIdPk_of_signed hsigned))
    subst hkey
    exact ⟨_, _, _, _, rfl, .inr rfl, .inr rfl, fun said => ⟨true, createTcpConnection_withKey hpair said⟩⟩

/-- Whatever the network delivers, a key on the stream of the controlling side is the key of the call, sent
only in a box to a key that the peer signed with the key that the rendezvous server signed for it. On a
faithful network neither side fails, and when both have returned they have the same fresh key or none, and
the frames that the controlled side sent afterwards are all still to be read. -/
theorem handshake_authentic_and_agreed (rt : HandshakeRuntime) (peerId : String) (signedIdPk : Bytes) (key : String)
    (draws : HandshakeDraws) :
    (∀ inbox pk encrypt,
      let out := (secureConnection rt peerId signedIdPk key draws).exec {} inbox
      out.rest = .pure pk → out.state.encrypt = some encrypt → encrypt.key = draws.key ∧
        ∃ rsPk signPk frame later si theirPkB,
          getRsPk (if key = "" then rsPubKey else key) = some rsPk ∧ Vouches rt rsPk signedIdPk peerId signPk ∧
          inbox = frame :: later ∧ rt.parseMessage frame = some ⟨some (.signedId si)⟩ ∧
          Vouches rt signPk si peerId theirPkB ∧ out.sent = [sealedKeyMsg rt theirPkB draws]) ∧
    ∀ host hostDraws turns, host.ValidKeyPair →
      let d := (Duplex.start (secureConnection rt peerId signedIdPk key draws) {}
        (createTcpConnection rt host true hostDraws) {}).run turns
      d.left.process ≠ .fail ∧ d.right.process ≠ .fail ∧
      ∀ pk, d.left.process = .pure pk → d.right.process = .pure () →
        (d.left.state.encrypt = d.right.state.stream.encrypt ∧
          ∀ encrypt, d.left.state.encrypt = some encrypt → encrypt = Encrypt.new draws.key) ∧
        (d.left.inbox = signedIdMsg rt host hostDraws :: d.right.said ∨ d.left.inbox = d.right.said) := by
  constructor
  · intro inbox pk encrypt out hreturned hencrypt
    have hrun : SecureConnectionRun rt peerId (peerSignPk rt peerId signedIdPk key) draws inbox out :=
      secureConnection_run rt peerId signedIdPk key draws inbox
    generalize out = out at hrun hreturned hencrypt
    cases hrun with
    | untrusted | waiting | withoutKey => exact nomatch hencrypt
    | withKey signPk frame si theirPkB later hpk hframe hsigned =>
      obtain rfl := Option.some.inj hencrypt
      obtain ⟨rsPk, hrs, hvouches⟩ := vouches_of_peerSignPk hpk
      exact ⟨rfl, rsPk, signPk, frame, later, si, theirPkB, hrs, hvouches, rfl, hframe,
        vouches_of_decodeIdPk hsigned, rfl⟩
  · intro host hostDraws turns hpair d
    obtain ⟨sent, sent', hleft, hright⟩ := Duplex.joined_run (secureConnection rt peerId signedIdPk key draws) {}
      (createTcpConnection rt host true hostDraws) {} turns
    obtain ⟨pk', answer, encrypt, unread, hclient, hunread, hfresh, hserver⟩ :=
      secureConnection_agrees peerId signedIdPk key hpair d.right.said
    refine ⟨fun hfail => ?_, fun hfail => ?_, fun pk hl hr => ?_⟩
    · have hexec := hleft.exec_of_failed hfail
      exact (secureConnection_run rt peerId signedIdPk key draws _).rest_ne_fail (congrArg Execution.rest hexec)
    · have hexec := hright.exec_of_failed hfail
      have hsent' : sent' = [signedIdMsg rt host hostDraws] := by
        rw [← createTcpConnection_sent hpair {} (sent ++ d.left.said), hexec]
      have hprefix := hleft.sent_prefix
      rw [hsent', List.singleton_append, hclient] at hprefix
      obtain rfl | ⟨rest, rfl, hrest⟩ := List.prefix_cons_iff.mp hprefix
      · -- the controlling side has sent nothing, so the controlled side waits
        have hsaid : d.left.said = [] := hleft.quiet.resolve_right fun ⟨a, ha⟩ => by
          have hreturned := hleft.exec_of_returned ha
          rw [hsent', List.singleton_append, hclient] at hreturned
          exact nomatch congrArg Execution.sent hreturned
        rw [hsaid, List.nil_append] at hexec
        exact createTcpConnection_waits hpair {} (congrArg Execution.rest hexec)
      · obtain ⟨confirmed, hpure⟩ := hserver d.left.said
        rw [List.prefix_nil.mp hrest, List.singleton_append, hpure] at hexec
        exact nomatch congrArg Execution.rest hexec
    · have hexec := hright.exec_of_returned hr
      have hsent' : sent' = [signedIdMsg rt host hostDraws] := by
        rw [← createTcpConnection_sent hpair {} (sent ++ d.left.said), hexec]
      have hreturned := hleft.exec_of_returned hl
      rw [hsent', List.singleton_append, hclient] at hreturned
      obtain ⟨confirmed, hpure⟩ := hserver d.left.said
      have hsent : sent = [answer] := (congrArg Execution.sent hreturned).symm
      rw [hsent, List.singleton_append, hpure] at hexec
      have hleftState : d.left.state = ⟨encrypt⟩ := (congrArg Execution.state hreturned).symm
      have hrightState : d.right.state = { stream := ⟨encrypt⟩, keyConfirmed := confirmed } :=
        (congrArg Execution.state hexec).symm
      have hinbox : d.left.inbox = unread := (congrArg Execution.unread hreturned).symm
      refine ⟨⟨by rw [hleftState, hrightState], fun e he => ?_⟩, hinbox ▸ hunread⟩
      rw [hleftState] at he
      obtain hnone | hsome := hfresh
      · exact absurd (hnone.symm.trans he) nofun
      · exact Option.some.inj (he.symm.trans hsome)

end Agreement

section Sample

open Delimited

def writeSampleMessage (m : HandshakeMessage) : Bytes :=
  match m.union with
  | none => []
  | some (.signedId id) => fields [(0x1A, fields (optional 0x0A id))]
  | some (.publicKey asymmetricValue symmetricValue) =>
    fields [(0x22, fields (optional 0x0A asymmetricValue ++ optional 0x12 symmetricValue))]
  | some .other => fields [(0x2A, [])]

def parseSampleMessage (bytes : Bytes) : Option HandshakeMessage := do
  let record ← read bytes
  match record.getLast? with
  | none => some {}
  | some (0x1A, bytes) =>
    let signedId ← read bytes
    some ⟨some (.signedId (content signedId 0x0A))⟩
  | some (0x22, bytes) =>
    let publicKey ← read bytes
    some ⟨some (.publicKey (content publicKey 0x0A) (content publicKey 0x12))⟩
  | some _ => some ⟨some .other⟩

/-- The wire format of the messages, with schemes that hide nothing. -/
def sampleRuntime : HandshakeRuntime where
  signatures := toySignatures
  box := toyBox
  writeIdPk idPk := fields (optional 0x0A (Utf8.encode idPk.id) ++ optional 0x12 idPk.pk)
  parseIdPk bytes := do
    let record ← read bytes
    some ⟨Utf8.decodeLossy (content record 0x0A), content record 0x12⟩
  writeMessage := writeSampleMessage
  parseMessage := parseSampleMessage
  parseIdPk_writeIdPk idPk := by
    have hne : (0x0A : UInt8) ≠ 0x12 := by decide
    simp [content_fst hne, content_snd hne]
  parseMessage_writeMessage m _ := by
    have hne : (0x0A : UInt8) ≠ 0x12 := by decide
    obtain ⟨kind⟩ := m
    cases kind with
    | none => rfl
    | some kind =>
      cases kind with
      | signedId id => simp [writeSampleMessage, parseSampleMessage, content_optional]
      | publicKey asymmetricValue symmetricValue =>
        simp [writeSampleMessage, parseSampleMessage, content_fst hne, content_snd hne]
      | other => simp [writeSampleMessage, parseSampleMessage]

def sampleHostIdentity : HostIdentity := { id := "200", sk := replicate 64 2, pk := replicate 32 2 }

/-- What the rendezvous server with the secret key of 32 ones says about the sample host. -/
def sampleSignedIdPk : Bytes :=
  toySignatures.sign (sampleRuntime.writeIdPk { id := "200", pk := replicate 32 2 }) (replicate 32 1)

def sampleRsKey : String := String.ofList (Base64.encode (replicate 32 1))

def sampleDraws (n : UInt8) : HandshakeDraws where
  boxSk := ⟨replicate 32 n, by simp [keyBytes]⟩
  key := ⟨replicate 32 (n + 1), by simp [keyBytes]⟩

def sampleTurns : List (Turn Bytes ⊕ Turn Bytes) :=
  [.inr .advance, .inl .advance, .inl .advance, .inl .advance, .inr .advance, .inr .advance, .inr (.say [7])]

def sampleHandshake : Duplex Bytes HandshakeStream HostHandshake (Option Bytes) Unit :=
  (Duplex.start (secureConnection sampleRuntime "200" sampleSignedIdPk sampleRsKey (sampleDraws 3)) {}
    (createTcpConnection sampleRuntime sampleHostIdentity true (sampleDraws 5)) {}).run sampleTurns

/-- The controlled side sends its key, reads the answer and goes on talking. -/
theorem handshake_authentic_and_agreed_sample :
    sampleHandshake.left.process.result = some (some (List.replicate 32 2)) ∧
      sampleHandshake.right.process.result = some () ∧
      sampleHandshake.left.state.encrypt = some (Encrypt.new (sampleDraws 3).key) ∧
      sampleHandshake.left.state.encrypt = sampleHandshake.right.state.stream.encrypt ∧
      sampleHandshake.left.inbox = [[7]] ∧
      ∃ rsPk signPk, getRsPk sampleRsKey = some rsPk ∧ Vouches sampleRuntime rsPk sampleSignedIdPk "200" signPk := by
  obtain ⟨hleft, hright, hkey, hinbox⟩ : sampleHandshake.left.process.result = some (some (List.replicate 32 2)) ∧
      sampleHandshake.right.process.result = some () ∧
      sampleHandshake.left.state.encrypt = some (Encrypt.new (sampleDraws 3).key) ∧
      sampleHandshake.left.inbox = [[7]] := by
    decide
  obtain ⟨hreturned, hstream⟩ : ((secureConnection sampleRuntime "200" sampleSignedIdPk sampleRsKey (sampleDraws 3)).exec {}
      [signedIdMsg sampleRuntime sampleHostIdentity (sampleDraws 5)]).rest.result = some (some (List.replicate 32 2)) ∧
      ((secureConnection sampleRuntime "200" sampleSignedIdPk sampleRsKey (sampleDraws 3)).exec {}
        [signedIdMsg sampleRuntime sampleHostIdentity (sampleDraws 5)]).state.encrypt =
          some (Encrypt.new (sampleDraws 3).key) := by
    decide
  obtain ⟨hauthentic, hagreed⟩ :=
    handshake_authentic_and_agreed sampleRuntime "200" sampleSignedIdPk sampleRsKey (sampleDraws 3)
  obtain ⟨-, -, hboth⟩ := hagreed sampleHostIdentity (sampleDraws 5) sampleTurns ⟨by decide, by decide⟩
  have hpure := Process.eq_pure_of_result hleft
  have hpure' := Process.eq_pure_of_result hright
  unfold sampleHandshake at hpure hpure'
  have hsame : sampleHandshake.left.state.encrypt = sampleHandshake.right.state.stream.encrypt := by
    unfold sampleHandshake
    exact (hboth _ hpure hpure').1.1
  obtain ⟨-, rsPk, signPk, -, -, -, -, hrs, hvouches, -⟩ :=
    hauthentic _ _ _ (Process.eq_pure_of_result hreturned) hstream
  rw [if_neg (by decide)] at hrs
  exact ⟨hleft, hright, hkey, hsame, hinbox, rsPk, signPk, hrs, hvouches⟩

end Sample

end UnyDesk
