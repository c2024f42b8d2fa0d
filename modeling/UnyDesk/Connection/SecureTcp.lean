import UnyDesk.Connection.Handshake

/-!
# Securing a connection to the rendezvous server

The server offers a box key that it has signed, and the client answers with a fresh symmetric key in a box to that
key. Everything that the client reads comes from the network, which may put what it likes in place of the offer.
-/

namespace UnyDesk

open Lib

/-- The kinds of message that the key exchange with the server knows. -/
inductive RendezvousUnion
  | keyExchange (keys : List Bytes)
  | other

/-- A `RendezvousMessage`, empty when no kind is set. -/
structure RendezvousMessage where
  union : Option RendezvousUnion := none

/-- The runtime of the handshake with the messages of the rendezvous server. -/
structure RendezvousRuntime extends HandshakeRuntime where
  writeRendezvous : RendezvousMessage → Bytes
  parseRendezvous : Bytes → Option RendezvousMessage

/-- A connection to the server, with what the network does to it. -/
structure ServerConn where
  /-- What the network delivers before the read times out. -/
  incoming : List (Except String Bytes)
  /-- Whether the network then closes the connection. -/
  closed : Bool
  /-- What becomes of a message that is sent. -/
  sending : Except String Unit
  encrypt : Option Encrypt := none
  sent : List Bytes := []

namespace ServerConn

section

variable (conn : ServerConn)

/-- `timeout(READ_TIMEOUT, conn.next())` on a stream without a key; an error when the time is over. -/
def nextInTime : ServerConn × Except String (Option (Except String Bytes)) :=
  match conn.incoming with
  | next :: incoming => ({ conn with incoming }, .ok (some next))
  | [] => (conn, if conn.closed then .ok none else .error "deadline has elapsed")

/-- `timeout(CONNECT_TIMEOUT, conn.send(&msg_out))` on a stream without a key. -/
def sendInTime (msgOut : Bytes) : ServerConn × Except String Unit :=
  match conn.sending with
  | .ok () => ({ conn with sent := conn.sent ++ [msgOut] }, .ok ())
  | .error e => (conn, .error e)

def setKey (key : Key32) : ServerConn := { conn with encrypt := some (Encrypt.new key) }

end

end ServerConn

section Functions

variable (rt : RendezvousRuntime)

/-- The answer to the offer of the server. -/
def keyExchangeMsg (theirPk : Key32) (draws : HandshakeDraws) : Bytes × Key32 :=
  let (asymmetricValue, symmetricValue, key) := createSymmetricKeyMsg rt.toHandshakeRuntime theirPk draws
  (rt.writeRendezvous ⟨some (.keyExchange [asymmetricValue, symmetricValue])⟩, key)

/-- The branch of a message that offers keys. -/
def answerKeyExchange (rsPk : Key32) (keys : List Bytes) (draws : HandshakeDraws) (conn : ServerConn) :
    ServerConn × Except String Unit :=
  match keys with
  | [signed] =>
    match rt.signatures.verify signed rsPk with
    | none => (conn, .error "Signature mismatch in key exchange")
    | some theirPkB =>
      match getPk theirPkB with
      | none => (conn, .error "Wrong their public length in key exchange")
      | some theirPk =>
        let (msgOut, key) := keyExchangeMsg rt theirPk draws
        match conn.sendInTime msgOut with
        | (conn, .ok ()) => (conn.setKey key, .ok ())
        | (conn, .error e) => (conn, .error e)
  | _ => (conn, .error "Handshake failed: invalid key exchange message")

def secureTcpImpl (useWs : Bool) (key : String) (draws : HandshakeDraws) (conn : ServerConn) :
    ServerConn × Except String Unit :=
  if useWs then (conn, .ok ())
  else
    match getRsPk key with
    | none => (conn, .error "Handshake failed: invalid public key from rendezvous server")
    | some rsPk =>
      match conn.nextInTime with
      | (conn, .error e) => (conn, .error e)
      | (conn, .ok (some (.ok bytes))) =>
        match rt.parseRendezvous bytes with
        | some msgIn =>
          match msgIn.union with
          | some (.keyExchange keys) => answerKeyExchange rt rsPk keys draws conn
          | _ => (conn, .ok ())
        | none => (conn, .ok ())
      | (conn, .ok _) => (conn, .ok ())

def secureTcp (useWs : Bool) (key : String) (draws : HandshakeDraws) (conn : ServerConn) :
    ServerConn × Except String Unit :=
  secureTcpImpl rt useWs key draws conn

end Functions

/-- The connection has the key of the call. It has sent only that key, in a box to the key that the server has signed
in the first message of the network. -/
def SecuredBy (rt : RendezvousRuntime) (key : String) (draws : HandshakeDraws) (incoming : List (Except String Bytes))
    (conn : ServerConn) : Prop :=
  conn.encrypt = some (Encrypt.new draws.key) ∧ ∃ rsPk sk bytes later theirPk,
      getRsPk key = some rsPk ∧ rt.signatures.publicKey sk = rsPk ∧ incoming = .ok bytes :: later ∧
        rt.parseRendezvous bytes = some ⟨some (.keyExchange [rt.signatures.sign theirPk.1 sk])⟩ ∧
        conn.sent = [(keyExchangeMsg rt theirPk draws).1]

/-- The first that the network delivers is a message that offers keys. -/
def OffersKeys (rt : RendezvousRuntime) (incoming : List (Except String Bytes)) : Prop :=
  ∃ bytes later keys, incoming = .ok bytes :: later ∧ rt.parseRendezvous bytes = some ⟨some (.keyExchange keys)⟩

section Downgrade

variable {rt : RendezvousRuntime} {key : String} {draws : HandshakeDraws} {rsPk : Key32} {keys : List Bytes}
  {conn : ServerConn}

/-- An offer is answered with the key of the call or refused. -/
theorem answerKeyExchange_ok (h : (answerKeyExchange rt rsPk keys draws conn).2 = .ok ()) :
    ∃ sk theirPk, rt.signatures.publicKey sk = rsPk ∧ keys = [rt.signatures.sign theirPk.1 sk] ∧
      (answerKeyExchange rt rsPk keys draws conn).1.encrypt = some (Encrypt.new draws.key) ∧
      (answerKeyExchange rt rsPk keys draws conn).1.sent = conn.sent ++ [(keyExchangeMsg rt theirPk draws).1] := by
  match keys with
  | [] => exact nomatch h
  | _ :: _ :: _ => exact nomatch h
  | [signed] =>
    cases hverify : rt.signatures.verify signed rsPk with
    | none =>
      simp only [answerKeyExchange, hverify] at h
      exact nomatch h
    | some theirPkB =>
      cases hpk : getPk theirPkB with
      | none =>
        simp only [answerKeyExchange, hverify, hpk] at h
        exact nomatch h
      | some theirPk =>
        cases hsending : conn.sending with
        | error e =>
          simp only [answerKeyExchange, hverify, hpk, ServerConn.sendInTime, hsending] at h
          exact nomatch h
        | ok =>
          obtain ⟨sk, hsk, rfl⟩ := SignatureScheme.signed_of_verify hverify
          obtain rfl := getPk_eq_some.mp hpk
          refine ⟨sk, theirPk, hsk, rfl, ?_⟩
          simp only [answerKeyExchange, hverify, hpk, ServerConn.sendInTime, hsending]
          exact ⟨rfl, rfl⟩

/-- A call that reads an offer goes on with the answer to it. -/
theorem secureTcp_offer {bytes : Bytes} {later : List (Except String Bytes)}
    (conn : ServerConn) (hrs : getRsPk key = some rsPk) (hincoming : conn.incoming = .ok bytes :: later)
    (hparse : rt.parseRendezvous bytes = some ⟨some (.keyExchange keys)⟩) :
    secureTcp rt false key draws conn = answerKeyExchange rt rsPk keys draws { conn with incoming := later } := by
  simp only [secureTcp, secureTcpImpl, ServerConn.nextInTime, hrs, hincoming, hparse]
  rfl

/-- A call that reads anything else, or the end, returns and leaves the connection in the clear. -/
theorem secureTcp_passes (draws : HandshakeDraws) (hrs : getRsPk key = some rsPk)
    (hready : conn.incoming ≠ [] ∨ conn.closed = true) (hoffer : ¬ OffersKeys rt conn.incoming) :
    (secureTcp rt false key draws conn).2 = .ok () ∧ (secureTcp rt false key draws conn).1.encrypt = conn.encrypt := by
  cases hincoming : conn.incoming with
  | nil =>
    have hclosed : conn.closed = true := hready.resolve_left (not_not.mpr hincoming)
    simp only [secureTcp, secureTcpImpl, ServerConn.nextInTime, hrs, hincoming, hclosed]
    exact ⟨rfl, rfl⟩
  | cons item later =>
    cases item with
    | error e =>
      simp only [secureTcp, secureTcpImpl, ServerConn.nextInTime, hrs, hincoming]
      exact ⟨rfl, rfl⟩
    | ok bytes =>
      cases hparse : rt.parseRendezvous bytes with
      | none =>
        simp only [secureTcp, secureTcpImpl, ServerConn.nextInTime, hrs, hincoming, hparse]
        exact ⟨rfl, rfl⟩
      | some msgIn =>
        obtain ⟨kind⟩ := msgIn
        cases kind with
        | none =>
          simp only [secureTcp, secureTcpImpl, ServerConn.nextInTime, hrs, hincoming, hparse]
          exact ⟨rfl, rfl⟩
        | some kind =>
          cases kind with
          | keyExchange keys => exact absurd ⟨bytes, later, keys, hincoming, hparse⟩ hoffer
          | other =>
            simp only [secureTcp, secureTcpImpl, ServerConn.nextInTime, hrs, hincoming, hparse]
            exact ⟨rfl, rfl⟩

/-- A call that returns `Ok` has secured the connection, exactly when there is no valid key for the server, or nothing
arrives in time, or the first that arrives is an offer of keys. -/
theorem secureTcp_secures_iff (rt : RendezvousRuntime) (key : String) (draws : HandshakeDraws)
    (incoming : List (Except String Bytes)) (closed : Bool) (sending : Except String Unit) :
    let out := secureTcp rt false key draws { incoming, closed, sending }
    (out.2 = .ok () → SecuredBy rt key draws incoming out.1) ↔
      getRsPk key = none ∨ (incoming = [] ∧ closed = false) ∨ OffersKeys rt incoming := by
  let conn : ServerConn := { incoming, closed, sending }
  change ((secureTcp rt false key draws conn).2 = .ok () →
    SecuredBy rt key draws incoming (secureTcp rt false key draws conn).1) ↔ _
  constructor
  · intro h
    by_contra hnone
    obtain ⟨hkey, hsilent, hoffer⟩ : getRsPk key ≠ none ∧ ¬ (incoming = [] ∧ closed = false) ∧
        ¬ OffersKeys rt incoming := by
      simpa only [not_or] using hnone
    obtain ⟨rsPk, hrs⟩ := Option.ne_none_iff_exists'.mp hkey
    have hready : incoming ≠ [] ∨ closed = true := by
      by_cases hnil : incoming = []
      · exact .inr (Bool.eq_true_of_not_eq_false fun hclosed => hsilent ⟨hnil, hclosed⟩)
      · exact .inl hnil
    obtain ⟨hok, hclear⟩ : (secureTcp rt false key draws conn).2 = .ok () ∧
        (secureTcp rt false key draws conn).1.encrypt = conn.encrypt := secureTcp_passes draws hrs hready hoffer
    have hsecured := (h hok).1
    rw [hclear] at hsecured
    exact nomatch hsecured
  · intro h hok
    cases hrs : getRsPk key with
    | none =>
      simp only [secureTcp, secureTcpImpl, hrs] at hok
      exact nomatch hok
    | some rsPk =>
      obtain hnone | ⟨rfl, rfl⟩ | ⟨bytes, later, keys, rfl, hparse⟩ := h
      · rw [hnone] at hrs
        exact nomatch hrs
      · simp only [secureTcp, secureTcpImpl, ServerConn.nextInTime, hrs, conn] at hok
        exact nomatch hok
      · rw [secureTcp_offer conn hrs rfl hparse] at hok ⊢
        obtain ⟨sk, theirPk, hsk, rfl, hencrypt, hsent⟩ := answerKeyExchange_ok hok
        exact ⟨hencrypt, rsPk, sk, bytes, later, theirPk, hrs, hsk, rfl, hparse, hsent⟩

end Downgrade

section Sample

open Delimited

/-- The offer has a tag of two bytes. -/
def writeSampleRendezvous (m : RendezvousMessage) : Bytes :=
  match m.union with
  | none => []
  | some (.keyExchange keys) => 0xCA :: fields [(0x01, fields (keys.map fun key => (0x0A, key)))]
  | some .other => fields [(0x32, [])]

def parseSampleRendezvous : Bytes → Option RendezvousMessage
  | [] => some {}
  | 0xCA :: bytes => do
    let record ← read bytes
    let keys ← read (content record 0x01)
    some ⟨some (.keyExchange (keys.map (·.2)))⟩
  | bytes => (read bytes).map fun _ => ⟨some .other⟩

def sampleRendezvousRuntime : RendezvousRuntime where
  toHandshakeRuntime := sampleRuntime
  writeRendezvous := writeSampleRendezvous
  parseRendezvous := parseSampleRendezvous

/-- A network that delivers an empty message in place of the offer is believed. -/
theorem empty_message_downgrades :
    ¬ ∀ (rt : RendezvousRuntime) (key : String) (draws : HandshakeDraws) (incoming : List (Except String Bytes))
      (closed : Bool) (sending : Except String Unit),
      let out := secureTcp rt false key draws { incoming, closed, sending }
      out.2 = .ok () → SecuredBy rt key draws incoming out.1 := by
  intro hall
  have hrs : getRsPk sampleRsKey = some ⟨List.replicate 32 1, rfl⟩ := by decide
  have hoffer : ¬ OffersKeys sampleRendezvousRuntime [.ok []] := by
    rintro ⟨bytes, later, keys, hincoming, hparse⟩
    obtain rfl := Except.ok.inj (List.cons.inj hincoming).1
    exact nomatch hparse
  let conn : ServerConn := { incoming := [.ok []], closed := false, sending := .ok () }
  obtain ⟨hok, hclear⟩ : (secureTcp sampleRendezvousRuntime false sampleRsKey (sampleDraws 3) conn).2 = .ok () ∧
      (secureTcp sampleRendezvousRuntime false sampleRsKey (sampleDraws 3) conn).1.encrypt = conn.encrypt :=
    secureTcp_passes (sampleDraws 3) hrs (.inl nofun) hoffer
  have hsecured := (hall sampleRendezvousRuntime sampleRsKey (sampleDraws 3) [.ok []] false (.ok ()) hok).1
  rw [hclear] at hsecured
  exact nomatch hsecured

end Sample

end UnyDesk
