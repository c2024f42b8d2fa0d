import UnyDesk.Lib.SecretBox

/-!
# Signatures and public-key boxes

Ideal schemes over keys of 32 bytes. A signed message is the signature followed by the message; what
verifies under a public key was signed with a secret key of it. A box is sealed from one key pair to
another and opened at the other end.
-/

namespace UnyDesk.Lib

/-- A public key, or the key of a secret box. -/
abbrev Key32 := { bytes : List UInt8 // bytes.length = keyBytes }

/-- The length of a signature. -/
def signatureBytes : ℕ := 64

structure SignatureScheme where
  /-- The public key of a secret key. -/
  publicKey : List UInt8 → Key32
  signDetached : List UInt8 → List UInt8 → List UInt8
  verifyDetached : Key32 → List UInt8 → List UInt8 → Bool
  length_signDetached : ∀ sk message, (signDetached sk message).length = signatureBytes
  verifyDetached_signDetached : ∀ sk message,
    verifyDetached (publicKey sk) (signDetached sk message) message = true
  /-- No signature verifies that the secret key did not make. -/
  unforgeable : ∀ pk signature message, verifyDetached pk signature message = true →
    ∃ sk, publicKey sk = pk ∧ signature = signDetached sk message

namespace SignatureScheme

variable (scheme : SignatureScheme)

def sign (message sk : List UInt8) : List UInt8 := scheme.signDetached sk message ++ message

def verify (signed : List UInt8) (pk : Key32) : Option (List UInt8) :=
  if scheme.verifyDetached pk (signed.take signatureBytes) (signed.drop signatureBytes) then
    some (signed.drop signatureBytes)
  else none

variable {scheme}

@[simp] theorem drop_sign (message sk : List UInt8) : (scheme.sign message sk).drop signatureBytes = message := by
  simp [sign, ← scheme.length_signDetached sk message]

/-- A signed message contains what was signed, whatever key accepts it. -/
theorem eq_of_verify_sign {message message' sk : List UInt8} {pk : Key32}
    (h : scheme.verify (scheme.sign message sk) pk = some message') : message' = message := by
  rw [verify, drop_sign] at h
  split at h
  · exact (Option.some.inj h).symm
  · exact nomatch h

/-- What verifies was signed with the secret key. -/
theorem signed_of_verify {signed message : List UInt8} {pk : Key32} (h : scheme.verify signed pk = some message) :
    ∃ sk, scheme.publicKey sk = pk ∧ signed = scheme.sign message sk := by
  rw [verify] at h
  split at h
  case isTrue haccepts =>
    obtain rfl := Option.some.inj h
    obtain ⟨sk, hpk, hsignature⟩ := scheme.unforgeable _ _ _ haccepts
    refine ⟨sk, hpk, ?_⟩
    rw [sign, ← hsignature, List.take_append_drop]
  case isFalse => exact nomatch h

end SignatureScheme

structure BoxScheme where
  /-- The public key of a secret key. -/
  publicKey : Key32 → Key32
  /-- `sealBox message nonce pk sk`, from the owner of `sk` to the owner of `pk`. -/
  sealBox : List UInt8 → Nonce → Key32 → Key32 → List UInt8
  openBox : List UInt8 → Nonce → Key32 → Key32 → Option (List UInt8)
  openBox_sealBox : ∀ message nonce sk sk',
    openBox (sealBox message nonce (publicKey sk') sk) nonce (publicKey sk) sk' = some message

/-- The bytes cut or filled up to the length of a key. -/
def Key32.ofBytes (bytes : List UInt8) : Key32 :=
  ⟨(bytes ++ List.replicate keyBytes 0).take keyBytes, by simp⟩

theorem Key32.ofBytes_self (key : Key32) : Key32.ofBytes key.1 = key := by
  apply Subtype.ext
  simp [ofBytes, ← key.2]

/-- Signatures that consist of the public key. Anyone can make them, with the same secret key. -/
def toySignatures : SignatureScheme where
  publicKey := Key32.ofBytes
  signDetached sk _ := (Key32.ofBytes sk).1 ++ List.replicate 32 0
  verifyDetached pk signature _ := signature = pk.1 ++ List.replicate 32 0
  length_signDetached sk _ := by simp [(Key32.ofBytes sk).2, signatureBytes, keyBytes]
  verifyDetached_signDetached sk _ := by simp
  unforgeable pk signature _ h := ⟨pk.1, Key32.ofBytes_self pk, by rw [Key32.ofBytes_self]; exact of_decide_eq_true h⟩

/-- Boxes that show their message, with half a key of either end in place of the tag. -/
def toyBox : BoxScheme where
  publicKey sk := sk
  sealBox message _ pk sk := pk.1.take 8 ++ sk.1.take 8 ++ message
  openBox box _ pk sk := if box.take 16 = sk.1.take 8 ++ pk.1.take 8 then some (box.drop 16) else none
  openBox_sealBox message _ sk sk' := by
    have hlength : (sk'.1.take 8 ++ sk.1.take 8).length = 16 := by simp [sk.2, sk'.2, keyBytes]
    rw [List.take_left' hlength, List.drop_left' hlength, if_pos rfl]

end UnyDesk.Lib
