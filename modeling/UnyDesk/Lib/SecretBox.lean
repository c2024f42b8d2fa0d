import Mathlib.Data.List.Basic

/-!
# Authenticated secret-key boxes

A box seals a message under a key and a nonce and opens what was sealed. Ideal boxes cannot
be described by a law over all keys, since short ciphertexts collide by counting; that a key
rejects a given ciphertext is therefore a property of the pair, assumed where it is needed.
-/

namespace UnyDesk.Lib

open List

/-- The length of the authentication tag in front of a sealed message. -/
def macBytes : ℕ := 16

/-- The length of a nonce. -/
def nonceBytes : ℕ := 24

/-- The length of a key. -/
def keyBytes : ℕ := 32

/-- A nonce. -/
structure Nonce where
  bytes : List UInt8
  length_eq : bytes.length = nonceBytes

/-- The all-zero nonce. -/
def Nonce.zero : Nonce := ⟨List.replicate nonceBytes 0, by simp⟩

/-- Sealing and opening, with the two facts that hold of every key. -/
structure SecretBox where
  /-- `sealBox key nonce message`. -/
  sealBox : List UInt8 → Nonce → List UInt8 → List UInt8
  /-- `openBox key nonce box`, failing on anything that was not sealed so. -/
  openBox : List UInt8 → Nonce → List UInt8 → Option (List UInt8)
  openBox_sealBox : ∀ key nonce message, openBox key nonce (sealBox key nonce message) = some message
  length_of_openBox : ∀ key nonce box message,
    openBox key nonce box = some message → box.length = message.length + macBytes

/-- A sealed message is longer than the message by the tag. -/
theorem SecretBox.length_sealBox (box : SecretBox) (key : List UInt8) (nonce : Nonce)
    (message : List UInt8) : (box.sealBox key nonce message).length = message.length + macBytes :=
  box.length_of_openBox key nonce _ _ (box.openBox_sealBox key nonce message)

/-- What a key rejects, it rejects under every nonce. -/
def SecretBox.Rejects (box : SecretBox) (key ciphertext : List UInt8) : Prop :=
  ∀ nonce, box.openBox key nonce ciphertext = none

section Tag

variable {tag : List UInt8 → Nonce → List UInt8} (htag : ∀ key nonce, (tag key nonce).length = macBytes)

include htag

/-- Behind its tag a message is found again. -/
theorem message_of_tag (key : List UInt8) (nonce : Nonce) (message : List UInt8) :
    (if (tag key nonce ++ message).take macBytes = tag key nonce
      then some ((tag key nonce ++ message).drop macBytes) else none) = some message := by
  rw [take_left' (htag key nonce), drop_left' (htag key nonce), if_pos rfl]

theorem length_of_tag (key : List UInt8) (nonce : Nonce) (box message : List UInt8)
    (h : (if box.take macBytes = tag key nonce then some (box.drop macBytes) else none) = some message) :
    box.length = message.length + macBytes := by
  split at h
  case isTrue hstart =>
    have hlength : min macBytes box.length = macBytes := by
      rw [← length_take, hstart, htag]
    have hmessage := congrArg length (Option.some.inj h)
    rw [length_drop] at hmessage
    omega
  case isFalse => cases h

end Tag

/-- The tag that marks a box as sealed under a key: the key's first bytes. -/
def keyTag (key : List UInt8) : List UInt8 := (key ++ List.replicate macBytes 0).take macBytes

@[simp] theorem length_keyTag (key : List UInt8) : (keyTag key).length = macBytes := by
  simp [keyTag]

/-- A box that tags every message with its key. It hides nothing, but keys with different
first bytes reject each other's boxes, which is all that authenticity needs. -/
def tagBox : SecretBox where
  sealBox key _ message := keyTag key ++ message
  openBox key _ box :=
    if box.take macBytes = keyTag key then some (box.drop macBytes) else none
  openBox_sealBox := message_of_tag fun key _ => length_keyTag key
  length_of_openBox := length_of_tag fun key _ => length_keyTag key

end UnyDesk.Lib
