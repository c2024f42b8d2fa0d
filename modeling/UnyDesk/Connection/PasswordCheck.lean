import UnyDesk.Config.Storage

/-!
# Checking a response against a stored password

A client proves that it knows a password by hashing it with the salt and then with the
challenge it was sent. The connection repeats the computation from what is stored: from the
digest when the storage is current, and otherwise from the stored text as a plaintext.

Storage written under another machine's keys is locked. Text in the older encrypted format is
then refused, but current storage that does not open is taken for a plaintext, so its own text
is accepted as the password.
-/

namespace UnyDesk

open Lib Base64 Option Utf8 String

variable {crypto : Crypto} {payload : Bytes}

/-- `Hash`: what the client is sent. -/
structure HashMsg where
  salt : String
  challenge : String

section

variable (crypto : Crypto)

section

variable (hash : HashMsg)
include hash

def verifyH1 (response h1 : Bytes) : Bool :=
  (crypto.sha256 (h1 ++ encode hash.challenge)).bytes = response

def validatePasswordPlain (response : Bytes) (password : String) : Bool :=
  if password = "" then false
  else
    let h1Plain := crypto.sha256 (encode password ++ encode hash.salt)
    verifyH1 crypto hash response h1Plain.bytes

def validatePasswordStorage (response : Bytes) (storage : String) : Bool :=
  if storage = "" then false
  else match decodePermanentPasswordH1FromStorage crypto storage with
    | some h1 => verifyH1 crypto hash response h1.bytes
    | none => validatePasswordPlain crypto hash response storage

def validatePresetPasswordStorage (response : Bytes)
    (storage salt : String) : Bool :=
  if salt = "" then validatePasswordPlain crypto hash response storage
  else match decodePresetPasswordH1FromStorage storage with
    | some h1 => verifyH1 crypto hash response h1.bytes
    | none => false

/-- What a client that knows the password answers. -/
def clientResponse (password : String) : Bytes :=
  let h1 := crypto.sha256 (encode password ++ encode hash.salt)
  (crypto.sha256 (h1.bytes ++ encode hash.challenge)).bytes

end

/-- Stored text written by a machine, with the payload inside it. -/
inductive WrittenBy (writer : Crypto) : String → Bytes → Prop
  | hashed {storage : String} (h1 : Digest) (nonce : Nonce)
      (h : encodePermanentPasswordEncryptedStorageFromH1 writer nonce h1 = some storage) :
      WrittenBy writer storage (symmetricEncrypt writer nonce (encode (encodePermanentPasswordStorageFromH1 h1)))
  | legacy (secret : Bytes) (nonce : Nonce) : WrittenBy writer
        (passwordEncVersion ++ ofList (Base64.encode (symmetricEncrypt writer nonce secret)))
        (symmetricEncrypt writer nonce secret)
  -- Before payloads carried a nonce they were sealed under the zero nonce.
  | legacyZeroNonce (secret : Bytes) : WrittenBy writer (passwordEncVersion ++ ofList (Base64.encode
          (writer.box.sealBox (keyOf writer.machine.uuid) .zero secret)))
        (writer.box.sealBox (keyOf writer.machine.uuid) .zero secret)

/-- No key of this machine opens a payload, read in either format. -/
def Locked (payload : Bytes) : Prop :=
  ∀ key ∈ crypto.machine.keys, crypto.box.Rejects key payload ∧ crypto.box.Rejects key (payload.drop (1 + nonceBytes))

end

/-- A locked payload does not decrypt. -/
theorem symmetricDecrypt_of_locked (h : Locked crypto payload) : symmetricDecrypt crypto payload = none := by
  rw [symmetricDecrypt, List.findSome?_eq_none_iff]
  intro key hkey
  obtain ⟨hwhole, hbody⟩ := h key hkey
  rw [openSecretboxPayload, hwhole, or_none]
  cases hnonce : payloadNonce payload with
  | none => rfl
  | some nonce =>
    rw [bind_eq_bind, bind_some]
    exact hbody nonce

/-- The right plaintext always passes, whatever the hash function. -/
theorem validatePasswordPlain_clientResponse (crypto : Crypto) (hash : HashMsg) {password : String}
    (h : password ≠ "") :
    validatePasswordPlain crypto hash (clientResponse crypto hash password) password = true := by
  simp [validatePasswordPlain, verifyH1, clientResponse, h]

/-- Locked text of the older format is refused before it reaches the plaintext comparison. -/
theorem not_usable_of_locked_legacy (hlocked : Locked crypto payload)
    (hlength : macBytes ≤ payload.length) (salt : String) :
    localPermanentPasswordStorageIsUsableForAuth crypto
      (passwordEncVersion ++ ofList (Base64.encode payload)) salt = false := by
  have hencrypted := isEncrypted_encode payload hlength
  have hstart : startsWith (passwordEncVersion ++ ofList (encode payload)) "00" = true :=
    startsWith_append _ _
  have hother : startsWith (passwordEncVersion ++ ofList (encode payload)) permanentPasswordEncVersion = false := by
    cases hcurrent : startsWith (passwordEncVersion ++ ofList (encode payload)) permanentPasswordEncVersion with
    | false => rfl
    | true => exact absurd hstart (by rw [startsWith_00_of_startsWith_01 hcurrent]; decide)
  have hafter := afterVersion_append '0' (encode payload)
  change afterVersion (passwordEncVersion ++ _) = _ at hafter
  have hdecrypt : decryptText crypto (encode payload) = none := by
    rw [decryptText, decode_encode, bind_some, symmetricDecrypt_of_locked hlocked, ite_self]
  simp [localPermanentPasswordStorageIsUsableForAuth, decodePermanentPasswordH1FromStorage, hother,
    decryptStrOrOriginal, hafter, hdecrypt, hencrypted]

/-- Locked current storage is taken for a plaintext. -/
theorem accepts_of_locked_hashed (hlocked : Locked crypto payload)
    (hpayload : payload ≠ []) (salt : String) (hash : HashMsg) :
    let storage := permanentPasswordEncVersion ++ ofList (encode payload)
    localPermanentPasswordStorageIsUsableForAuth crypto storage salt = true ∧
      validatePasswordStorage crypto hash (clientResponse crypto hash storage) storage = true := by
  intro storage
  have hcurrent : startsWith storage permanentPasswordEncVersion = true := startsWith_append _ _
  have hne : storage ≠ "" := ne_empty_of_startsWith (d := '1') hcurrent
  have hlegacy : startsWith storage passwordEncVersion = false :=
    startsWith_00_of_startsWith_01 hcurrent
  have hdecrypt : decryptPermanentPasswordStrOrOriginal crypto storage = (storage, false, true) := by
    rw [decryptPermanentPasswordStrOrOriginal_encode crypto payload hpayload, symmetricDecrypt_of_locked hlocked]
  have hdecode : decodePermanentPasswordH1FromStorage crypto storage = none := by
    simp [decodePermanentPasswordH1FromStorage, hcurrent, hdecrypt]
  constructor
  · simp [localPermanentPasswordStorageIsUsableForAuth, hne, hdecode, hdecrypt, hlegacy]
  · rw [validatePasswordStorage, if_neg hne, hdecode]
    exact validatePasswordPlain_clientResponse crypto hash hne

/-- When locked storage is refused. For storage written under a key that is not among the keys
of this machine, every response is refused exactly when the storage is in the older encrypted
format. -/
theorem locked_storage_refused_iff (crypto : Crypto) (writer : MachineKeys) {storage : String}
    {payload : Bytes} (hwritten : WrittenBy { crypto with machine := writer } storage payload)
    (hforeign : keyOf writer.uuid ∉ crypto.machine.keys)
    (hideal : ∀ key ∈ crypto.machine.keys, key ≠ keyOf writer.uuid →
      crypto.box.Rejects key payload ∧ crypto.box.Rejects key (payload.drop (1 + nonceBytes)))
    (salt : String) :
    (∀ hash response, (localPermanentPasswordStorageIsUsableForAuth crypto storage salt &&
        validatePasswordStorage crypto hash response storage) = false) ↔
      startsWith storage passwordEncVersion = true := by
  have hlocked : Locked crypto payload :=
    fun key hkey => hideal key hkey (fun heq => hforeign (heq ▸ hkey))
  have hlegacy : ∀ body : Bytes, Locked crypto body → macBytes ≤ body.length → ((∀ hash response,
        (localPermanentPasswordStorageIsUsableForAuth crypto (passwordEncVersion ++ ofList (Base64.encode body)) salt &&
          validatePasswordStorage crypto hash response (passwordEncVersion ++ ofList (Base64.encode body))) = false) ↔
        startsWith (passwordEncVersion ++ ofList (Base64.encode body)) passwordEncVersion = true) := by
    intro body hbody hlength
    refine ⟨fun _ => startsWith_append _ _, fun _ hash response => ?_⟩
    rw [not_usable_of_locked_legacy hbody hlength, Bool.false_and]
  cases hwritten with
  | hashed h1 nonce h =>
    rw [encodePermanentPasswordEncryptedStorageFromH1_eq, Option.some.injEq] at h
    subst h
    constructor
    · intro hrefused
      obtain ⟨husable, haccepts⟩ := accepts_of_locked_hashed hlocked (by simp [symmetricEncrypt]) salt ⟨"", ""⟩
      have hboth := Bool.and_eq_true_iff.mpr ⟨husable, haccepts⟩
      rw [hrefused] at hboth
      cases hboth
    · intro hstart
      have hother := startsWith_00_of_startsWith_01 (startsWith_append permanentPasswordEncVersion
        (ofList (Base64.encode (symmetricEncrypt { crypto with machine := writer } nonce
          (encode (encodePermanentPasswordStorageFromH1 h1))))))
      exact absurd (hstart.symm.trans hother) (by decide)
  | legacy secret nonce =>
    refine hlegacy _ hlocked ?_
    rw [length_symmetricEncrypt]
    omega
  | legacyZeroNonce secret =>
    refine hlegacy _ hlocked ?_
    rw [SecretBox.length_sealBox]
    omega

/-- A stand-in for SHA-256 in concrete runs: the bytes read as a number. -/
def toyDigest (bytes : Bytes) : Digest :=
  let number := bytes.foldl (fun acc b => acc * 257 + b.toNat + 1) 0
  ⟨(List.range 32).map fun i => UInt8.ofNat (number / 256 ^ i), by simp⟩

/-- Primitives for concrete runs, on a machine with the given identifier. -/
def toyCrypto (uuid : Bytes) : Crypto := { sha256 := toyDigest, box := tagBox, machine := ⟨uuid, none⟩ }

/-- The permanent password `pw` with salt `s`, stored by the machine whose identifier is 1. -/
def toyStorage : String :=
  (encodePermanentPasswordEncryptedStorageFromH1 (toyCrypto [1]) .zero
    (computePermanentPasswordH1 (toyCrypto [1]) "pw" "s")).getD ""

/-- Copied to the machine whose identifier is 2, the stored text itself is a password. -/
theorem locked_storage_text_accepted : encodePermanentPasswordEncryptedStorageFromH1 (toyCrypto [1]) .zero
        (computePermanentPasswordH1 (toyCrypto [1]) "pw" "s") = some toyStorage ∧
      keyOf [1] ∉ (toyCrypto [2]).machine.keys ∧
      (localPermanentPasswordStorageIsUsableForAuth (toyCrypto [2]) toyStorage "s" &&
        validatePasswordStorage (toyCrypto [2]) ⟨"s", "c"⟩
          (clientResponse (toyCrypto [2]) ⟨"s", "c"⟩ toyStorage) toyStorage) = true := by
  decide +kernel

/-- The machine whose identifier is 2 rejects what the machine with identifier 1 sealed. -/
theorem tagBox_rejects_foreign (secret : Bytes) :
    tagBox.Rejects (keyOf [2]) (symmetricEncrypt (toyCrypto [1]) .zero secret) ∧
      tagBox.Rejects (keyOf [2]) ((symmetricEncrypt (toyCrypto [1]) .zero secret).drop (1 + nonceBytes)) :=
  ⟨fun _ => rfl, fun _ => rfl⟩

/-- A copied text of the older format is refused whatever the client answers. -/
theorem locked_storage_refused_legacy : keyOf [1] ∉ (toyCrypto [2]).machine.keys ∧ ∀ hash response,
      (localPermanentPasswordStorageIsUsableForAuth (toyCrypto [2]) (passwordEncVersion ++
            ofList (Base64.encode (symmetricEncrypt (toyCrypto [1]) .zero [112, 119]))) "s" &&
        validatePasswordStorage (toyCrypto [2]) hash response
          (passwordEncVersion ++ ofList (Base64.encode (symmetricEncrypt (toyCrypto [1]) .zero [112, 119])))) =
        false := by
  have hforeign : keyOf [1] ∉ (toyCrypto [2]).machine.keys := by decide
  refine ⟨hforeign, (locked_storage_refused_iff (toyCrypto [2]) ⟨[1], none⟩
    (.legacy [112, 119] .zero) hforeign ?_ "s").mpr (startsWith_append _ _)⟩
  intro key hkey _
  obtain rfl : key = keyOf [2] := List.mem_singleton.mp hkey
  exact tagBox_rejects_foreign [112, 119]

end UnyDesk
