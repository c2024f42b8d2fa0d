import UnyDesk.Lib.Base64
import UnyDesk.Lib.SecretBox
import UnyDesk.Proto.Message

/-!
# Password storage forms

Secrets are stored as text. A two-character version, the base64 shape and whether the payload
opens under a key of this machine decide together what a stored text is: `01` marks a hashed
permanent password, `00` a secret encrypted by an older version, anything else is plaintext.

The keys of a machine are its identifier and, on desktops, the public key that was used when
the identifier could not be read. Both may differ from the keys a stored text was made with.
-/

namespace UnyDesk

open Lib Base64 Utf8 List Option
open String (ofList)

variable {text : String}

/-- A SHA-256 digest. -/
structure Digest where
  bytes : Bytes
  length_eq : bytes.length = 32
deriving DecidableEq

/-- The keys of a machine: `get_uuid`, and the public key when a fallback exists. -/
structure MachineKeys where
  uuid : Bytes
  fallbackPk : Option Bytes := none

/-- The primitives that come from libraries, and the keys of this machine. -/
structure Crypto where
  sha256 : Bytes → Digest
  box : SecretBox
  machine : MachineKeys

def passwordEncVersion : String := "00"
def permanentPasswordEncVersion : String := "01"
def permanentPasswordHashPrefix : String := "00"
def permanentPasswordH1Len : ℕ := 32
def defaultSaltLen : ℕ := 32
def encryptMaxLen : ℕ := 128
def versionLen : ℕ := 2
def formatV1 : UInt8 := 1

/-- `str::len`, which counts bytes. -/
def byteLen (text : String) : ℕ := (Utf8.encode text).length

/-- `str::starts_with`. -/
def startsWith (text start : String) : Bool := start.toList.isPrefixOf text.toList

/-- The text after its version, as characters. -/
def afterVersion (text : String) : List Char := text.toList.drop versionLen

/-- `Vec::resize` to the length of a key. -/
def keyOf (raw : Bytes) : Bytes := (raw ++ List.replicate keyBytes 0).take keyBytes

/-- The keys that decryption tries, in order. -/
def MachineKeys.keys (machine : MachineKeys) : List Bytes :=
  match machine.fallbackPk with
  | some pk => if pk ≠ machine.uuid then [keyOf machine.uuid, keyOf pk] else [keyOf machine.uuid]
  | none => [keyOf machine.uuid]

/-- The header of a payload in the current format, if the bytes are long enough for one. -/
def payloadNonce (data : Bytes) : Option Nonce :=
  let nonce := (data.drop 1).take nonceBytes
  if h : data.head? = some formatV1 ∧ 1 + nonceBytes + macBytes ≤ data.length then
    some ⟨nonce, by rw [List.length_take, List.length_drop]; omega⟩
  else none

def openSecretboxPayload (box : SecretBox) (data key : Bytes) : Option Bytes :=
  let current := do
    let nonce ← payloadNonce data
    box.openBox key nonce (data.drop (1 + nonceBytes))
  current.or (box.openBox key .zero data)

/-- `symmetric_crypt(data, true)` with the nonce that was drawn. -/
def symmetricEncrypt (crypto : Crypto) (nonce : Nonce) (data : Bytes) : Bytes :=
  formatV1 :: (nonce.bytes ++ crypto.box.sealBox (keyOf crypto.machine.uuid) nonce data)

/-- `symmetric_crypt(data, false)`. -/
def symmetricDecrypt (crypto : Crypto) (data : Bytes) : Option Bytes :=
  crypto.machine.keys.findSome? (openSecretboxPayload crypto.box data)

def isEncrypted (text : String) : Bool :=
  if byteLen text ≤ versionLen || !startsWith text "00" then false
  else match Base64.decode (afterVersion text) with
    | some decoded => macBytes ≤ decoded.length
    | none => false

section

variable (crypto : Crypto)

/-- `encrypt`: an empty secret is not encrypted. -/
def encryptText (nonce : Nonce) (data : Bytes) : Option (List Char) :=
  if data ≠ [] then some (Base64.encode (symmetricEncrypt crypto nonce data)) else none

/-- `decrypt`. -/
def decryptText (text : List Char) : Option Bytes :=
  if text ≠ [] then (Base64.decode text).bind (symmetricDecrypt crypto) else none

def encryptStrOrOriginal (nonce : Nonce) (text version : String) (maxLen : ℕ) : String :=
  if isEncrypted text then text
  else if text.length > maxLen then ""
  else if version = "00" then
    match encryptText crypto nonce (Utf8.encode text) with
    | some encrypted => version ++ ofList encrypted
    | none => text
  else text

/-- The text, whether it was decrypted, and whether it should be stored again. -/
def decryptStrOrOriginal (text currentVersion : String) : String × Bool × Bool :=
  let decrypted :=
    if byteLen text > versionLen && startsWith text "00" then decryptText crypto (afterVersion text)
    else none
  match decrypted with
  | some data => (Utf8.decodeLossy data, true, "00" != currentVersion)
  | none => (text, false, text != "" && !isEncrypted text)

def computePermanentPasswordH1 (password salt : String) : Digest :=
  crypto.sha256 (Utf8.encode password ++ Utf8.encode salt)

end

def encodePermanentPasswordStorageFromH1 (h1 : Digest) : String :=
  permanentPasswordHashPrefix ++ ofList (Base64.encode h1.bytes)

def decodePasswordH1AfterPrefix (storage start : String) : Option Digest :=
  if startsWith storage start then do
    let decoded ← Base64.decode (storage.toList.drop start.length)
    if h : decoded.length = permanentPasswordH1Len then some ⟨decoded, h⟩ else none
  else none

def decodePermanentPasswordH1FromHashedStorage (storage : String) : Option Digest :=
  decodePasswordH1AfterPrefix storage permanentPasswordHashPrefix

def decodePresetPasswordH1FromStorage (storage : String) : Option Digest :=
  decodePasswordH1AfterPrefix storage "00"

section

variable (crypto : Crypto)

def encryptPermanentPasswordStorage (nonce : Nonce) (storage : String) : Option String :=
  if storage.length > encryptMaxLen then none
  else some (permanentPasswordEncVersion
    ++ ofList (Base64.encode (symmetricEncrypt crypto nonce (Utf8.encode storage))))

def encodePermanentPasswordEncryptedStorageFromH1 (nonce : Nonce) (h1 : Digest) : Option String :=
  encryptPermanentPasswordStorage crypto nonce (encodePermanentPasswordStorageFromH1 h1)

def decryptPermanentPasswordStrOrOriginal (storage : String) : String × Bool × Bool :=
  let decrypted :=
    if byteLen storage > versionLen && startsWith storage permanentPasswordEncVersion then
      (Base64.decode (afterVersion storage)).bind (symmetricDecrypt crypto)
    else none
  match decrypted with
  | some data => (Utf8.decodeLossy data, true, false)
  | none => (storage, false, storage != "")

def decodePermanentPasswordH1FromStorage (storage : String) : Option Digest :=
  if startsWith storage permanentPasswordEncVersion then
    let (hashedStorage, decrypted, _) := decryptPermanentPasswordStrOrOriginal crypto storage
    if decrypted then decodePermanentPasswordH1FromHashedStorage hashedStorage else none
  else none

def localPermanentPasswordStorageIsUsableForAuth (storage salt : String) : Bool :=
  if storage = "" then false
  else if (decodePermanentPasswordH1FromStorage crypto storage).isSome then salt ≠ ""
  else if startsWith storage permanentPasswordEncVersion
      && (decryptPermanentPasswordStrOrOriginal crypto storage).2.1 then false
  else
    let (_, decrypted, looksLikePlaintext) := decryptStrOrOriginal crypto storage passwordEncVersion
    !(startsWith storage passwordEncVersion && !decrypted && !looksLikePlaintext)

end

def presetPermanentPasswordStorageIsUsableForAuth (storage salt : String) : Bool :=
  if storage = "" then false
  else if salt = "" then true
  else (decodePresetPasswordH1FromStorage storage).isSome

def presetPermanentPasswordStorageMatchesPlain (crypto : Crypto) (storage salt input : String) : Bool :=
  if storage = "" || input = "" then false
  else if salt = "" then storage = input
  else match decodePresetPasswordH1FromStorage storage with
    | some storedH1 => computePermanentPasswordH1 crypto input salt = storedH1
    | none => false

def passwordIsEmptyOrNotHashed (crypto : Crypto) (storage : String) : Bool :=
  if storage = "" then true
  else if (decodePermanentPasswordH1FromStorage crypto storage).isSome then false
  else if startsWith storage permanentPasswordEncVersion then false
  else
    let (_, decrypted, looksLikePlaintext) := decryptStrOrOriginal crypto storage passwordEncVersion
    decrypted || looksLikePlaintext

section Text

@[simp] theorem startsWith_append (start rest : String) : startsWith (start ++ rest) start = true := by
  simp [startsWith]

/-- A text has one version only. -/
theorem startsWith_00_of_startsWith_01 (h : startsWith text "01" = true) : startsWith text "00" = false := by
  simp only [startsWith, isPrefixOf_iff_prefix] at h
  obtain ⟨rest, hrest⟩ := h
  rw [startsWith, ← hrest]
  rfl

/-- A text with a version is not empty. -/
theorem ne_empty_of_startsWith {d : Char} (h : startsWith text (ofList ['0', d]) = true) : text ≠ "" := by
  rintro rfl
  simp [startsWith] at h

/-- A versioned text with a non-empty body is longer than the version. -/
theorem versionLen_lt_byteLen (d : Char) {body : List Char} (hbody : body ≠ []) :
    versionLen < byteLen (ofList ['0', d] ++ ofList body) := by
  have hlength := length_le_length_encode (ofList ['0', d] ++ ofList body)
  have hpos := length_pos_iff.mpr hbody
  simp only [String.toList_append, String.toList_ofList, length_append, length_cons, length_nil] at hlength
  simp only [versionLen, byteLen]
  omega

@[simp] theorem afterVersion_append (d : Char) (body : List Char) :
    afterVersion (ofList ['0', d] ++ ofList body) = body := by
  simp [afterVersion, versionLen]

end Text

section Payload

variable (crypto : Crypto)

/-- The length of a payload in the current format. -/
theorem length_symmetricEncrypt (nonce : Nonce) (data : Bytes) :
    (symmetricEncrypt crypto nonce data).length = 1 + nonceBytes + macBytes + data.length := by
  simp only [symmetricEncrypt, length_cons, length_append, nonce.length_eq, SecretBox.length_sealBox]
  omega

/-- The header of a payload in the current format gives back its nonce. -/
theorem payloadNonce_symmetricEncrypt (nonce : Nonce) (data : Bytes) :
    payloadNonce (symmetricEncrypt crypto nonce data) = some nonce := by
  have hlength := length_symmetricEncrypt crypto nonce data
  have hheader : (symmetricEncrypt crypto nonce data).head? = some formatV1 ∧
      1 + nonceBytes + macBytes ≤ (symmetricEncrypt crypto nonce data).length :=
    ⟨rfl, by omega⟩
  have hbytes : ((symmetricEncrypt crypto nonce data).drop 1).take nonceBytes = nonce.bytes := by
    rw [symmetricEncrypt, drop_one, tail_cons, ← nonce.length_eq, take_left]
  simp only [payloadNonce, dif_pos hheader, hbytes]

/-- The body of a payload in the current format. -/
theorem drop_symmetricEncrypt (nonce : Nonce) (data : Bytes) :
    (symmetricEncrypt crypto nonce data).drop (1 + nonceBytes) =
      crypto.box.sealBox (keyOf crypto.machine.uuid) nonce data := by
  rw [symmetricEncrypt, Nat.add_comm, drop_succ_cons, ← nonce.length_eq, drop_left]

/-- The first key tried is the one used for encryption. -/
theorem keys_eq_cons (machine : MachineKeys) : ∃ others, machine.keys = keyOf machine.uuid :: others := by
  unfold MachineKeys.keys
  split
  · split
    · exact ⟨_, rfl⟩
    · exact ⟨_, rfl⟩
  · exact ⟨_, rfl⟩

/-- A machine decrypts what it encrypted. -/
@[simp] theorem symmetricDecrypt_symmetricEncrypt (nonce : Nonce) (data : Bytes) :
    symmetricDecrypt crypto (symmetricEncrypt crypto nonce data) = some data := by
  obtain ⟨others, hkeys⟩ := keys_eq_cons crypto.machine
  have hopen : openSecretboxPayload crypto.box (symmetricEncrypt crypto nonce data)
      (keyOf crypto.machine.uuid) = some data := by
    simp only [openSecretboxPayload, payloadNonce_symmetricEncrypt, drop_symmetricEncrypt,
      bind_eq_bind, bind_some, SecretBox.openBox_sealBox, some_or]
  rw [symmetricDecrypt, hkeys, findSome?_cons, hopen]

/-- A payload is never empty text. -/
theorem encode_symmetricEncrypt_ne_nil (nonce : Nonce) (data : Bytes) :
    encode (symmetricEncrypt crypto nonce data) ≠ [] := by
  intro h
  have hlength := length_encode (symmetricEncrypt crypto nonce data)
  rw [h, length_symmetricEncrypt, length_nil] at hlength
  omega

end Payload

section Forms

variable (crypto : Crypto) {storage : String}

/-- Encrypted text is recognised by its version and the length of its payload. -/
theorem isEncrypted_encode (data : Bytes) (hdata : macBytes ≤ data.length) :
    isEncrypted (passwordEncVersion ++ ofList (encode data)) = true := by
  have hbody : encode data ≠ [] := by
    intro h
    have hlength := length_encode data
    rw [h, length_nil] at hlength
    simp only [macBytes] at hdata
    omega
  have hlong := versionLen_lt_byteLen '0' hbody
  have hafter := afterVersion_append '0' (encode data)
  change versionLen < byteLen (passwordEncVersion ++ _) at hlong
  change afterVersion (passwordEncVersion ++ _) = _ at hafter
  have hstart : startsWith (passwordEncVersion ++ ofList (encode data)) "00" = true :=
    startsWith_append _ _
  rw [isEncrypted, hstart, hafter, decode_encode]
  simp [Nat.not_le.mpr hlong, hdata]

/-- Encrypted text of this machine gives back the secret. -/
theorem decryptStrOrOriginal_encode (nonce : Nonce) (text : String) : decryptStrOrOriginal crypto (passwordEncVersion ++
        ofList (encode (symmetricEncrypt crypto nonce (encode text))))
      passwordEncVersion = (text, true, false) := by
  have hbody := encode_symmetricEncrypt_ne_nil crypto nonce (encode text)
  have hlong := versionLen_lt_byteLen '0' hbody
  have hafter := afterVersion_append '0' (encode (symmetricEncrypt crypto nonce (encode text)))
  change versionLen < byteLen (passwordEncVersion ++ _) at hlong
  change afterVersion (passwordEncVersion ++ _) = _ at hafter
  have hstart : startsWith (passwordEncVersion ++ ofList (encode
      (symmetricEncrypt crypto nonce (encode text)))) "00" = true := startsWith_append _ _
  have hdecrypt : decryptText crypto (encode (symmetricEncrypt crypto nonce (encode text))) = some (encode text) := by
    rw [decryptText, if_pos hbody, decode_encode, bind_some, symmetricDecrypt_symmetricEncrypt]
  simp only [decryptStrOrOriginal, hstart, hlong, hafter, hdecrypt, decide_true, Bool.and_self,
    if_true, decodeLossy_encode]
  rfl

/-- A secret of permitted length that does not look encrypted is stored encrypted. -/
theorem encryptStrOrOriginal_eq (nonce : Nonce) {maxLen : ℕ} (hplain : isEncrypted text = false)
    (hlength : text.length ≤ maxLen) (htext : text ≠ "") :
    encryptStrOrOriginal crypto nonce text passwordEncVersion maxLen =
      passwordEncVersion ++ ofList (encode (symmetricEncrypt crypto nonce (encode text))) := by
  have hbytes : encode text ≠ [] := by
    intro h
    exact htext (encode_injective (by rw [h]; rfl))
  have hversion : passwordEncVersion = "00" := rfl
  simp only [encryptStrOrOriginal, hplain, Bool.false_eq_true, if_false, if_neg (Nat.not_lt.mpr hlength),
    hversion, if_true, encryptText, if_pos hbytes]

/-- Text without the `00` version is never decrypted by the older format. -/
theorem decryptStrOrOriginal_of_not_startsWith (htext : text ≠ "") (hstart : startsWith text "00" = false) :
    decryptStrOrOriginal crypto text passwordEncVersion = (text, false, true) := by
  simp [decryptStrOrOriginal, isEncrypted, hstart, htext]

/-- A digest is read back from its plain storage. -/
@[simp] theorem decodePermanentPasswordH1FromHashedStorage_encode (h1 : Digest) :
    decodePermanentPasswordH1FromHashedStorage (encodePermanentPasswordStorageFromH1 h1) = some h1 := by
  have hbody : (permanentPasswordHashPrefix ++ ofList (encode h1.bytes)).toList.drop
      permanentPasswordHashPrefix.length = encode h1.bytes := by
    rw [String.toList_append, ← String.length_toList, drop_left, String.toList_ofList]
  have hlength : h1.bytes.length = permanentPasswordH1Len := h1.length_eq
  simp only [decodePermanentPasswordH1FromHashedStorage, decodePasswordH1AfterPrefix,
    encodePermanentPasswordStorageFromH1, startsWith_append, hbody, decode_encode,
    bind_eq_bind, bind_some, dif_pos hlength, if_true]

/-- The text form of a digest always fits the limit for encryption. -/
theorem length_encodePermanentPasswordStorageFromH1 (h1 : Digest) :
    (encodePermanentPasswordStorageFromH1 h1).length = 46 := by
  rw [encodePermanentPasswordStorageFromH1, String.length_append, String.length_ofList, length_encode, h1.length_eq]
  rfl

/-- The current storage of a digest, written out. -/
theorem encodePermanentPasswordEncryptedStorageFromH1_eq (nonce : Nonce) (h1 : Digest) :
    encodePermanentPasswordEncryptedStorageFromH1 crypto nonce h1 = some (permanentPasswordEncVersion ++ ofList (encode
        (symmetricEncrypt crypto nonce (encode (encodePermanentPasswordStorageFromH1 h1))))) := by
  have hlength : ¬ (encodePermanentPasswordStorageFromH1 h1).length > encryptMaxLen := by
    rw [length_encodePermanentPasswordStorageFromH1]
    decide
  rw [encodePermanentPasswordEncryptedStorageFromH1, encryptPermanentPasswordStorage, if_neg hlength]

/-- What decrypting a text with the current version comes to. -/
theorem decryptPermanentPasswordStrOrOriginal_encode (data : Bytes) (hdata : data ≠ []) :
    decryptPermanentPasswordStrOrOriginal crypto (permanentPasswordEncVersion ++ ofList (encode data)) =
      match symmetricDecrypt crypto data with
      | some plain => (decodeLossy plain, true, false)
      | none => (permanentPasswordEncVersion ++ ofList (encode data), false, true) := by
  have hbody : encode data ≠ [] := by
    intro h
    have hlength := length_encode data
    have hpos := length_pos_iff.mpr hdata
    rw [h, length_nil] at hlength
    omega
  have hlong := versionLen_lt_byteLen '1' hbody
  have hafter := afterVersion_append '1' (encode data)
  have hne := ne_empty_of_startsWith (d := '1') (startsWith_append permanentPasswordEncVersion (ofList (encode data)))
  change versionLen < byteLen (permanentPasswordEncVersion ++ _) at hlong
  change afterVersion (permanentPasswordEncVersion ++ _) = _ at hafter
  simp only [decryptPermanentPasswordStrOrOriginal, startsWith_append, hlong, hafter,
    decode_encode, bind_some, decide_true, Bool.and_self, if_true,
    bne_iff_ne.mpr hne]

/-- Current storage of this machine gives back the digest. -/
theorem decodePermanentPasswordH1FromStorage_encode {nonce : Nonce} {h1 : Digest}
    (h : encodePermanentPasswordEncryptedStorageFromH1 crypto nonce h1 = some storage) :
    decodePermanentPasswordH1FromStorage crypto storage = some h1 := by
  rw [encodePermanentPasswordEncryptedStorageFromH1_eq, some.injEq] at h
  subst h
  rw [decodePermanentPasswordH1FromStorage, startsWith_append, if_pos rfl,
    decryptPermanentPasswordStrOrOriginal_encode _ _ (by simp [symmetricEncrypt]),
    symmetricDecrypt_symmetricEncrypt]
  simp

/-- Only text of the current version holds a digest. -/
theorem startsWith_of_decode {h1 : Digest} (h : decodePermanentPasswordH1FromStorage crypto storage = some h1) :
    startsWith storage permanentPasswordEncVersion = true := by
  by_contra hstart
  rw [decodePermanentPasswordH1FromStorage, if_neg hstart] at h
  cases h

end Forms

end UnyDesk
