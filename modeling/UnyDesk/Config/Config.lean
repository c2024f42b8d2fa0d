import UnyDesk.Config.Storage
import UnyDesk.Lib.Machine

/-!
# The permanent password in the configuration

The configuration keeps the permanent password and its salt in memory and writes both to disk.
On disk a plaintext is encrypted, in memory it is not, and current storage is the same in both
places. Setting a password, synchronising it from the service, reading or setting the salt and
every unrelated write of the configuration go through the same store and load steps.

An abstract secret says what is being kept: the text that was set, or a digest received from
the service together with its salt. Memory and file both hold it throughout every run.
-/

namespace UnyDesk

open Lib Bool

/-- The fields of `Config` that concern the permanent password. -/
structure PasswordFields where
  password : String := ""
  salt : String := ""

/-- `CONFIG` and the file it is stored in. -/
structure ConfigState where
  memory : PasswordFields
  file : PasswordFields

open ConfigState

/-- What is fixed while the program runs: primitives, hard settings and the built-in option
that forbids changing the password. -/
structure ConfigEnv where
  crypto : Crypto
  presetStorage : String := ""
  presetSalt : String := ""
  disableChangePermanentPassword : Bool := false

/-- The characters of generated passwords. -/
def chars : List Char := "23456789abcdefghijkmnpqrstuvwxyz".toList

/-- A salt drawn by `Config::get_auto_password`. -/
structure AutoPassword where
  text : String
  length_eq : text.length = defaultSaltLen
  chars_mem : ∀ c ∈ text.toList, c ∈ chars

theorem AutoPassword.text_ne_empty (salt : AutoPassword) : salt.text ≠ "" := by
  intro h
  have hlength := salt.length_eq
  rw [h] at hlength
  cases hlength

section

variable (crypto : Crypto)

/-- The configuration after the check, or the reason why its storage is refused. -/
def validateOrDecryptPermanentPasswordStorage (config : PasswordFields) : Except String PasswordFields :=
  if config.password = "" then .ok config
  else if startsWith config.password passwordEncVersion then
    let (plain, decrypted, shouldStore) := decryptStrOrOriginal crypto config.password passwordEncVersion
    if decrypted then .ok { config with password := plain }
    else if !shouldStore then .error "Invalid permanent password encrypted hash storage"
    else .ok config
  else
    let (decryptedStorage, decrypted, _) := decryptPermanentPasswordStrOrOriginal crypto config.password
    if decrypted then
      if config.salt = "" then .error "Permanent password hash storage requires a non-empty salt"
      else if (decodePermanentPasswordH1FromHashedStorage decryptedStorage).isSome then .ok config
      else .error "Invalid permanent password encrypted hash storage"
    else .ok config

def keepEncryptedStorageIfPlaintextUnchanged (nonce : Nonce) (plain stored : String) : String :=
  let (storedPlain, encrypted, _) := decryptStrOrOriginal crypto stored passwordEncVersion
  if encrypted && storedPlain = plain then stored
  else encryptStrOrOriginal crypto nonce plain passwordEncVersion encryptMaxLen

/-- Storage that cannot be recovered is cleared before the configuration is written. -/
def prepareConfigForStore (config : PasswordFields) : PasswordFields :=
  match validateOrDecryptPermanentPasswordStorage crypto config with
  | .ok checked => checked
  | .error _ => { password := "", salt := "" }

/-- The fields that `Config::store` writes over those of the file. -/
def storedFields (nonce : Nonce) (memory file : PasswordFields) : PasswordFields :=
  let config := prepareConfigForStore crypto memory
  if config.password ≠ "" && (decodePermanentPasswordH1FromStorage crypto config.password).isNone then
    { config with
      password := keepEncryptedStorageIfPlaintextUnchanged crypto nonce config.password file.password }
  else config

/-- The fields that `Config::load` reads; a refused storage is only logged. -/
def loadedFields (file : PasswordFields) : PasswordFields :=
  match validateOrDecryptPermanentPasswordStorage crypto file with
  | .ok checked => checked
  | .error _ => file

end

def ConfigState.store (env : ConfigEnv) (nonce : Nonce) (s : ConfigState) : ConfigState :=
  { s with file := storedFields env.crypto nonce s.memory s.file }

/-- `Config::load` into memory; a configuration without a valid id is also written back. -/
def ConfigState.load (env : ConfigEnv) (idRenewed : Option Nonce) (s : ConfigState) : ConfigState :=
  let loaded := { s with memory := loadedFields env.crypto s.file }
  match idRenewed with
  | some nonce => loaded.store env nonce
  | none => loaded

/-- `ensure_permanent_password_salt`. -/
def ensurePermanentPasswordSalt (salt : AutoPassword) (config : PasswordFields) : PasswordFields :=
  if config.salt = "" then { config with salt := salt.text } else config

/-- Returns whether the password was accepted, and the configuration afterwards. -/
def ConfigState.setPermanentPassword (env : ConfigEnv) (password : String) (salt : AutoPassword)
    (nonce storeNonce : Nonce) (s : ConfigState) : Bool × ConfigState :=
  if env.disableChangePermanentPassword then (false, s)
  else if presetPermanentPasswordStorageMatchesPlain env.crypto env.presetStorage env.presetSalt password
      && s.memory.password = "" then (true, s)
  else
    let (config, stored) :=
      if password = "" then (s.memory, some "")
      else
        let config := ensurePermanentPasswordSalt salt s.memory
        let h1 := computePermanentPasswordH1 env.crypto password config.salt
        (config, encodePermanentPasswordEncryptedStorageFromH1 env.crypto nonce h1)
    match stored with
    | none => (false, { s with memory := config })
    | some stored =>
      if stored = config.password then (true, { s with memory := config })
      else (true, { s with memory := { config with password := stored } }.store env storeNonce)

/-- `apply_permanent_password_storage_for_sync`: the new fields when they changed. -/
def applyPermanentPasswordStorageForSync (crypto : Crypto) (config : PasswordFields)
    (storage salt : String) : Except String (Option PasswordFields) :=
  if storage = "" then
    if config.password = "" && (salt = "" || config.salt = salt) then .ok none
    else .ok (some { password := "", salt := if salt = "" then config.salt else salt })
  else if salt = "" then .error "Refusing to persist permanent password storage without salt"
  else if (decodePermanentPasswordH1FromStorage crypto storage).isNone then
    .error "Invalid permanent password storage sync payload"
  else if config.password = storage && config.salt = salt then .ok none
  else .ok (some { password := storage, salt := salt })

section

variable (env : ConfigEnv)

def ConfigState.setPermanentPasswordStorageForSync (storage salt : String)
    (nonce : Nonce) (s : ConfigState) : ConfigState :=
  match applyPermanentPasswordStorageForSync env.crypto s.memory storage salt with
  | .ok (some config) => { s with memory := config }.store env nonce
  | .ok none | .error _ => s

def ConfigState.setSalt (salt : String) (nonce : Nonce) (s : ConfigState) : ConfigState :=
  if salt = s.memory.salt then s
  else if !passwordIsEmptyOrNotHashed env.crypto s.memory.password && s.memory.salt ≠ "" then s
  else { s with memory := { s.memory with salt := salt } }.store env nonce

def ConfigState.getSalt (salt : AutoPassword) (nonce : Nonce) (s : ConfigState) : String × ConfigState :=
  if s.memory.salt = "" then (salt.text, s.setSalt env salt.text nonce) else (s.memory.salt, s)

def ConfigState.getEffectivePermanentPasswordSalt (salt : AutoPassword)
    (nonce : Nonce) (s : ConfigState) : String × ConfigState :=
  if s.memory.password ≠ "" then
    if localPermanentPasswordStorageIsUsableForAuth env.crypto s.memory.password s.memory.salt then
      s.getSalt env salt nonce
    else ("", s)
  else if env.presetSalt ≠ "" then
    if presetPermanentPasswordStorageIsUsableForAuth env.presetStorage env.presetSalt then
      (env.presetSalt, s)
    else ("", s)
  else s.getSalt env salt nonce

/-- Everything that reads or writes the permanent password, with what was drawn at random. -/
inductive ConfigOp
  | setPermanentPassword (password : String) (salt : AutoPassword) (nonce storeNonce : Nonce)
  | sync (storage salt : String) (nonce : Nonce)
  | setSalt (salt : String) (nonce : Nonce)
  | getSalt (salt : AutoPassword) (nonce : Nonce)
  | getEffectiveSalt (salt : AutoPassword) (nonce : Nonce)
  | store (nonce : Nonce)
  | load (idRenewed : Option Nonce)

def ConfigState.step (s : ConfigState) : ConfigOp → ConfigState
  | .setPermanentPassword password salt nonce storeNonce =>
    (s.setPermanentPassword env password salt nonce storeNonce).2
  | .sync storage salt nonce => s.setPermanentPasswordStorageForSync env storage salt nonce
  | .setSalt salt nonce => s.setSalt env salt nonce
  | .getSalt salt nonce => (s.getSalt env salt nonce).2
  | .getEffectiveSalt salt nonce => (s.getEffectivePermanentPasswordSalt env salt nonce).2
  | .store nonce => s.store env nonce
  | .load idRenewed => s.load env idRenewed

/-- The state of a process that starts with the given file. -/
def ConfigState.start (file : PasswordFields) : ConfigState :=
  { memory := loadedFields env.crypto file, file := file }

end

/-- What the configuration keeps, in its own terms. -/
inductive Secret
  | password (text : String)
  | digest (h1 : Digest) (salt : String)

/-- A password is the kept secret. -/
def Secret.Matches (crypto : Crypto) (password : String) : Secret → Prop
  | .password text => password = text
  | .digest h1 salt => computePermanentPasswordH1 crypto password salt = h1

/-- The secret of the hard settings: plain without a salt, otherwise a digest. -/
def presetSecret (env : ConfigEnv) : Option Secret :=
  if env.presetStorage = "" then none
  else if env.presetSalt = "" then some (.password env.presetStorage)
  else (decodePresetPasswordH1FromStorage env.presetStorage).map (.digest · env.presetSalt)

/-- What an operation does to the local secret. -/
def localSecretAfter (env : ConfigEnv) (secret : Option Secret) : ConfigOp → Option Secret
  | .setPermanentPassword password _ _ _ =>
    if env.disableChangePermanentPassword then secret
    else if presetPermanentPasswordStorageMatchesPlain env.crypto env.presetStorage env.presetSalt
        password && secret.isNone then secret
    else if password = "" then none
    else some (.password password)
  | .sync storage salt _ =>
    if storage = "" then none
    else if salt = "" then secret
    else match decodePermanentPasswordH1FromStorage env.crypto storage with
      | some h1 => some (.digest h1 salt)
      | none => secret
  | .setSalt _ _ | .getSalt _ _ | .getEffectiveSalt _ _ | .store _ | .load _ => secret

/-- Operations that read, move or write the configuration without setting a password. -/
def ConfigOp.isHousekeeping : ConfigOp → Bool
  | .setPermanentPassword _ _ _ _ | .sync _ _ _ => false
  | .setSalt _ _ | .getSalt _ _ | .getEffectiveSalt _ _ | .store _ | .load _ => true

/-- A plaintext of an older version that cannot be mistaken for a storage form: it is neither
base64 behind `00` nor, behind `01`, something this machine can decrypt. -/
structure LegacyPlaintext (crypto : Crypto) (text : String) : Prop where
  ne_empty : text ≠ ""
  length_le : text.length ≤ encryptMaxLen
  not_encrypted : isEncrypted text = false
  not_current : (decryptPermanentPasswordStrOrOriginal crypto text).2.1 = false

/-- Fields that hold a secret in memory. -/
inductive FieldsHold (crypto : Crypto) (fields : PasswordFields) : Option Secret → Prop
  | empty (h : fields.password = "") : FieldsHold crypto fields none
  | plain (h : LegacyPlaintext crypto fields.password) : FieldsHold crypto fields (some (.password fields.password))
  | hashed {h1 : Digest} (hdecode : decodePermanentPasswordH1FromStorage crypto fields.password = some h1)
      (hsalt : fields.salt ≠ "") : FieldsHold crypto fields (some (.digest h1 fields.salt))
  | hashedPassword {text : String} (hdecode : decodePermanentPasswordH1FromStorage crypto fields.password =
        some (computePermanentPasswordH1 crypto text fields.salt))
      (hsalt : fields.salt ≠ "") : FieldsHold crypto fields (some (.password text))

open FieldsHold

/-- Memory holds the secret, and loading the file would give the same memory. -/
structure ConfigState.Holds (env : ConfigEnv) (s : ConfigState) (secret : Option Secret) : Prop where
  memory : FieldsHold env.crypto s.memory secret
  file : loadedFields env.crypto s.file = s.memory

section StoreLoad

variable {crypto : Crypto} {secret : Option Secret}

/-- A payload that decrypts is at least as long as a tag. -/
theorem macBytes_le_of_symmetricDecrypt {data plain : Bytes}
    (h : symmetricDecrypt crypto data = some plain) : macBytes ≤ data.length := by
  obtain ⟨key, -, hopen⟩ := List.exists_of_findSome?_eq_some h
  rw [openSecretboxPayload, Option.or_eq_some_iff] at hopen
  rcases hopen with hcurrent | ⟨-, hlegacy⟩
  · cases hnonce : payloadNonce data with
    | none => rw [hnonce] at hcurrent; cases hcurrent
    | some nonce =>
      unfold payloadNonce at hnonce
      by_cases hheader : data.head? = some formatV1 ∧ 1 + nonceBytes + macBytes ≤ data.length
      · have := hheader.2
        omega
      · simp [hheader] at hnonce
  · have := crypto.box.length_of_openBox _ _ _ _ hlegacy
    omega

/-- Text without the encrypted shape is never decrypted by the older format. -/
theorem decryptStrOrOriginal_of_not_isEncrypted {text : String} (htext : text ≠ "") (h : isEncrypted text = false) :
    decryptStrOrOriginal crypto text passwordEncVersion = (text, false, true) := by
  by_cases hstart : startsWith text "00" = true
  · by_cases hlong : byteLen text > versionLen
    · have hnone : decryptText crypto (afterVersion text) = none := by
        rw [isEncrypted, hstart] at h
        cases hdecode : Base64.decode (afterVersion text) with
        | none => simp [decryptText, hdecode]
        | some data =>
          have hshort : ¬ macBytes ≤ data.length := by
            simpa [hdecode, Nat.not_le.mpr hlong] using h
          have hclosed : symmetricDecrypt crypto data = none := by
            cases hdata : symmetricDecrypt crypto data with
            | none => rfl
            | some plain => exact absurd (macBytes_le_of_symmetricDecrypt hdata) hshort
          simp [decryptText, hdecode, hclosed]
      simp [decryptStrOrOriginal, hstart, hlong, hnone, htext, h]
    · simp [decryptStrOrOriginal, hstart, hlong, htext, h]
  · exact decryptStrOrOriginal_of_not_startsWith crypto htext (by simpa using hstart)

/-- A legacy plaintext holds no digest. -/
theorem LegacyPlaintext.decode_eq_none {text : String} (h : LegacyPlaintext crypto text) :
    decodePermanentPasswordH1FromStorage crypto text = none := by
  simp [decodePermanentPasswordH1FromStorage, h.not_current]

section LoadedFields

variable {fields : PasswordFields}

/-- The check leaves a legacy plaintext as it is. -/
theorem validateOrDecrypt_of_plain (h : LegacyPlaintext crypto fields.password) :
    validateOrDecryptPermanentPasswordStorage crypto fields = .ok fields := by
  simp [validateOrDecryptPermanentPasswordStorage, h.ne_empty, h.not_current,
    decryptStrOrOriginal_of_not_isEncrypted h.ne_empty h.not_encrypted]

/-- The check accepts current storage with its salt. -/
theorem validateOrDecrypt_of_hashed {h1 : Digest}
    (hdecode : decodePermanentPasswordH1FromStorage crypto fields.password = some h1) (hsalt : fields.salt ≠ "") :
    validateOrDecryptPermanentPasswordStorage crypto fields = .ok fields := by
  have hstart := startsWith_of_decode crypto hdecode
  have hne := ne_empty_of_startsWith (d := '1') hstart
  have hlegacy : startsWith fields.password passwordEncVersion = false :=
    startsWith_00_of_startsWith_01 hstart
  rw [decodePermanentPasswordH1FromStorage, if_pos hstart] at hdecode
  rw [validateOrDecryptPermanentPasswordStorage, if_neg hne, hlegacy, if_neg (by decide)]
  cases hplain : decryptPermanentPasswordStrOrOriginal crypto fields.password with
  | mk hashedStorage rest =>
    obtain ⟨decrypted, shouldStore⟩ := rest
    rw [hplain] at hdecode
    cases decrypted with
    | false => cases hdecode
    | true =>
      have hsome : (decodePermanentPasswordH1FromHashedStorage hashedStorage).isSome = true := by
        change decodePermanentPasswordH1FromHashedStorage hashedStorage = some h1 at hdecode
        rw [hdecode]
        rfl
      simp [hsalt, hsome]

/-- The check accepts every form in which memory holds a secret. -/
theorem FieldsHold.validate (h : FieldsHold crypto fields secret) :
    validateOrDecryptPermanentPasswordStorage crypto fields = .ok fields := by
  cases h with
  | empty h => simp [validateOrDecryptPermanentPasswordStorage, h]
  | plain h => exact validateOrDecrypt_of_plain h
  | hashed hdecode hsalt => exact validateOrDecrypt_of_hashed hdecode hsalt
  | hashedPassword hdecode hsalt => exact validateOrDecrypt_of_hashed hdecode hsalt

/-- Loading fields that hold a secret changes nothing. -/
theorem FieldsHold.loadedFields_eq (h : FieldsHold crypto fields secret) : loadedFields crypto fields = fields := by
  rw [loadedFields, h.validate]

/-- Text that the older format decrypts is loaded as its plaintext. -/
theorem loadedFields_of_decrypted {plain : String} {shouldStore : Bool}
    (h : decryptStrOrOriginal crypto fields.password passwordEncVersion = (plain, true, shouldStore)) :
    loadedFields crypto fields = { fields with password := plain } := by
  have hstart : startsWith fields.password passwordEncVersion = true := by
    by_contra hstart
    by_cases hne : fields.password = ""
    · rw [hne] at h
      cases h
    · rw [decryptStrOrOriginal_of_not_startsWith crypto hne (eq_false_iff.mpr hstart)] at h
      cases h
  have hne := ne_empty_of_startsWith (d := '0') hstart
  simp [loadedFields, validateOrDecryptPermanentPasswordStorage, hne, hstart, h]

end LoadedFields

/-- The text kept on disk for a plaintext decrypts to it. -/
theorem decrypt_keepEncryptedStorage (nonce : Nonce) {plain : String}
    (h : LegacyPlaintext crypto plain) (stored : String) :
    ∃ shouldStore, decryptStrOrOriginal crypto
      (keepEncryptedStorageIfPlaintextUnchanged crypto nonce plain stored) passwordEncVersion =
        (plain, true, shouldStore) := by
  cases hstored : decryptStrOrOriginal crypto stored passwordEncVersion with
  | mk storedPlain rest =>
    obtain ⟨encrypted, shouldStore⟩ := rest
    by_cases hsame : (encrypted && decide (storedPlain = plain)) = true
    · rw [keepEncryptedStorageIfPlaintextUnchanged, hstored]
      dsimp only
      rw [if_pos hsame]
      obtain ⟨rfl, hplain⟩ := and_eq_true_iff.mp hsame
      rw [of_decide_eq_true hplain] at hstored
      exact ⟨shouldStore, hstored⟩
    · rw [keepEncryptedStorageIfPlaintextUnchanged, hstored]
      dsimp only
      rw [if_neg hsame, encryptStrOrOriginal_eq crypto nonce h.not_encrypted h.length_le h.ne_empty,
        decryptStrOrOriginal_encode]
      exact ⟨false, rfl⟩

/-- Storing and loading gives back the fields, whatever the file held before. -/
theorem FieldsHold.loadedFields_storedFields {memory : PasswordFields}
    (h : FieldsHold crypto memory secret) (nonce : Nonce) (file : PasswordFields) :
    loadedFields crypto (storedFields crypto nonce memory file) = memory := by
  have hprepare : prepareConfigForStore crypto memory = memory := by
    rw [prepareConfigForStore, h.validate]
  have hkept : ∀ {h1 : Digest}, decodePermanentPasswordH1FromStorage crypto memory.password = some h1 →
      storedFields crypto nonce memory file = memory := by
    intro h1 hdecode
    simp [storedFields, hprepare, hdecode]
  cases h with
  | empty hempty =>
    have hstored : storedFields crypto nonce memory file = memory := by
      simp [storedFields, hprepare, hempty]
    rw [hstored, (empty hempty).loadedFields_eq]
  | plain hplain =>
    obtain ⟨shouldStore, hdecrypt⟩ := decrypt_keepEncryptedStorage nonce hplain file.password
    have hstored : storedFields crypto nonce memory file =
        { memory with password :=
            keepEncryptedStorageIfPlaintextUnchanged crypto nonce memory.password file.password } := by
      simp [storedFields, hprepare, hplain.ne_empty, hplain.decode_eq_none]
    rw [hstored]
    generalize keepEncryptedStorageIfPlaintextUnchanged crypto nonce memory.password file.password = kept at hdecrypt
    exact @loadedFields_of_decrypted crypto { memory with password := kept } _ _ hdecrypt
  | hashed hdecode hsalt => rw [hkept hdecode, (hashed hdecode hsalt).loadedFields_eq]
  | hashedPassword hdecode hsalt =>
    rw [hkept hdecode, (hashedPassword hdecode hsalt).loadedFields_eq]

end StoreLoad

section Steps

variable {env : ConfigEnv} {s : ConfigState} {secret : Option Secret} {fields : PasswordFields} {crypto : Crypto}

/-- No local password is stored exactly when no secret is kept. -/
theorem FieldsHold.password_eq_empty_iff
    (h : FieldsHold crypto fields secret) : fields.password = "" ↔ secret = none := by
  have hhashed : ∀ {h1 : Digest}, decodePermanentPasswordH1FromStorage crypto fields.password = some h1 →
      fields.password ≠ "" := by
    intro h1 hdecode
    exact ne_empty_of_startsWith (d := '1') (startsWith_of_decode crypto hdecode)
  cases h with
  | empty hempty => simp [hempty]
  | plain hplain => simp [hplain.ne_empty]
  | hashed hdecode _ => simp [hhashed hdecode]
  | hashedPassword hdecode _ => simp [hhashed hdecode]

/-- Writing the configuration establishes the file's half of the invariant. -/
theorem ConfigState.holds_store (h : FieldsHold env.crypto s.memory secret) (nonce : Nonce) :
    (s.store env nonce).Holds env secret :=
  ⟨h, h.loadedFields_storedFields nonce s.file⟩

theorem ConfigState.Holds.load (h : s.Holds env secret) (idRenewed : Option Nonce) :
    (s.load env idRenewed).Holds env secret := by
  have hloaded : FieldsHold env.crypto (loadedFields env.crypto s.file) secret := by
    rw [h.file]
    exact h.memory
  cases idRenewed with
  | none => exact ⟨hloaded, rfl⟩
  | some nonce => exact holds_store hloaded nonce

/-- A salt that may be replaced is not part of the secret. -/
theorem FieldsHold.setSalt (h : FieldsHold crypto fields secret)
    (hfree : ¬ (!passwordIsEmptyOrNotHashed crypto fields.password && fields.salt ≠ "") = true)
    (salt : String) : FieldsHold crypto { fields with salt := salt } secret := by
  have hbound : ∀ {h1 : Digest}, decodePermanentPasswordH1FromStorage crypto fields.password = some h1 →
      fields.salt ≠ "" → False := by
    intro h1 hdecode hsalt
    have hne := ne_empty_of_startsWith (d := '1') (startsWith_of_decode crypto hdecode)
    apply hfree
    simp [passwordIsEmptyOrNotHashed, hne, hdecode, hsalt]
  cases h with
  | empty hempty => exact .empty hempty
  | plain hplain => exact @plain crypto { fields with salt := salt } hplain
  | hashed hdecode hsalt => exact (hbound hdecode hsalt).elim
  | hashedPassword hdecode hsalt => exact (hbound hdecode hsalt).elim

section

variable (h : s.Holds env secret)
include h

theorem ConfigState.Holds.setSalt (salt : String) (nonce : Nonce) : (s.setSalt env salt nonce).Holds env secret := by
  unfold ConfigState.setSalt
  split
  · exact h
  · split
    case isTrue => exact h
    case isFalse hfree => exact ConfigState.holds_store (h.memory.setSalt hfree salt) nonce

theorem ConfigState.Holds.getSalt (salt : AutoPassword) (nonce : Nonce) :
    (s.getSalt env salt nonce).2.Holds env secret := by
  unfold ConfigState.getSalt
  split
  · exact h.setSalt salt.text nonce
  · exact h

theorem ConfigState.Holds.getEffectiveSalt (salt : AutoPassword)
    (nonce : Nonce) : (s.getEffectivePermanentPasswordSalt env salt nonce).2.Holds env secret := by
  unfold getEffectivePermanentPasswordSalt
  split
  · split
    · exact h.getSalt salt nonce
    · exact h
  · split
    · split
      · exact h
      · exact h
    · exact h.getSalt salt nonce

end

theorem ensurePermanentPasswordSalt_salt_ne_empty (salt : AutoPassword) (config : PasswordFields) :
    (ensurePermanentPasswordSalt salt config).salt ≠ "" := by
  unfold ensurePermanentPasswordSalt
  split
  · exact salt.text_ne_empty
  · assumption

section

variable (h : s.Holds env secret)
include h

/-- Setting a non-empty password stores its digest under the salt of the configuration. -/
theorem holds_setPermanentPassword_hashed {password : String}
    (salt : AutoPassword) (nonce storeNonce : Nonce) {stored : String}
    (hstored : encodePermanentPasswordEncryptedStorageFromH1 env.crypto nonce
      (computePermanentPasswordH1 env.crypto password (ensurePermanentPasswordSalt salt s.memory).salt) = some stored) :
    (if stored = (ensurePermanentPasswordSalt salt s.memory).password then
        { s with memory := ensurePermanentPasswordSalt salt s.memory }
      else
        { s with memory := { ensurePermanentPasswordSalt salt s.memory with password := stored } }.store
          env storeNonce).Holds env (some (.password password)) := by
  have hsalt := ensurePermanentPasswordSalt_salt_ne_empty salt s.memory
  have hdecode := decodePermanentPasswordH1FromStorage_encode env.crypto hstored
  split
  case isTrue hsame =>
    -- The same text was drawn again, so memory was hashed already and its salt is not new.
    have hpassword : (ensurePermanentPasswordSalt salt s.memory).password = s.memory.password := by
      unfold ensurePermanentPasswordSalt
      split <;> rfl
    rw [hsame, hpassword] at hdecode
    have hold : s.memory.salt ≠ "" := by
      cases h.memory with
      | empty hempty =>
        exact absurd hempty (ne_empty_of_startsWith (d := '1') (startsWith_of_decode _ hdecode))
      | plain hplain => rw [hplain.decode_eq_none] at hdecode; cases hdecode
      | hashed _ hsalt => exact hsalt
      | hashedPassword _ hsalt => exact hsalt
    have hconfig : ensurePermanentPasswordSalt salt s.memory = s.memory := if_neg hold
    rw [hconfig] at hdecode ⊢
    exact ⟨.hashedPassword hdecode hold, h.file⟩
  case isFalse =>
    exact holds_store (.hashedPassword hdecode hsalt) storeNonce

theorem ConfigState.Holds.setPermanentPassword (password : String) (salt : AutoPassword) (nonce storeNonce : Nonce) :
    (s.setPermanentPassword env password salt nonce storeNonce).2.Holds env
      (localSecretAfter env secret (.setPermanentPassword password salt nonce storeNonce)) := by
  have hempty : decide (s.memory.password = "") = secret.isNone := by
    rw [Bool.eq_iff_iff, decide_eq_true_iff, h.memory.password_eq_empty_iff, Option.isNone_iff_eq_none]
  simp only [ConfigState.setPermanentPassword, localSecretAfter, hempty]
  by_cases hdisabled : env.disableChangePermanentPassword = true
  · simpa only [if_pos hdisabled] using h
  · by_cases hpreset : (presetPermanentPasswordStorageMatchesPlain env.crypto env.presetStorage
        env.presetSalt password && secret.isNone) = true
    · simpa only [if_neg hdisabled, if_pos hpreset] using h
    · simp only [if_neg hdisabled, if_neg hpreset]
      by_cases hpassword : password = ""
      · simp only [if_pos hpassword]
        by_cases hsame : "" = s.memory.password
        · simp only [if_pos hsame]
          exact ⟨.empty hsame.symm, h.file⟩
        · simp only [if_neg hsame]
          exact @ConfigState.holds_store env { s with memory := { s.memory with password := "" } } _
            (.empty rfl) storeNonce
      · obtain ⟨stored, hstored⟩ : ∃ stored, encodePermanentPasswordEncryptedStorageFromH1 env.crypto
            nonce (computePermanentPasswordH1 env.crypto password
              (ensurePermanentPasswordSalt salt s.memory).salt) = some stored :=
          ⟨_, encodePermanentPasswordEncryptedStorageFromH1_eq _ _ _⟩
        have hholds := holds_setPermanentPassword_hashed h salt nonce storeNonce hstored
        simp only [if_neg hpassword, hstored]
        split at hholds
        case isTrue hsame => simpa only [if_pos hsame] using hholds
        case isFalse hsame => simpa only [if_neg hsame] using hholds

theorem ConfigState.Holds.sync (storage salt : String) (nonce : Nonce) :
    (s.setPermanentPasswordStorageForSync env storage salt nonce).Holds env
      (localSecretAfter env secret (.sync storage salt nonce)) := by
  unfold setPermanentPasswordStorageForSync applyPermanentPasswordStorageForSync localSecretAfter
  by_cases hstorage : storage = ""
  · simp only [hstorage, if_true]
    by_cases hsame : (decide (s.memory.password = "") && (decide (salt = "") || decide (s.memory.salt = salt))) = true
    · rw [if_pos hsame]
      have hempty := of_decide_eq_true (and_eq_true_iff.mp hsame).1
      exact ⟨.empty hempty, h.file⟩
    · rw [if_neg hsame]
      exact holds_store (.empty rfl) nonce
  · simp only [hstorage, if_false]
    by_cases hsalt : salt = ""
    · simp only [hsalt, if_true]
      exact h
    · simp only [hsalt, if_false]
      cases hdecode : decodePermanentPasswordH1FromStorage env.crypto storage with
      | none => exact h
      | some h1 =>
        simp only [Option.isNone_some, false_eq_true, if_false]
        by_cases hsame : (decide (s.memory.password = storage) && decide (s.memory.salt = salt)) = true
        · rw [if_pos hsame]
          obtain ⟨hpassword, hsalts⟩ := and_eq_true_iff.mp hsame
          rw [← of_decide_eq_true hpassword] at hdecode
          rw [← of_decide_eq_true hsalts] at hsalt ⊢
          exact ⟨.hashed hdecode hsalt, h.file⟩
        · rw [if_neg hsame]
          exact holds_store (@hashed env.crypto { password := storage, salt := salt } _ hdecode hsalt) nonce

/-- Every operation keeps the secret that its abstract counterpart says. -/
theorem ConfigState.Holds.step (op : ConfigOp) : (s.step env op).Holds env (localSecretAfter env secret op) := by
  cases op with
  | setPermanentPassword password salt nonce storeNonce =>
    exact h.setPermanentPassword password salt nonce storeNonce
  | sync storage salt nonce => exact h.sync storage salt nonce
  | setSalt salt nonce => exact h.setSalt salt nonce
  | getSalt salt nonce => exact h.getSalt salt nonce
  | getEffectiveSalt salt nonce => exact h.getEffectiveSalt salt nonce
  | store nonce => exact holds_store h.memory nonce
  | load idRenewed => exact h.load idRenewed

end

/-- Every run keeps the secret that its operations say. -/
theorem ConfigState.Holds.run (ops : List ConfigOp) : ∀ {s : ConfigState} {secret : Option Secret}, s.Holds env secret →
      (runEvents (ConfigState.step env) s ops).Holds env (ops.foldl (localSecretAfter env) secret) := by
  induction ops with
  | nil => exact fun h => h
  | cons op ops ih => exact fun h => ih (h.step op)

/-- Housekeeping keeps the secret as it is. -/
theorem foldl_localSecretAfter_housekeeping (ops : List ConfigOp)
    (h : ∀ op ∈ ops, op.isHousekeeping = true) (secret : Option Secret) :
    ops.foldl (localSecretAfter env) secret = secret := by
  induction ops with
  | nil => rfl
  | cons op ops ih =>
    have hop : localSecretAfter env secret op = secret := by
      have hkind := h op List.mem_cons_self
      cases op with
      | setPermanentPassword _ _ _ _ => cases hkind
      | sync _ _ _ => cases hkind
      | setSalt _ _ | getSalt _ _ | getEffectiveSalt _ _ | store _ | load _ => rfl
    rw [List.foldl_cons, hop]
    exact ih fun op hmem => h op (List.mem_cons_of_mem _ hmem)

end Steps

end UnyDesk
