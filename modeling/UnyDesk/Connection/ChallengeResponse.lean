import UnyDesk.Config.Config
import UnyDesk.Connection.PasswordCheck

/-!
# The permanent-password exchange

The connection sends the effective salt and a challenge, the client answers with a hash, and
the answer is checked against the local storage or, without one, against the preset password.
The salt is chosen when the connection starts and the form of the check when the answer
arrives; they agree because memory holds one secret throughout.

Digests are short, so hash functions have collisions; the exchange is right as long as the few
texts that it hashes do not collide.
-/

namespace UnyDesk

open Lib ConfigState Utf8

variable {env : ConfigEnv}

/-- The permanent-password part of `validate_password`. -/
def permanentPasswordAccepts (env : ConfigEnv) (fields : PasswordFields) (hash : HashMsg) (response : Bytes) : Bool :=
  if fields.password ≠ "" then
    localPermanentPasswordStorageIsUsableForAuth env.crypto fields.password fields.salt
      && validatePasswordStorage env.crypto hash response fields.password
  else
    presetPermanentPasswordStorageIsUsableForAuth env.presetStorage env.presetSalt
      && validatePresetPasswordStorage env.crypto hash response env.presetStorage env.presetSalt

/-- A connection starts and a client answers with the given password. -/
def challengeAccepted (env : ConfigEnv) (s : ConfigState) (salt : AutoPassword) (nonce : Nonce)
    (challenge password : String) : Bool :=
  let (sent, s) := s.getEffectivePermanentPasswordSalt env salt nonce
  permanentPasswordAccepts env s.memory ⟨sent, challenge⟩ (clientResponse env.crypto ⟨sent, challenge⟩ password)

/-- The secret that a client has to know: the local one, or else the preset one. -/
def effectiveSecret (env : ConfigEnv) (localSecret : Option Secret) : Option Secret :=
  localSecret.or (presetSecret env)

/-- What is hashed when a password is compared with a secret. -/
def exchangeInputs (crypto : Crypto) (hash : HashMsg) (password : String) : Secret → List Bytes
  | .password text =>
    [Utf8.encode text ++ Utf8.encode hash.salt, Utf8.encode password ++ Utf8.encode hash.salt,
      (computePermanentPasswordH1 crypto text hash.salt).bytes ++ Utf8.encode hash.challenge,
      (computePermanentPasswordH1 crypto password hash.salt).bytes ++ Utf8.encode hash.challenge]
  | .digest h1 _ =>
    [h1.bytes ++ Utf8.encode hash.challenge,
      (computePermanentPasswordH1 crypto password hash.salt).bytes ++ Utf8.encode hash.challenge]

/-- The hash function has no collision among the given texts. -/
def CollisionFree (sha256 : Bytes → Digest) (inputs : List Bytes) : Prop :=
  ∀ a ∈ inputs, ∀ b ∈ inputs, sha256 a = sha256 b → a = b

instance (sha256 : Bytes → Digest) (inputs : List Bytes) : Decidable (CollisionFree sha256 inputs) :=
  inferInstanceAs (Decidable (∀ a ∈ inputs, ∀ b ∈ inputs, sha256 a = sha256 b → a = b))

theorem Digest.ext_bytes {a b : Digest} (h : a.bytes = b.bytes) : a = b := by
  cases a
  cases b
  cases h
  rfl

section Verify

variable {crypto : Crypto} {hash : HashMsg} {password text : String}

/-- Without a collision the response determines the digest it was made from. -/
theorem verifyH1_clientResponse_iff {h1 : Digest} {inputs : List Bytes} (hfree : CollisionFree crypto.sha256 inputs)
    (hstored : h1.bytes ++ encode hash.challenge ∈ inputs)
    (hsent : (computePermanentPasswordH1 crypto password hash.salt).bytes ++ encode hash.challenge ∈ inputs) :
    verifyH1 crypto hash (clientResponse crypto hash password) h1.bytes = true ↔
      computePermanentPasswordH1 crypto password hash.salt = h1 := by
  rw [verifyH1, decide_eq_true_iff]
  constructor
  · intro h
    have heq := hfree _ hstored _ hsent (Digest.ext_bytes h)
    exact (Digest.ext_bytes (List.append_cancel_right heq)).symm
  · intro h
    rw [← h]
    rfl

/-- Without a collision the digest determines the password. -/
theorem computePermanentPasswordH1_eq_iff
    (hfree : CollisionFree crypto.sha256 (exchangeInputs crypto hash password (.password text))) :
    computePermanentPasswordH1 crypto password hash.salt =
      computePermanentPasswordH1 crypto text hash.salt ↔ password = text := by
  constructor
  · intro h
    have heq := hfree (encode password ++ encode hash.salt) (by simp [exchangeInputs])
      (encode text ++ encode hash.salt) (by simp [exchangeInputs]) h
    exact encode_injective (List.append_cancel_right heq)
  · rintro rfl
    rfl

/-- A response is checked against a digest of a known password. -/
theorem verifyH1_password_iff
    (hfree : CollisionFree crypto.sha256 (exchangeInputs crypto hash password (.password text))) :
    verifyH1 crypto hash (clientResponse crypto hash password)
        (computePermanentPasswordH1 crypto text hash.salt).bytes = true ↔ password = text := by
  rw [verifyH1_clientResponse_iff hfree (by simp [exchangeInputs]) (by simp [exchangeInputs]),
    computePermanentPasswordH1_eq_iff hfree]

/-- A response is checked against a known plaintext. -/
theorem validatePasswordPlain_iff (htext : text ≠ "")
    (hfree : CollisionFree crypto.sha256 (exchangeInputs crypto hash password (.password text))) :
    validatePasswordPlain crypto hash (clientResponse crypto hash password) text = true ↔ password = text := by
  rw [validatePasswordPlain, if_neg htext]
  exact verifyH1_password_iff hfree

/-- A response is checked against a digest under the salt that was sent. -/
theorem verifyH1_digest_iff {h1 : Digest} {salt : String}
    (hfree : CollisionFree crypto.sha256 (exchangeInputs crypto hash password (.digest h1 salt)))
    (hsalt : hash.salt = salt) :
    verifyH1 crypto hash (clientResponse crypto hash password) h1.bytes = true ↔
      Secret.Matches crypto password (.digest h1 salt) := by
  rw [verifyH1_clientResponse_iff hfree (by simp [exchangeInputs]) (by simp [exchangeInputs]), hsalt]
  rfl

end Verify

section Local

variable {env : ConfigEnv} {s : ConfigState} {secret : Secret} {fields : PasswordFields}

/-- Storage that holds a secret is usable. -/
theorem FieldsHold.usable {crypto : Crypto} (h : FieldsHold crypto fields (some secret)) :
    localPermanentPasswordStorageIsUsableForAuth crypto fields.password fields.salt = true := by
  have hne : fields.password ≠ "" := by
    intro hempty
    cases h.password_eq_empty_iff.mp hempty
  have hhashed : ∀ {h1 : Digest}, decodePermanentPasswordH1FromStorage crypto fields.password = some h1 →
      fields.salt ≠ "" → localPermanentPasswordStorageIsUsableForAuth crypto fields.password fields.salt = true := by
    intro h1 hdecode hsalt
    simp [localPermanentPasswordStorageIsUsableForAuth, hne, hdecode, hsalt]
  cases h with
  | plain hplain =>
    simp [localPermanentPasswordStorageIsUsableForAuth, hne, hplain.decode_eq_none, hplain.not_current,
      decryptStrOrOriginal_of_not_isEncrypted hne hplain.not_encrypted]
  | hashed hdecode hsalt => exact hhashed hdecode hsalt
  | hashedPassword hdecode hsalt => exact hhashed hdecode hsalt

/-- The local check accepts exactly the kept secret, once the salt of memory was sent. -/
theorem FieldsHold.accepts_iff {hash : HashMsg} {password : String}
    (h : FieldsHold env.crypto fields (some secret)) (hsalt : hash.salt = fields.salt)
    (hfree : CollisionFree env.crypto.sha256 (exchangeInputs env.crypto hash password secret)) :
    permanentPasswordAccepts env fields hash (clientResponse env.crypto hash password) = true ↔
      secret.Matches env.crypto password := by
  have hne : fields.password ≠ "" := by
    intro hempty
    cases h.password_eq_empty_iff.mp hempty
  rw [permanentPasswordAccepts, if_pos hne, h.usable, Bool.true_and, validatePasswordStorage, if_neg hne]
  cases h with
  | plain hplain =>
    rw [hplain.decode_eq_none]
    exact validatePasswordPlain_iff hne hfree
  | hashed hdecode _ =>
    rw [hdecode]
    exact verifyH1_digest_iff hfree hsalt
  | hashedPassword hdecode _ =>
    rw [hdecode, ← hsalt]
    exact verifyH1_password_iff hfree

/-- Writing the configuration leaves memory as it is. -/
@[simp] theorem ConfigState.store_memory (nonce : Nonce) : (s.store env nonce).memory = s.memory := rfl

/-- A generated salt always becomes the salt of the configuration. -/
theorem ConfigState.getSalt_eq (salt : AutoPassword) (nonce : Nonce) :
    (s.getSalt env salt nonce).1 = (s.getSalt env salt nonce).2.memory.salt := by
  unfold getSalt
  split
  case isTrue hempty =>
    simp [setSalt, hempty, salt.text_ne_empty]
  case isFalse => rfl

/-- With a local secret the salt sent is the salt of memory. -/
theorem effectiveSalt_of_local (h : FieldsHold env.crypto s.memory (some secret)) (salt : AutoPassword)
    (nonce : Nonce) :
    s.getEffectivePermanentPasswordSalt env salt nonce = s.getSalt env salt nonce := by
  have hne : s.memory.password ≠ "" := by
    intro hempty
    cases h.password_eq_empty_iff.mp hempty
  rw [getEffectivePermanentPasswordSalt, if_pos hne, if_pos h.usable]

theorem ConfigState.getSalt_of_ne (hsalt : s.memory.salt ≠ "") (salt : AutoPassword) (nonce : Nonce) :
    s.getSalt env salt nonce = (s.memory.salt, s) := by
  rw [getSalt, if_neg hsalt]

/-- A restart loads what memory had, so the salt that is sent is the same before and after. -/
theorem ConfigState.Holds.salt_sent (h : s.Holds env (some secret)) (hsalt : s.memory.salt ≠ "") (salt : AutoPassword)
    (nonce : Nonce) :
    ((runEvents (ConfigState.step env) s [.load none, .getSalt salt nonce, .store nonce])
      |>.getEffectivePermanentPasswordSalt env salt nonce).1 = s.memory.salt := by
  have hloaded : (s.load env none).memory = s.memory := h.file
  have hread : (runEvents (ConfigState.step env) s [.load none, .getSalt salt nonce, .store nonce]).memory =
      s.memory := by
    change ((s.load env none).getSalt env salt nonce).2.memory = s.memory
    rw [ConfigState.getSalt_of_ne (by rwa [hloaded]), hloaded]
  have hheld : FieldsHold env.crypto
      (runEvents (ConfigState.step env) s [.load none, .getSalt salt nonce, .store nonce]).memory (some secret) := by
    rw [hread]
    exact h.memory
  rw [effectiveSalt_of_local hheld, ConfigState.getSalt_of_ne (by rwa [hread]), hread]

/-- Setting the salt does not touch the password in memory. -/
theorem ConfigState.getSalt_password (salt : AutoPassword) (nonce : Nonce) :
    (s.getSalt env salt nonce).2.memory.password = s.memory.password := by
  unfold getSalt setSalt
  split
  · split
    · rfl
    · split <;> rfl
  · rfl

end Local

section Preset

variable {env : ConfigEnv} {s : ConfigState}

/-- Choosing the salt does not touch the password in memory. -/
theorem effectiveSalt_password (salt : AutoPassword) (nonce : Nonce) :
    (s.getEffectivePermanentPasswordSalt env salt nonce).2.memory.password = s.memory.password := by
  unfold getEffectivePermanentPasswordSalt
  split
  · split
    · exact getSalt_password salt nonce
    · rfl
  · split
    · split <;> rfl
    · exact getSalt_password salt nonce

/-- Without local storage the check accepts exactly the preset secret, once its salt was sent. -/
theorem presetAccepts_iff {fields : PasswordFields} {hash : HashMsg} {password : String} (hempty : fields.password = "")
    (hsalt : (presetSecret env).isSome → env.presetSalt ≠ "" → hash.salt = env.presetSalt)
    (hfree : ∀ secret ∈ presetSecret env,
      CollisionFree env.crypto.sha256 (exchangeInputs env.crypto hash password secret)) :
    permanentPasswordAccepts env fields hash (clientResponse env.crypto hash password) = true ↔
      ∃ secret, presetSecret env = some secret ∧ secret.Matches env.crypto password := by
  rw [permanentPasswordAccepts, if_neg (not_not.mpr hempty)]
  by_cases hstorage : env.presetStorage = ""
  · simp [presetPermanentPasswordStorageIsUsableForAuth, presetSecret, hstorage]
  · by_cases hplain : env.presetSalt = ""
    · have hsecret : presetSecret env = some (.password env.presetStorage) := by
        simp [presetSecret, hstorage, hplain]
      have hcheck := validatePasswordPlain_iff hstorage (hfree _ hsecret)
      simp [presetPermanentPasswordStorageIsUsableForAuth, validatePresetPasswordStorage, hstorage,
        hplain, hcheck, hsecret, Secret.Matches]
    · cases hdecode : decodePresetPasswordH1FromStorage env.presetStorage with
      | none =>
        simp [presetPermanentPasswordStorageIsUsableForAuth, presetSecret, hstorage, hplain, hdecode]
      | some h1 =>
        have hsecret : presetSecret env = some (.digest h1 env.presetSalt) := by
          simp [presetSecret, hstorage, hplain, hdecode]
        have hcheck := verifyH1_digest_iff (hfree _ hsecret) (hsalt (by rw [hsecret]; rfl) hplain)
        simp [presetPermanentPasswordStorageIsUsableForAuth, validatePresetPasswordStorage, hstorage,
          hplain, hdecode, hcheck, hsecret]

/-- Without local storage the salt of a usable preset digest is the one sent. -/
theorem effectiveSalt_of_preset (hempty : s.memory.password = "") (salt : AutoPassword) (nonce : Nonce)
    (hsecret : (presetSecret env).isSome = true) (hsalt : env.presetSalt ≠ "") :
    (s.getEffectivePermanentPasswordSalt env salt nonce).1 = env.presetSalt := by
  have hstorage : env.presetStorage ≠ "" := by
    intro h
    simp [presetSecret, h] at hsecret
  have husable : presetPermanentPasswordStorageIsUsableForAuth env.presetStorage env.presetSalt = true := by
    simpa [presetSecret, presetPermanentPasswordStorageIsUsableForAuth, hstorage, hsalt] using hsecret
  simp [getEffectivePermanentPasswordSalt, hempty, hsalt, husable]

end Preset

/-- A configuration that holds a secret accepts exactly the effective one. -/
theorem challengeAccepted_iff {s : ConfigState} {localSecret : Option Secret}
    (h : s.Holds env localSecret) (salt : AutoPassword) (nonce : Nonce) (challenge password : String)
    (hfree : ∀ secret ∈ effectiveSecret env localSecret, CollisionFree env.crypto.sha256 (exchangeInputs env.crypto
        ⟨(s.getEffectivePermanentPasswordSalt env salt nonce).1, challenge⟩ password secret)) :
    challengeAccepted env s salt nonce challenge password = true ↔
      ∃ secret, effectiveSecret env localSecret = some secret ∧ secret.Matches env.crypto password := by
  unfold challengeAccepted
  cases localSecret with
  | none =>
    have hempty := h.memory.password_eq_empty_iff.mpr rfl
    have hafter : (s.getEffectivePermanentPasswordSalt env salt nonce).2.memory.password = "" := by
      rw [effectiveSalt_password, hempty]
    exact presetAccepts_iff hafter (fun hsecret hsalt =>
      effectiveSalt_of_preset hempty salt nonce hsecret hsalt) hfree
  | some secret =>
    have heffective : effectiveSecret env (some secret) = some secret := rfl
    have hchecked := @FieldsHold.accepts_iff env secret _
      ⟨(s.getEffectivePermanentPasswordSalt env salt nonce).1, challenge⟩ password
      (h.getEffectiveSalt salt nonce).memory
      (by rw [effectiveSalt_of_local h.memory]; exact getSalt_eq salt nonce)
      (hfree secret heffective)
    simpa [heffective] using hchecked

/-- A file of an older version: no password, or a plaintext stored as it is or encrypted. -/
inductive LegacyFile (crypto : Crypto) (file : PasswordFields) : Option Secret → Prop
  | empty (h : file.password = "") : LegacyFile crypto file none
  | plain {text : String} (htext : LegacyPlaintext crypto text) (h : file.password = text) :
      LegacyFile crypto file (some (.password text))
  | encrypted {text : String} (htext : LegacyPlaintext crypto text) (nonce : Nonce)
      (h : file.password = encryptStrOrOriginal crypto nonce text passwordEncVersion encryptMaxLen) :
      LegacyFile crypto file (some (.password text))

/-- A process that starts with a file of an older version holds its secret. -/
theorem LegacyFile.holds_start {file : PasswordFields} {secret : Option Secret}
    (h : LegacyFile env.crypto file secret) : (start env file).Holds env secret := by
  refine ⟨?_, rfl⟩
  change FieldsHold env.crypto (loadedFields env.crypto file) secret
  cases h with
  | empty h =>
    rw [(FieldsHold.empty h).loadedFields_eq]
    exact .empty h
  | plain htext h =>
    subst h
    rw [(FieldsHold.plain htext).loadedFields_eq]
    exact .plain htext
  | @encrypted text htext nonce h =>
    have hdecrypt : decryptStrOrOriginal env.crypto file.password passwordEncVersion = (text, true, false) := by
      rw [h, encryptStrOrOriginal_eq _ _ htext.not_encrypted htext.length_le htext.ne_empty,
        decryptStrOrOriginal_encode]
    rw [loadedFields_of_decrypted hdecrypt]
    exact @FieldsHold.plain env.crypto { file with password := text } htext

/-- The permanent-password exchange is right in every reachable configuration. From a file of
an older version, after any operations, the check accepts exactly the effective password; any
further storing, loading, reading or setting of the salt changes nothing. -/
theorem permanent_password_exchange (env : ConfigEnv) {file : PasswordFields}
    {initial : Option Secret} (hfile : LegacyFile env.crypto file initial)
    (ops idle : List ConfigOp) (hidle : ∀ op ∈ idle, op.isHousekeeping = true)
    (salt : AutoPassword) (nonce : Nonce) (challenge password : String) :
    let s := runEvents (ConfigState.step env) (ConfigState.start env file) (ops ++ idle)
    let secret := effectiveSecret env (ops.foldl (localSecretAfter env) initial)
    (∀ kept ∈ secret, CollisionFree env.crypto.sha256 (exchangeInputs env.crypto
        ⟨(s.getEffectivePermanentPasswordSalt env salt nonce).1, challenge⟩ password kept)) →
      (challengeAccepted env s salt nonce challenge password = true ↔
        ∃ kept, secret = some kept ∧ kept.Matches env.crypto password) := by
  intro s secret hfree
  have hholds : s.Holds env (ops.foldl (localSecretAfter env) initial) := by
    have hrun := hfile.holds_start.run (ops ++ idle)
    rwa [List.foldl_append, foldl_localSecretAfter_housekeeping idle hidle] at hrun
  exact challengeAccepted_iff hholds salt nonce challenge password hfree

/-- A generated salt for concrete runs. -/
def toySalt : AutoPassword where
  text := "abcdefghijkmnpqrstuvwxyz23456789"
  length_eq := by decide
  chars_mem := by
    have hall : "abcdefghijkmnpqrstuvwxyz23456789".toList.all (fun c => decide (c ∈ chars)) = true := by
      decide
    intro c hc
    exact of_decide_eq_true (List.all_eq_true.mp hall c hc)

/-- The state after a password was set. -/
def passwordSet : ConfigState :=
  runEvents (ConfigState.step { crypto := toyCrypto [1] }) (ConfigState.start { crypto := toyCrypto [1] } {})
    [.setPermanentPassword "pw" toySalt .zero .zero]

theorem passwordSet_salt : passwordSet.memory.salt = toySalt.text := by
  decide

theorem passwordSet_holds : passwordSet.Holds { crypto := toyCrypto [1] } (some (.password "pw")) :=
  (LegacyFile.empty rfl).holds_start.run [.setPermanentPassword "pw" toySalt .zero .zero]

/-- A password that was set survives a restart and a read of the salt. -/
theorem permanent_password_exchange_set : challengeAccepted { crypto := toyCrypto [1] }
      (runEvents (ConfigState.step { crypto := toyCrypto [1] }) (ConfigState.start { crypto := toyCrypto [1] } {})
        ([.setPermanentPassword "pw" toySalt .zero .zero] ++
          [.load none, .getSalt toySalt .zero, .store .zero])) toySalt .zero "c" "pw" = true := by
  refine (permanent_password_exchange { crypto := toyCrypto [1] } (.empty rfl)
    [.setPermanentPassword "pw" toySalt .zero .zero]
    [.load none, .getSalt toySalt .zero, .store .zero] (by decide) toySalt .zero "c" "pw" ?_).mpr
    ⟨.password "pw", rfl, rfl⟩
  intro kept hkept
  obtain rfl : Secret.password "pw" = kept := Option.some.inj hkept
  have hsent := passwordSet_holds.salt_sent (by rw [passwordSet_salt]; exact toySalt.text_ne_empty) toySalt .zero
  rw [passwordSet_salt, passwordSet, ← runEvents_append] at hsent
  rw [hsent]
  decide

/-- A plaintext of an older version with the shape of encrypted storage is treated as locked,
so the client that knows it is refused. -/
theorem encrypted_shape_plaintext_refused :
    "00AAAAAAAAAAAAAAAAAAAAAA==".length ≤ encryptMaxLen ∧
      challengeAccepted { crypto := toyCrypto [1] } (ConfigState.start { crypto := toyCrypto [1] }
          { password := "00AAAAAAAAAAAAAAAAAAAAAA==", salt := "s" }) toySalt .zero "c"
        "00AAAAAAAAAAAAAAAAAAAAAA==" = false := by
  decide

end UnyDesk
