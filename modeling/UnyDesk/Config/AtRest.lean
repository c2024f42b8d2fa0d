import UnyDesk.Config.Storage

/-!
# Secrets at rest

Fields that hold secrets are encrypted when a configuration is stored and decrypted when it is loaded, some as text
and some as bytes. Whether a value is encrypted already is told from its looks alone, so a secret that looks
encrypted is stored as it is. Every other secret within the limit is stored encrypted and comes back.
-/

namespace UnyDesk

open Lib Utf8 List
open String (ofList ofList_inj toList_inj toList_ofList length_toList)

/-- `is_encrypted`, for bytes. -/
def isEncryptedBytes (v : Bytes) : Bool :=
  if v.length ≤ versionLen || !(Utf8.encode "00").isPrefixOf v then false
  else match Base64.decodeBytes (v.drop versionLen) with
    | some decoded => macBytes ≤ decoded.length
    | none => false

/-- `decrypt`, for bytes. -/
def decryptBytes (crypto : Crypto) (v : Bytes) : Option Bytes :=
  if v ≠ [] then (Base64.decodeBytes v).bind (symmetricDecrypt crypto) else none

def encryptVecOrOriginal (crypto : Crypto) (nonce : Nonce) (v : Bytes) (version : String) (maxLen : ℕ) : Bytes :=
  if isEncryptedBytes v then v
  else if v.length > maxLen then []
  else if version = "00" then
    match encryptText crypto nonce v with
    | some encrypted => Utf8.encode version ++ Utf8.encode (String.ofList encrypted)
    | none => v
  else v

/-- The bytes, whether they were decrypted, and whether they should be stored again. -/
def decryptVecOrOriginal (crypto : Crypto) (v : Bytes) (currentVersion : String) : Bytes × Bool × Bool :=
  let version := Utf8.decodeLossy (v.take versionLen)
  let decrypted :=
    if v.length > versionLen && version = "00" then decryptBytes crypto (v.drop versionLen) else none
  match decrypted with
  | some data => (data, true, version != currentVersion)
  | none => (v, false, v != [] && !isEncryptedBytes v)

/-- `PeerConfig`, less the fields that are stored as they are. -/
structure PeerConfig where
  password : Bytes
  options : String → Option String

/-- The options of a peer that are secrets. -/
def secretOptions : List String := ["rdp_password", "os-username", "os-password"]

namespace PeerConfig

/-- `store_`: the contents of the file, with the nonces that were drawn for the password and the options. -/
def store_ (crypto : Crypto) (nonce : Nonce) (nonces : String → Nonce) (config : PeerConfig) : PeerConfig where
  password := encryptVecOrOriginal crypto nonce config.password passwordEncVersion encryptMaxLen
  options := fun opt =>
    if opt ∈ secretOptions then
      (config.options opt).map fun v => encryptStrOrOriginal crypto (nonces opt) v passwordEncVersion encryptMaxLen
    else config.options opt

/-- The configuration in a file, and whether it is stored again. -/
def loaded (crypto : Crypto) (file : PeerConfig) : PeerConfig × Bool :=
  let password := decryptVecOrOriginal crypto file.password passwordEncVersion
  let decrypt := fun v => decryptStrOrOriginal crypto v passwordEncVersion
  ({ password := password.1
     options := fun opt =>
       if opt ∈ secretOptions then (file.options opt).map fun v => (decrypt v).1 else file.options opt },
    password.2.2 || secretOptions.any fun opt => (file.options opt).any fun v => (decrypt v).2.2)

/-- `PeerConfig::load`: the configuration, and the file after it. -/
def load (crypto : Crypto) (nonce : Nonce) (nonces : String → Nonce) (file : PeerConfig) : PeerConfig × PeerConfig :=
  let (config, store) := loaded crypto file
  (config, if store then config.store_ crypto nonce nonces else file)

end PeerConfig

section Bytes

variable (crypto : Crypto)

/-- The first two bytes of a version are those of `00` only. -/
theorem decodeLossy_version : decodeLossy v = "00" ↔ v = encode "00" := by
  constructor
  · intro h
    rw [← h, encode_decodeLossy]
    rw [h]
    decide
  · rintro rfl
    exact decodeLossy_encode "00"

theorem isPrefixOf_version (v : Bytes) : (encode "00").isPrefixOf v = decide (v.take versionLen = encode "00") := by
  have hlength : (encode "00").length = versionLen := by decide
  rw [Bool.eq_iff_iff, isPrefixOf_iff_prefix, decide_eq_true_eq, ← hlength]
  exact prefix_iff_eq_take.trans eq_comm

/-- A text has the version exactly if its bytes have. -/
theorem startsWith_version (text : String) :
    startsWith text "00" = decide ((encode text).take versionLen = encode "00") := by
  rw [← isPrefixOf_version, startsWith, Bool.eq_iff_iff, isPrefixOf_iff_prefix, isPrefixOf_iff_prefix]
  constructor
  · rintro ⟨rest, hrest⟩
    refine ⟨encode (ofList rest), ?_⟩
    rw [← encode_append]
    exact congrArg encode (toList_inj.mp (by simpa using hrest))
  · exact prefix_of_encode_prefix

/-- What follows the version, as bytes. -/
theorem drop_version (h : startsWith text "00" = true) :
    (encode text).drop versionLen = encode (ofList (afterVersion text)) := by
  rw [startsWith, isPrefixOf_iff_prefix] at h
  obtain ⟨rest, hrest⟩ := h
  have htext : text = "00" ++ ofList rest := toList_inj.mp (by simpa using hrest.symm)
  have hafter : afterVersion text = rest := by
    rw [htext]
    exact afterVersion_append '0' rest
  have hlength : (encode "00").length = versionLen := by decide
  rw [hafter, htext, encode_append, ← hlength, drop_left]

/-- A text looks encrypted exactly if its bytes do. -/
theorem isEncryptedBytes_encode (text : String) : isEncryptedBytes (encode text) = isEncrypted text := by
  rw [isEncryptedBytes, isEncrypted, isPrefixOf_version, ← startsWith_version]
  cases hstart : startsWith text "00" with
  | false => simp
  | true =>
    rw [drop_version hstart, Base64.decodeBytes_encode, toList_ofList]
    rfl

theorem decryptBytes_encode (text : List Char) : decryptBytes crypto (encode (ofList text)) = decryptText crypto text := by
  have hempty : encode (ofList text) ≠ [] ↔ text ≠ [] := by
    have hnil : encode (ofList []) = [] := rfl
    rw [← hnil, encode_injective.ne_iff, ne_eq, ofList_inj]
  rw [decryptBytes, decryptText, Base64.decodeBytes_encode, toList_ofList]
  by_cases hnil : text = []
  · rw [if_neg (fun h => hempty.mp h hnil), if_neg (fun h => h hnil)]
  · rw [if_pos (hempty.mpr hnil), if_pos hnil]

/-- Decrypting a text is decrypting its bytes and reading the outcome. -/
theorem decryptStrOrOriginal_eq (text currentVersion : String) : decryptStrOrOriginal crypto text currentVersion =
      (decodeLossy (decryptVecOrOriginal crypto (encode text) currentVersion).1,
        (decryptVecOrOriginal crypto (encode text) currentVersion).2) := by
  have hempty : (text != "") = (encode text != []) := by
    rw [Bool.eq_iff_iff, bne_iff_ne, bne_iff_ne]
    exact not_congr encode_injective.eq_iff.symm
  unfold decryptStrOrOriginal decryptVecOrOriginal
  dsimp only
  rw [isEncryptedBytes_encode, ← hempty]
  simp only [decodeLossy_version]
  rw [← startsWith_version]
  have hlength : (encode text).length = byteLen text := rfl
  rw [hlength]
  cases hstart : startsWith text "00" with
  | false => simp
  | true =>
    have hversion : decodeLossy ((encode text).take versionLen) = "00" := by
      rw [startsWith_version, decide_eq_true_eq] at hstart
      rw [hstart, decodeLossy_encode]
    rw [drop_version hstart, decryptBytes_encode, hversion]
    generalize (if (decide (byteLen text > versionLen) && true) = true then decryptText crypto (afterVersion text) else none) =
      decrypted
    cases decrypted with
    | none => simp
    | some data => rfl

/-- Where the limit is not between its characters and its bytes, a text is encrypted as its bytes are. -/
theorem encode_encryptStrOrOriginal (nonce : Nonce) (version : String)
    (h : isEncrypted text = true ∨ maxLen < text.length ∨ byteLen text ≤ maxLen) :
    encode (encryptStrOrOriginal crypto nonce text version maxLen) =
      encryptVecOrOriginal crypto nonce (encode text) version maxLen := by
  have hchars : text.length ≤ (encode text).length := by
    rw [← length_toList]
    exact length_le_length_encode text
  have hlimit : isEncrypted text = false → (text.length > maxLen ↔ (encode text).length > maxLen) := by
    intro hplain
    rcases h with hlooks | hlong | hshort
    · exact Bool.noConfusion (hlooks.symm.trans hplain)
    · omega
    · have hbytes : (encode text).length ≤ maxLen := hshort
      omega
  rw [encryptStrOrOriginal, encryptVecOrOriginal, isEncryptedBytes_encode]
  cases hlooks : isEncrypted text with
  | true => rfl
  | false =>
    by_cases hlong : text.length > maxLen
    · rw [if_neg Bool.false_ne_true, if_neg Bool.false_ne_true, if_pos hlong, if_pos ((hlimit hlooks).mp hlong)]
      rfl
    · rw [if_neg Bool.false_ne_true, if_neg Bool.false_ne_true, if_neg hlong, if_neg fun hbytes => hlong ((hlimit hlooks).mpr hbytes)]
      by_cases hversion : version = "00"
      · rw [if_pos hversion, if_pos hversion]
        cases encryptText crypto nonce (encode text) with
        | none => rfl
        | some encrypted => exact encode_append _ _
      · rw [if_neg hversion, if_neg hversion]

/-- A value that encryption leaves as it is: one that looks encrypted, or nothing. -/
def Sealed (text : String) : Prop := isEncrypted text = true ∨ text = ""

def SealedBytes (v : Bytes) : Prop := isEncryptedBytes v = true ∨ v = []

variable {crypto} {nonce : Nonce} {maxLen : ℕ} {text : String} {v : Bytes}

theorem sealed_encryptStrOrOriginal (text : String) :
    Sealed (encryptStrOrOriginal crypto nonce text passwordEncVersion maxLen) := by
  by_cases hlooks : isEncrypted text = true
  · rw [encryptStrOrOriginal, if_pos hlooks]
    exact .inl hlooks
  · by_cases hlong : text.length > maxLen
    · rw [encryptStrOrOriginal, if_neg hlooks, if_pos hlong]
      exact .inr rfl
    · by_cases hempty : text = ""
      · rw [encryptStrOrOriginal, if_neg hlooks, if_neg hlong, hempty]
        exact .inr rfl
      · rw [encryptStrOrOriginal_eq crypto nonce (Bool.eq_false_iff.mpr hlooks) (Nat.not_lt.mp hlong) hempty]
        refine .inl (isEncrypted_encode _ ?_)
        rw [length_symmetricEncrypt]
        omega

theorem Sealed.encrypt (h : Sealed text) :
    encryptStrOrOriginal crypto nonce text passwordEncVersion maxLen = text := by
  rcases h with hlooks | rfl
  · rw [encryptStrOrOriginal, if_pos hlooks]
  · rfl

theorem Sealed.decrypt (h : Sealed text) :
    (decryptStrOrOriginal crypto text passwordEncVersion).2.2 = false := by
  unfold decryptStrOrOriginal
  extract_lets decrypted
  cases decrypted with
  | some data => rfl
  | none =>
    rcases h with hlooks | rfl
    · simp [hlooks]
    · rfl

/-- A secret within the limit that does not look encrypted is stored encrypted, and comes back. -/
theorem decrypt_encryptStrOrOriginal (hplain : isEncrypted text = false) (hlength : text.length ≤ maxLen) :
    decryptStrOrOriginal crypto (encryptStrOrOriginal crypto nonce text passwordEncVersion maxLen) passwordEncVersion =
      (text, text != "", false) := by
  by_cases hempty : text = ""
  · rw [hempty, Sealed.encrypt (.inr rfl)]
    rfl
  · rw [encryptStrOrOriginal_eq crypto nonce hplain hlength hempty, decryptStrOrOriginal_encode]
    simp [hempty]

theorem encryptVecOrOriginal_eq (hplain : isEncryptedBytes v = false) (hlength : v.length ≤ maxLen)
    (hne : v ≠ []) :
    encryptVecOrOriginal crypto nonce v passwordEncVersion maxLen =
      encode (passwordEncVersion ++ ofList (Base64.encode (symmetricEncrypt crypto nonce v))) := by
  rw [encryptVecOrOriginal, hplain, if_neg Bool.false_ne_true, if_neg (Nat.not_lt.mpr hlength),
    if_pos (show passwordEncVersion = "00" from rfl), encryptText, if_pos hne, encode_append]

/-- What was encrypted on this machine is decrypted on it. -/
theorem decryptVecOrOriginal_encode (v : Bytes) : decryptVecOrOriginal crypto
        (encode (passwordEncVersion ++ ofList (Base64.encode (symmetricEncrypt crypto nonce v)))) passwordEncVersion =
      (v, true, false) := by
  have hbody := encode_symmetricEncrypt_ne_nil crypto nonce v
  have hlong := versionLen_lt_byteLen '0' hbody
  have hafter := afterVersion_append '0' (Base64.encode (symmetricEncrypt crypto nonce v))
  change versionLen < (encode (passwordEncVersion ++ _)).length at hlong
  change afterVersion (passwordEncVersion ++ _) = _ at hafter
  have hstart : startsWith (passwordEncVersion ++ ofList (Base64.encode (symmetricEncrypt crypto nonce v))) "00" =
      true := startsWith_append _ _
  have hversion := hstart
  rw [startsWith_version, decide_eq_true_eq] at hversion
  have hdecrypt : decryptText crypto (Base64.encode (symmetricEncrypt crypto nonce v)) = some v := by
    rw [decryptText, if_pos hbody, Base64.decode_encode, Option.bind_some, symmetricDecrypt_symmetricEncrypt]
  unfold decryptVecOrOriginal
  rw [hversion, drop_version hstart, hafter, decryptBytes_encode, hdecrypt, decodeLossy_encode]
  simp only [hlong, decide_true, Bool.and_self, if_true]
  rfl

theorem sealedBytes_encryptVecOrOriginal (v : Bytes) :
    SealedBytes (encryptVecOrOriginal crypto nonce v passwordEncVersion maxLen) := by
  by_cases hlooks : isEncryptedBytes v = true
  · rw [encryptVecOrOriginal, if_pos hlooks]
    exact .inl hlooks
  · by_cases hlong : v.length > maxLen
    · rw [encryptVecOrOriginal, if_neg hlooks, if_pos hlong]
      exact .inr rfl
    · by_cases hempty : v = []
      · rw [encryptVecOrOriginal, if_neg hlooks, if_neg hlong, hempty]
        exact .inr rfl
      · rw [encryptVecOrOriginal_eq (Bool.eq_false_iff.mpr hlooks) (Nat.not_lt.mp hlong) hempty]
        refine .inl ?_
        rw [isEncryptedBytes_encode]
        refine isEncrypted_encode _ ?_
        rw [length_symmetricEncrypt]
        omega

theorem SealedBytes.encrypt (h : SealedBytes v) :
    encryptVecOrOriginal crypto nonce v passwordEncVersion maxLen = v := by
  rcases h with hlooks | rfl
  · rw [encryptVecOrOriginal, if_pos hlooks]
  · rfl

theorem SealedBytes.decrypt (h : SealedBytes v) :
    (decryptVecOrOriginal crypto v passwordEncVersion).2.2 = false := by
  unfold decryptVecOrOriginal
  extract_lets version decrypted
  cases hdecrypted : decrypted with
  | some data =>
    have hversion : version = "00" := by
      by_contra hother
      have hnone : decrypted = none := if_neg (by simp [hother])
      exact nomatch hnone.symm.trans hdecrypted
    rw [hversion]
    rfl
  | none =>
    rcases h with hlooks | rfl
    · simp [hlooks]
    · rfl

theorem decrypt_encryptVecOrOriginal (hplain : isEncryptedBytes v = false) (hlength : v.length ≤ maxLen) :
    decryptVecOrOriginal crypto (encryptVecOrOriginal crypto nonce v passwordEncVersion maxLen) passwordEncVersion =
      (v, v != [], false) := by
  by_cases hempty : v = []
  · rw [hempty, SealedBytes.encrypt (.inr rfl)]
    rfl
  · rw [encryptVecOrOriginal_eq hplain hlength hempty, decryptVecOrOriginal_encode]
    simp [hempty]

end Bytes

/-- What becomes of a text that is encrypted under the limit: it comes back and is not stored in clear, unless it
looks encrypted; it is encrypted once, and what was stored is not stored again when it is loaded. -/
structure TextAtRest (crypto : Crypto) (nonce : Nonce) (maxLen : ℕ) (text : String) : Prop where
  back : isEncrypted text = false ∨ decryptText crypto (afterVersion text) = none →
    (decryptStrOrOriginal crypto (encryptStrOrOriginal crypto nonce text passwordEncVersion maxLen) passwordEncVersion).1 = text
  hidden : isEncrypted text = false → text ≠ "" →
    encryptStrOrOriginal crypto nonce text passwordEncVersion maxLen ≠ text ∧
      (decryptStrOrOriginal crypto (encryptStrOrOriginal crypto nonce text passwordEncVersion maxLen)
        passwordEncVersion).2.1 = true
  kept : isEncrypted text = true → encryptStrOrOriginal crypto nonce text passwordEncVersion maxLen = text
  once : ∀ nonce', encryptStrOrOriginal crypto nonce' (encryptStrOrOriginal crypto nonce text passwordEncVersion maxLen)
    passwordEncVersion maxLen = encryptStrOrOriginal crypto nonce text passwordEncVersion maxLen
  settled : (decryptStrOrOriginal crypto (encryptStrOrOriginal crypto nonce text passwordEncVersion maxLen)
    passwordEncVersion).2.2 = false

/-- The same of bytes. -/
structure BytesAtRest (crypto : Crypto) (nonce : Nonce) (maxLen : ℕ) (v : Bytes) : Prop where
  back : isEncryptedBytes v = false ∨ decryptBytes crypto (v.drop versionLen) = none →
    (decryptVecOrOriginal crypto (encryptVecOrOriginal crypto nonce v passwordEncVersion maxLen) passwordEncVersion).1 = v
  hidden : isEncryptedBytes v = false → v ≠ [] → encryptVecOrOriginal crypto nonce v passwordEncVersion maxLen ≠ v ∧
      (decryptVecOrOriginal crypto (encryptVecOrOriginal crypto nonce v passwordEncVersion maxLen)
        passwordEncVersion).2.1 = true
  kept : isEncryptedBytes v = true → encryptVecOrOriginal crypto nonce v passwordEncVersion maxLen = v
  once : ∀ nonce', encryptVecOrOriginal crypto nonce' (encryptVecOrOriginal crypto nonce v passwordEncVersion maxLen)
    passwordEncVersion maxLen = encryptVecOrOriginal crypto nonce v passwordEncVersion maxLen
  settled : (decryptVecOrOriginal crypto (encryptVecOrOriginal crypto nonce v passwordEncVersion maxLen)
    passwordEncVersion).2.2 = false

section AtRest

variable {crypto : Crypto} {nonce : Nonce} {maxLen : ℕ}

theorem textAtRest {text : String} (hlength : text.length ≤ maxLen) : TextAtRest crypto nonce maxLen text := by
  have hsealed := @sealed_encryptStrOrOriginal crypto nonce maxLen text
  refine ⟨?_, ?_, fun hlooks => Sealed.encrypt (.inl hlooks), fun nonce' => hsealed.encrypt, hsealed.decrypt⟩
  · intro h
    cases hlooks : isEncrypted text with
    | false => rw [decrypt_encryptStrOrOriginal hlooks hlength]
    | true =>
      have hnone : decryptText crypto (afterVersion text) = none := by
        rcases h with hplain | hnone
        · exact Bool.noConfusion (hplain.symm.trans hlooks)
        · exact hnone
      rw [Sealed.encrypt (.inl hlooks)]
      simp [decryptStrOrOriginal, hnone]
  · intro hplain hne
    refine ⟨fun heq => ?_, ?_⟩
    · rcases heq ▸ hsealed with hlooks | hempty
      · exact Bool.noConfusion (hplain.symm.trans hlooks)
      · exact hne hempty
    · rw [decrypt_encryptStrOrOriginal hplain hlength]
      simpa using hne

theorem bytesAtRest {v : Bytes} (hlength : v.length ≤ maxLen) : BytesAtRest crypto nonce maxLen v := by
  have hsealed := @sealedBytes_encryptVecOrOriginal crypto nonce maxLen v
  refine ⟨?_, ?_, fun hlooks => SealedBytes.encrypt (.inl hlooks), fun nonce' => hsealed.encrypt, hsealed.decrypt⟩
  · intro h
    cases hlooks : isEncryptedBytes v with
    | false => rw [decrypt_encryptVecOrOriginal hlooks hlength]
    | true =>
      have hnone : decryptBytes crypto (v.drop versionLen) = none := by
        rcases h with hplain | hnone
        · exact Bool.noConfusion (hplain.symm.trans hlooks)
        · exact hnone
      rw [SealedBytes.encrypt (.inl hlooks)]
      simp [decryptVecOrOriginal, hnone]
  · intro hplain hne
    refine ⟨fun heq => ?_, ?_⟩
    · rcases heq ▸ hsealed with hlooks | hempty
      · exact Bool.noConfusion (hplain.symm.trans hlooks)
      · exact hne hempty
    · rw [decrypt_encryptVecOrOriginal hplain hlength]
      simpa using hne

/-- What was stored for a peer is not stored again when it is loaded. -/
theorem PeerConfig.loaded_store_ (config : PeerConfig) (nonces : String → Nonce) :
    (loaded crypto (config.store_ crypto nonce nonces)).2 = false := by
  have hpassword : (decryptVecOrOriginal crypto _ passwordEncVersion).2.2 = false :=
    (@sealedBytes_encryptVecOrOriginal crypto nonce encryptMaxLen config.password).decrypt
  unfold loaded
  rw [Bool.or_eq_false_iff]
  refine ⟨hpassword, ?_⟩
  rw [any_eq_false]
  intro opt hopt
  have hstored : (config.store_ crypto nonce nonces).options opt =
      (config.options opt).map fun v => encryptStrOrOriginal crypto (nonces opt) v passwordEncVersion encryptMaxLen :=
    if_pos hopt
  rw [hstored]
  cases config.options opt with
  | none => simp
  | some v =>
    have hsettled : (decryptStrOrOriginal crypto _ passwordEncVersion).2.2 = false :=
      (@sealed_encryptStrOrOriginal crypto (nonces opt) encryptMaxLen v).decrypt
    simp [hsettled]

/-- Loading a peer once settles its file. -/
theorem PeerConfig.loaded_load (file : PeerConfig) (nonces : String → Nonce) :
    (loaded crypto (load crypto nonce nonces file).2).2 = false := by
  rw [load]
  dsimp only
  cases hstore : (loaded crypto file).2 with
  | true => exact loaded_store_ (loaded crypto file).1 nonces
  | false => exact hstore

/-- The secrets of a peer come back from its file. -/
theorem PeerConfig.loaded_store_eq {config : PeerConfig}
    (hpassword : isEncryptedBytes config.password = false ∧ config.password.length ≤ encryptMaxLen)
    (hoptions : ∀ opt ∈ secretOptions, ∀ v ∈ config.options opt, isEncrypted v = false ∧ v.length ≤ encryptMaxLen)
    (nonces : String → Nonce) : (loaded crypto (config.store_ crypto nonce nonces)).1 = config := by
  have hback := @decrypt_encryptVecOrOriginal crypto nonce encryptMaxLen _ hpassword.1 hpassword.2
  have hopts : (loaded crypto (config.store_ crypto nonce nonces)).1.options = config.options := by
    funext opt
    by_cases hopt : opt ∈ secretOptions
    · simp only [loaded, store_, if_pos hopt, Option.map_map]
      cases hv : config.options opt with
      | none => rfl
      | some v =>
        obtain ⟨hplain, hlength⟩ := hoptions opt hopt v hv
        have htext := @decrypt_encryptStrOrOriginal crypto (nonces opt) encryptMaxLen v hplain hlength
        exact congrArg some (congrArg Prod.fst htext)
    · simp only [loaded, store_, if_neg hopt]
  obtain ⟨password, options⟩ := config
  simp only [loaded, store_, PeerConfig.mk.injEq]
  exact ⟨congrArg Prod.fst hback, hopts⟩

end AtRest

/-- Secrets at rest: a text or bytes within the limit come back from what is stored of them and are not stored in
clear, unless they look encrypted and are stored as they are; encryption is done once, and stored values settle.
Text is encrypted as its bytes are, except where the limit lies between its characters and its bytes, and decrypting
it is decrypting its bytes and reading them as text. Loading a peer settles its file, and storing it loses nothing. -/
theorem secrets_at_rest (crypto : Crypto) (nonce : Nonce) (maxLen : ℕ) :
    (∀ text : String, text.length ≤ maxLen → TextAtRest crypto nonce maxLen text) ∧
      (∀ v : Bytes, v.length ≤ maxLen → BytesAtRest crypto nonce maxLen v) ∧
      (∀ text : String, ¬ (isEncrypted text = false ∧ text.length ≤ maxLen ∧ maxLen < byteLen text) →
        Utf8.encode (encryptStrOrOriginal crypto nonce text passwordEncVersion maxLen) =
          encryptVecOrOriginal crypto nonce (Utf8.encode text) passwordEncVersion maxLen) ∧
      (∀ text : String, decryptStrOrOriginal crypto text passwordEncVersion =
        (Utf8.decodeLossy (decryptVecOrOriginal crypto (Utf8.encode text) passwordEncVersion).1,
          (decryptVecOrOriginal crypto (Utf8.encode text) passwordEncVersion).2)) ∧
      ∀ nonces : String → Nonce,
        (∀ file : PeerConfig, (PeerConfig.loaded crypto (PeerConfig.load crypto nonce nonces file).2).2 = false) ∧
        ∀ config : PeerConfig, isEncryptedBytes config.password = false ∧ config.password.length ≤ encryptMaxLen →
          (∀ opt ∈ secretOptions, ∀ v ∈ config.options opt, isEncrypted v = false ∧ v.length ≤ encryptMaxLen) →
          PeerConfig.loaded crypto (config.store_ crypto nonce nonces) = (config, false) := by
  refine ⟨fun text => textAtRest, fun v => bytesAtRest, fun text h => ?_,
    fun text => decryptStrOrOriginal_eq crypto text passwordEncVersion, fun nonces => ⟨fun file => file.loaded_load nonces,
      fun config hpassword hoptions =>
        Prod.ext (PeerConfig.loaded_store_eq hpassword hoptions nonces) (config.loaded_store_ nonces)⟩⟩
  refine encode_encryptStrOrOriginal crypto nonce passwordEncVersion ?_
  by_contra hnone
  rw [not_or, not_or] at hnone
  exact h ⟨Bool.eq_false_iff.mpr hnone.1, Nat.not_lt.mp hnone.2.1, Nat.not_le.mp hnone.2.2⟩

/-- A machine for concrete runs. -/
def sampleMachine : Crypto :=
  { sha256 := fun _ => ⟨replicate 32 0, by decide⟩, box := tagBox, machine := ⟨[7], none⟩ }

/-- An ordinary secret. -/
theorem secrets_at_rest_secret : TextAtRest sampleMachine .zero encryptMaxLen "secret" :=
  (secrets_at_rest sampleMachine .zero encryptMaxLen).1 "secret" (by decide)

/-- A secret of the version and sixteen bytes in Base64 is stored in clear, and one of a character of two bytes is
stored as text only when one character is the limit. -/
theorem secret_that_looks_encrypted_stored_in_clear :
    "00AAAAAAAAAAAAAAAAAAAAAA==".length ≤ encryptMaxLen ∧
      encryptStrOrOriginal sampleMachine .zero "00AAAAAAAAAAAAAAAAAAAAAA==" passwordEncVersion encryptMaxLen =
        "00AAAAAAAAAAAAAAAAAAAAAA==" ∧
      (decryptStrOrOriginal sampleMachine "00AAAAAAAAAAAAAAAAAAAAAA==" passwordEncVersion).2.1 = false ∧
      "é".length ≤ 1 ∧ encryptStrOrOriginal sampleMachine .zero "é" passwordEncVersion 1 ≠ "" ∧
      encryptVecOrOriginal sampleMachine .zero (Utf8.encode "é") passwordEncVersion 1 = [] := by
  decide

end UnyDesk
