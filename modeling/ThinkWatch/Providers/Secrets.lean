import ThinkWatch.Lib.Hex
import ThinkWatch.Lib.KeyedList
import ThinkWatch.Policy.Document

/-!
# The secrets of a provider

`crates/common/src/crypto.rs` and `json_secret.rs`, and how `handlers/providers.rs` stores the
headers and the AWS secret of a provider, reads them out for the admin and takes them back from the
form. AES-256-GCM, and what the libraries say of a text they refuse, are parameters.
-/

namespace ThinkWatch.Providers

open Lib
open Policy (Json)

structure Crates where
  aesEncrypt (key nonce plaintext : List UInt8) : Option (List UInt8)
  aesDecrypt (key nonce ciphertext : List UInt8) : Option (List UInt8)
  decrypt_encrypt : ∀ key nonce plaintext ciphertext,
    aesEncrypt key nonce plaintext = some ciphertext →
      aesDecrypt key nonce ciphertext = some plaintext
  hexError : String → String
  utf8Error : List UInt8 → String

abbrev Nonce := { bytes : List UInt8 // bytes.length = 12 }

abbrev EncryptionKey := { bytes : List UInt8 // bytes.length = 32 }

variable (C : Crates)

/-! ## The envelope -/

def envelopeMagic : List UInt8 := [0xfe, 0x54, 0x57, 0x01]

def currentKeyVersion : UInt8 := 1

/-- Magic, version, nonce, and what was encrypted. -/
def encrypt (nonce : Nonce) (plaintext : List UInt8) (key : EncryptionKey) :
    Except String (List UInt8) := do
  let ciphertext ← orRefuse (C.aesEncrypt key.1 nonce.1 plaintext) "Encryption failed: aead::Error"
  return envelopeMagic ++ currentKeyVersion :: (nonce.1 ++ ciphertext)

def decrypt (encrypted : List UInt8) (key : EncryptionKey) : Except String (List UInt8) := do
  refuseIf (encrypted.length < 4 + 1 + 12) "Ciphertext too short"
  refuseIf (encrypted.take 4 ≠ envelopeMagic)
    "Unrecognized ciphertext format (missing envelope magic)"
  let version := encrypted.getD 4 0
  refuseIf (version ≠ 1)
    ("Unknown ciphertext version: " ++ toString version.toNat ++ " (max supported: 1)")
  orRefuse (C.aesDecrypt key.1 ((encrypted.drop 5).take 12) (encrypted.drop 17))
    "Decryption failed: aead::Error"

theorem decrypt_encrypt {nonce : Nonce} {plaintext encrypted : List UInt8} {key : EncryptionKey}
    (h : encrypt C nonce plaintext key = .ok encrypted) :
    decrypt C encrypted key = .ok plaintext := by
  obtain ⟨ciphertext, hencrypt, h⟩ := bind_ok.mp h
  obtain rfl := pure_ok.mp h
  have hlen : ¬ (envelopeMagic ++ currentKeyVersion :: (nonce.1 ++ ciphertext)).length <
      4 + 1 + 12 := by
    have hnonce := nonce.2
    simp only [envelopeMagic, List.length_append, List.length_cons, List.length_nil, hnonce]
    omega
  have hdrop : ((envelopeMagic ++ currentKeyVersion :: (nonce.1 ++ ciphertext)).drop 5).take 12 =
      nonce.1 := List.take_left' nonce.2
  have hrest : (envelopeMagic ++ currentKeyVersion :: (nonce.1 ++ ciphertext)).drop 17 =
      ciphertext := List.drop_left' nonce.2
  refine refuseIf_bind_ok.mpr ⟨hlen, refuseIf_bind_ok.mpr ⟨fun hmagic => hmagic rfl, ?_⟩⟩
  refine refuseIf_bind_ok.mpr ⟨fun hversion => hversion rfl, ?_⟩
  rw [hdrop, hrest, C.decrypt_encrypt _ _ _ _ (orRefuse_ok.mp hencrypt)]
  rfl

/-- Sixty-four digits. -/
def parseEncryptionKey (hexKey : String) : Except String EncryptionKey :=
  match readHex hexKey.toList with
  | none => .error (C.hexError hexKey)
  | some bytes =>
    if h : bytes.length = 32 then .ok ⟨bytes, h⟩
    else .error ("Encryption key must be 32 bytes (64 hex chars), got " ++ toString bytes.length ++
      " bytes")

/-! ## A secret in a JSON value -/

inductive JsonSecret where
  | encrypted (hex : String)
  | empty
deriving DecidableEq, Repr

def encMarker : String := "$enc"

namespace JsonSecret

/-- `from_json`: a bare text that is not empty is refused. -/
def fromJson (value : Json) : Except AppError JsonSecret :=
  match (value.get encMarker).bind Json.asStr with
  | some hex => .ok (.encrypted hex)
  | none =>
    match value.asStr with
    | none => .ok .empty
    | some s =>
      if s = "" then .ok .empty
      else .error (.internal
        "config_json secret is a bare string; expected `\x7b\"$enc\":...\x7d` or null")

/-- Nothing is encrypted if there is nothing to. -/
def encrypt (nonce : Nonce) (plaintext encryptionKey : String) : Except AppError JsonSecret :=
  if plaintext = "" then .ok .empty
  else do
    let key ← (parseEncryptionKey C encryptionKey).mapError
      fun e => AppError.internal ("Invalid encryption key: " ++ e)
    let bytes ← (Providers.encrypt C nonce plaintext.toUTF8.data.toList key).mapError
      fun e => AppError.internal ("Secret encrypt failed: " ++ e)
    return .encrypted (String.ofList (hexBytes bytes))

def decrypt (secret : JsonSecret) (encryptionKey : String) : Except AppError String :=
  match secret with
  | .empty => .ok ""
  | .encrypted hex => do
    let bytes ← orRefuse (readHex hex.toList)
      (AppError.internal ("Secret hex decode failed: " ++ C.hexError hex))
    let key ← (parseEncryptionKey C encryptionKey).mapError
      fun e => AppError.internal ("Invalid encryption key: " ++ e)
    let plain ← (Providers.decrypt C bytes key).mapError
      fun e => AppError.internal ("Secret decrypt failed: " ++ e)
    orRefuse (String.fromUTF8? ⟨plain.toArray⟩)
      (AppError.internal ("Secret is not valid UTF-8: " ++ C.utf8Error plain))

def toJson : JsonSecret → Json
  | .encrypted hex => .obj [(encMarker, .str hex)]
  | .empty => .str ""

def jsonIsEncrypted (value : Json) : Bool := (value.get encMarker).isSome

end JsonSecret

open JsonSecret (jsonIsEncrypted)

def encryptSecretToJson (nonce : Nonce) (plaintext encryptionKey : String) : Except AppError Json :=
  (JsonSecret.encrypt C nonce plaintext encryptionKey).map JsonSecret.toJson

def decryptSecretFromJson (value : Json) (encryptionKey : String) : Except AppError String := do
  let secret ← JsonSecret.fromJson value
  secret.decrypt C encryptionKey

/-! ## What is stored can be read -/

theorem mapError_ok {ε ε' α : Type} {x : Except ε α} {f : ε → ε'} {a : α} :
    x.mapError f = .ok a ↔ x = .ok a := by
  cases x with
  | error e => exact iff_of_false nofun nofun
  | ok b =>
    constructor
    · intro h
      exact congrArg Except.ok (Except.ok.inj h)
    · intro h
      exact congrArg Except.ok (Except.ok.inj h)

theorem map_ok {ε α β : Type} {x : Except ε α} {f : α → β} {b : β} :
    x.map f = .ok b ↔ ∃ a, x = .ok a ∧ f a = b := by
  cases x with
  | error e => exact iff_of_false nofun nofun
  | ok a =>
    constructor
    · intro h
      exact ⟨a, rfl, Except.ok.inj h⟩
    · rintro ⟨a', h, rfl⟩
      cases h
      rfl

theorem fromUTF8_toUTF8 (s : String) :
    String.fromUTF8? ⟨s.toUTF8.data.toList.toArray⟩ = some s := by
  rw [Array.toArray_toList]
  exact dif_pos s.isValidUTF8

/-- The shape of a stored secret. -/
def IsStored (v : Json) : Prop := v = .str "" ∨ ∃ hex, v = .obj [(encMarker, .str hex)]

variable {C} {nonce : Nonce} {plaintext encryptionKey : String} {secret : JsonSecret} {v : Json}

theorem decrypt_of_encrypt (h : JsonSecret.encrypt C nonce plaintext encryptionKey = .ok secret) :
    secret.decrypt C encryptionKey = .ok plaintext ∧ (secret = .empty ↔ plaintext = "") := by
  unfold JsonSecret.encrypt at h
  split at h
  next hempty =>
    obtain rfl := Except.ok.inj h
    exact ⟨congrArg Except.ok hempty.symm, iff_of_true rfl hempty⟩
  next hne =>
    obtain ⟨key, hkey, h⟩ := bind_ok.mp h
    obtain ⟨bytes, hbytes, h⟩ := bind_ok.mp h
    obtain rfl := pure_ok.mp h
    refine ⟨?_, iff_of_false nofun hne⟩
    refine bind_ok.mpr ⟨bytes, orRefuse_ok.mpr ?_, bind_ok.mpr ⟨key, hkey, bind_ok.mpr
      ⟨plaintext.toUTF8.data.toList, mapError_ok.mpr ?_, orRefuse_ok.mpr (fromUTF8_toUTF8 _)⟩⟩⟩
    · rw [String.toList_ofList, readHex_hexBytes]
    · exact decrypt_encrypt C (mapError_ok.mp hbytes)

theorem fromJson_toJson (secret : JsonSecret) : JsonSecret.fromJson secret.toJson = .ok secret := by
  cases secret with
  | encrypted hex => rfl
  | empty => rfl

/-- What was stored is read back; it is marked as encrypted unless there was nothing to encrypt. -/
theorem stored_spec (h : encryptSecretToJson C nonce plaintext encryptionKey = .ok v) :
    IsStored v ∧ decryptSecretFromJson C v encryptionKey = .ok plaintext ∧
      (jsonIsEncrypted v = true ↔ plaintext ≠ "") := by
  obtain ⟨secret, hsecret, rfl⟩ := map_ok.mp h
  obtain ⟨hdecrypt, hempty⟩ := decrypt_of_encrypt hsecret
  refine ⟨?_, bind_ok.mpr ⟨secret, fromJson_toJson secret, hdecrypt⟩, ?_⟩
  · cases secret with
    | encrypted hex => exact Or.inr ⟨hex, rfl⟩
    | empty => exact Or.inl rfl
  · cases secret with
    | encrypted hex => exact iff_of_true rfl fun h => nomatch hempty.mpr h
    | empty => exact iff_of_false nofun fun h => h (hempty.mp rfl)

/-! ## Headers and keys -/

variable (C)

structure ProviderHeader where
  key : String
  value : String
deriving DecidableEq, Repr

/-- `config_json` as the object it is, with each key once. -/
abbrev Config := List (String × Json)

def Config.get (config : Config) (key : String) : Option Json := config.lookup key

def Config.insert (config : Config) (key : String) (value : Json) : Config :=
  put Prod.fst config (key, value)

theorem Config.get_insert (config : Config) (k : String) (v : Json) :
    (config.insert k v).get k = some v := lookup_put_self config k v

theorem Config.get_insert_ne {k k' : String} (h : k' ≠ k) (config : Config) (v : Json) :
    (config.insert k v).get k' = config.get k' := lookup_put_ne h config v

def headerJson (key : String) (value : Json) : Json := .obj [("key", .str key), ("value", value)]

def storeValue (nonce : Nonce) (value encryptionKey : String) : Option Json → Except AppError Json
  | some kept => .ok kept
  | none => encryptSecretToJson C nonce value encryptionKey

/-- The values are encrypted one after the other, each with a nonce of its own, but for those that
are kept. -/
def storeHeaders (nonces : Nat → Nonce) (encryptionKey : String)
    (kept : ProviderHeader → Option Json) : Nat → List ProviderHeader → Except AppError (List Json)
  | _, [] => .ok []
  | i, h :: headers => do
    let value ← storeValue C (nonces i) h.value encryptionKey (kept h)
    let rest ← storeHeaders nonces encryptionKey kept (i + 1) headers
    return headerJson h.key value :: rest

def encryptHeadersForStorage (nonces : Nat → Nonce) (headers : List ProviderHeader)
    (encryptionKey : String) : Except AppError Json :=
  (storeHeaders C nonces encryptionKey (fun _ => none) 1 headers).map .arr

def storedHeaders (config : Config) : List Json :=
  ((config.get "headers").bind Json.asArray).getD []

/-- What is stored under a key, if it is encrypted. -/
def keptSecret (stored : List Json) (key : String) : Option Json :=
  ((stored.find? fun s => (s.get "key").bind Json.asStr = some key).map
    fun s => (s.get "value").getD .null).filter jsonIsEncrypted

/-- A header that comes back blank keeps what is stored under its key. -/
def mergeHeadersForStorage (nonces : Nat → Nonce) (headers : List ProviderHeader)
    (existing : Config) (encryptionKey : String) : Except AppError Json :=
  (storeHeaders C nonces encryptionKey
    (fun h => if h.value = "" then keptSecret (storedHeaders existing) h.key else none)
    1 headers).map .arr

/-- A header that does not decrypt is left out. -/
def decryptHeadersFromConfig (config : Config) (encryptionKey : String) : List ProviderHeader :=
  (storedHeaders config).filterMap fun item => do
    let key ← (item.get "key").bind Json.asStr
    let raw ← item.get "value"
    match decryptSecretFromJson C raw encryptionKey with
    | .ok value => some ⟨key, value⟩
    | .error _ => none

def awsSecretAccessKey : String := "aws_secret_access_key"

/-- A secret that is written out is encrypted. -/
def encryptAwsSecretInConfig (nonce : Nonce) (config : Config) (encryptionKey : String) :
    Except AppError Config :=
  match config.get awsSecretAccessKey with
  | none => .ok config
  | some raw =>
    if jsonIsEncrypted raw then .ok config
    else match raw.asStr with
      | none => .ok config
      | some s =>
        if s = "" then .ok config
        else (encryptSecretToJson C nonce s encryptionKey).map (config.insert awsSecretAccessKey)

inductive Credential where
  | keys (accessKeyId secretAccessKey : String)
  | instanceRole
  | unusable (why : String)
deriving DecidableEq, Repr

def Credential.fromKeys (accessKeyId secretAccessKey : String) : Credential :=
  if accessKeyId = "" then .instanceRole
  else if secretAccessKey = "" then .unusable "the access key ID has no secret access key"
  else .keys accessKeyId secretAccessKey

def accessKeyId (config : Config) : String :=
  ((config.get "aws_access_key_id").bind Json.asStr).getD ""

/-- What `ProviderMaterials::from_provider` signs with. -/
def awsCredential (config : Config) (encryptionKey : String) : Credential :=
  match config.get awsSecretAccessKey with
  | none => .fromKeys (accessKeyId config) ""
  | some raw =>
    match decryptSecretFromJson C raw encryptionKey with
    | .ok secret => .fromKeys (accessKeyId config) secret
    | .error _ =>
      if accessKeyId config = "" then .instanceRole
      else .unusable ("the stored secret access key could not be decrypted; " ++
        "save the provider's keys again")

/-! ## What a request stores, and what it is shown -/

/-- The configuration is an object, or none; anything else cannot take the headers, and the handler
panics. -/
def objectConfig : Option Json → Except AppError Config
  | none => .ok []
  | some .null => .ok []
  | some (.obj fields) => .ok fields
  | some _ => .error (.internal "panic")

/-- `create_provider`. -/
def createConfig (nonces : Nat → Nonce) (config : Option Json) (headers : List ProviderHeader)
    (encryptionKey : String) : Except AppError Config := do
  let fields ← objectConfig config
  let wrapped ← encryptAwsSecretInConfig C (nonces 0) fields encryptionKey
  let stored ← encryptHeadersForStorage C nonces headers encryptionKey
  return wrapped.insert "headers" stored

/-- `update_provider`. -/
def updateConfig (nonces : Nat → Nonce) (existing : Config)
    (headers : Option (List ProviderHeader)) (encryptionKey : String) : Except AppError Config := do
  let config ← encryptAwsSecretInConfig C (nonces 0) existing encryptionKey
  match headers with
  | none => return config
  | some headers =>
    let merged ← mergeHeadersForStorage C nonces headers existing encryptionKey
    return config.insert "headers" merged

def redactHeader : Json → Json
  | .obj entry =>
    let encrypted := (Config.get entry "value").any jsonIsEncrypted
    .obj (Config.insert (Config.insert entry "value" (.str "")) "encrypted" (.bool encrypted))
  | other => other

def blankAwsSecret (config : Config) : Config :=
  match config.get awsSecretAccessKey with
  | some secret =>
    if jsonIsEncrypted secret then config.insert awsSecretAccessKey (.str "") else config
  | none => config

/-- `redact_provider_secrets`. -/
def redactProviderSecrets (config : Config) : Config :=
  let config := blankAwsSecret config
  match (config.get "headers").bind Json.asArray with
  | none => config
  | some headers => config.insert "headers" (.arr (headers.map redactHeader))

end ThinkWatch.Providers
