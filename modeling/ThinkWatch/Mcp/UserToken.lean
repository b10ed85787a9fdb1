import ThinkWatch.Lib.Hex
import ThinkWatch.Mcp.Registry
import ThinkWatch.Policy.Document

/-!
# The credential of a call

`crates/mcp-gateway/src/user_token.rs`: which row of the two credential tables a caller's request
goes upstream with, and what becomes of the row when its token is about to expire. The row is found
by the owner of the server's credentials alone. Its auth shape only decides whether a call without a
row is refused.
-/

namespace ThinkWatch.Mcp

open Lib Policy

/-! ## The tables -/

/-- The two values that the column `credential_type` may have. -/
inductive CredentialType where
  | oauthAuthcode
  | staticToken
deriving DecidableEq, Repr

/-- The columns that both tables have; `β` is the type of an encrypted token. -/
structure Credential (β : Type) where
  credentialType : CredentialType
  accessTokenEncrypted : β
  refreshTokenEncrypted : Option β
  expiresAt : Option Int

/-- A row of `mcp_user_credentials`. -/
structure UserCredential (β : Type) where
  serverId : Uuid
  userId : Uuid
  accountLabel : String
  isDefault : Bool
  credential : Credential β

/-- A row of `mcp_server_shared_credentials`. -/
structure SharedCredential (β : Type) where
  serverId : Uuid
  credential : Credential β

structure Credentials (β : Type) where
  users : List (UserCredential β)
  shared : List (SharedCredential β)

/-- A row that has been read; only one of `mcp_user_credentials` has a label. -/
structure CredentialRow (β : Type) extends Credential β where
  accountLabel : Option String

inductive CredLocator where
  | perUser (serverId userId : Uuid) (preferredLabel : Option String)
  | adminShared (serverId : Uuid)
deriving DecidableEq, Repr

namespace CredLocator

def serverId : CredLocator → Uuid
  | perUser serverId .. => serverId
  | adminShared serverId => serverId

def owner : CredLocator → CredentialOwner
  | perUser .. => .perUser
  | adminShared _ => .adminShared

end CredLocator

/-! ## Outcomes -/

inductive RefreshFailureKind where
  | permanent
  | transient
deriving DecidableEq, Repr

/-- `ResolverError`, without the failures of the database. -/
inductive ResolverError where
  | needsUserCredentials (serverId : Uuid) (authorizeUrl : Option String) (owner : CredentialOwner)
  | refreshFailed (serverId : Uuid) (kind : RefreshFailureKind) (message : String)
  | crypto (message : String)
  | badTokenResponse (message : String)
deriving DecidableEq, Repr

/-- The header that goes upstream with the token in it. -/
structure AuthInjection where
  headerName : String
  headerValue : String
deriving DecidableEq, Repr

structure TokenResponse where
  accessToken : String
  refreshToken : Option String
  expiresIn : Option Nat

inductive OAuthRefreshFailure where
  | permanent (msg : String)
  | transient (msg : String)

/-- `oauth_refresh`: what the token endpoint answers to a refresh token. -/
abbrev TokenEndpoint := OAuthClientCfg → String → Except OAuthRefreshFailure TokenResponse

/-- `crypto::encrypt` and `crypto::decrypt` under the key of the deployment. -/
structure Crypto (β : Type) where
  encrypt : String → Except String β
  decrypt : β → Except String String

/-- Who is calling, and the account overrides of the key that is used. -/
structure ResolverCaller where
  userId : Uuid
  mcpAccountOverrides : Json

namespace Crypto

variable {β : Type} (crypto : Crypto β)

def decryptToString (bytes : β) : Except ResolverError String :=
  (crypto.decrypt bytes).mapError .crypto

def encryptToken (plain : String) : Except ResolverError β :=
  (crypto.encrypt plain).mapError .crypto

end Crypto

/-! ## Finding the row -/

/-- `Uuid::simple`: 32 hexadecimal digits. -/
def simple (id : Uuid) : List Char := hexNat 32 id

/-- `Uuid::to_string`: the digits in groups of 8, 4, 4, 4 and 12. -/
def hyphenated (id : Uuid) : List Char :=
  let d := simple id
  d.take 8 ++ '-' :: ((d.drop 8).take 4 ++ '-' :: ((d.drop 12).take 4 ++ '-' ::
    ((d.drop 16).take 4 ++ '-' :: d.drop 20)))

/-- `account_label_for_server`, which `locator_for` repeats. -/
def accountLabelForServer (overrides : Json) (serverId : Uuid) : Option String :=
  (overrides.get (String.ofList (hyphenated serverId))).bind Json.asStr

def locatorFor (server : RegisteredServer) (caller : ResolverCaller) : CredLocator :=
  match server.credentialOwner with
  | .adminShared => .adminShared server.id
  | .perUser =>
    .perUser server.id caller.userId (accountLabelForServer caller.mcpAccountOverrides server.id)

namespace Credentials

variable {β : Type}

def fetchRow (db : Credentials β) : CredLocator → Option (CredentialRow β)
  | .perUser serverId userId (some label) =>
    (db.users.find? fun r => r.serverId == serverId && r.userId == userId
      && r.accountLabel == label).map fun r => ⟨r.credential, some r.accountLabel⟩
  | .perUser serverId userId none =>
    (db.users.find? fun r => r.serverId == serverId && r.userId == userId
      && r.isDefault).map fun r => ⟨r.credential, some r.accountLabel⟩
  | .adminShared serverId =>
    (db.shared.find? fun r => r.serverId == serverId).map fun r => ⟨r.credential, none⟩

/-- The two statements of a refresh name the label of the row. -/
def missingLabel : ResolverError := .crypto "missing label inside lock"

def deleteRow (db : Credentials β) : CredLocator → Except ResolverError (Credentials β)
  | .perUser serverId userId (some label) =>
    .ok { db with users := db.users.filter fun r =>
      !(r.serverId == serverId && r.userId == userId && r.accountLabel == label) }
  | .perUser _ _ none => .error missingLabel
  | .adminShared serverId =>
    .ok { db with shared := db.shared.filter fun r => !(r.serverId == serverId) }

/-- The columns after a refresh. -/
def refreshed (c : Credential β) (access : β) (refresh : Option β) (expiresAt : Option Int) :
    Credential β :=
  { c with accessTokenEncrypted := access, refreshTokenEncrypted := refresh, expiresAt }

def writeRefreshedRow (db : Credentials β) (locator : CredLocator) (access : β)
    (refresh : Option β) (expiresAt : Option Int) : Except ResolverError (Credentials β) :=
  match locator with
  | .perUser serverId userId (some label) =>
    .ok { db with users := db.users.map fun r =>
      if r.serverId == serverId && r.userId == userId && r.accountLabel == label then
        { r with credential := refreshed r.credential access refresh expiresAt }
      else r }
  | .perUser _ _ none => .error missingLabel
  | .adminShared serverId =>
    .ok { db with shared := db.shared.map fun r =>
      if r.serverId == serverId then { r with credential := refreshed r.credential access refresh expiresAt }
      else r }

end Credentials

/-! ## Refreshing the token -/

section Resolve

variable {β : Type} (crypto : Crypto β) (endpoint : TokenEndpoint) (db : Credentials β)

/-- Whether a token is gone in 60 seconds; a row without an expiry counts as `otherwise`. -/
def nearExpiry (expiresAt : Option Int) (now : Int) (otherwise : Bool) : Bool :=
  match expiresAt with
  | some expiry => expiry ≤ now + 60
  | none => otherwise

/-- The expiry that goes with the new token. -/
def newExpiresAt (expiresIn : Option Nat) (now : Int) : Option Int :=
  expiresIn.bind fun secs => if secs < 2 ^ 63 then some (now + secs) else none

/-- The refresh token of the row, encrypted and in the clear. -/
def storedRefreshToken (locator : CredLocator) (row : CredentialRow β) :
    Except ResolverError (β × String) := do
  let bytes ← orRefuse row.refreshTokenEncrypted
    (ResolverError.refreshFailed locator.serverId .permanent "no refresh_token stored")
  let token ← crypto.decryptToString bytes
  return (bytes, token)

/-- The tables with the new tokens. The old refresh token stays if there is no new one. -/
def storeRefreshed (locator : CredLocator) (refreshBytes : β) (new : TokenResponse) (now : Int) :
    Except ResolverError (Credentials β) := do
  let access ← crypto.encryptToken new.accessToken
  let refresh ←
    match new.refreshToken with
    | some r => crypto.encryptToken r
    | none => pure refreshBytes
  db.writeRefreshedRow locator access (some refresh) (newExpiresAt new.expiresIn now)

/-- The new access token, and the tables if they have changed. -/
def refreshLocked (locator : CredLocator) (row : CredentialRow β) (cfg : OAuthClientCfg)
    (now : Int) : Except ResolverError String × Option (Credentials β) :=
  match db.fetchRow locator with
  | none =>
    (.error (.needsUserCredentials locator.serverId cfg.authorizationEndpoint locator.owner), none)
  | some current =>
    if !nearExpiry current.expiresAt now true then
      -- another call has refreshed the token
      (crypto.decryptToString current.accessTokenEncrypted, none)
    else
      match storedRefreshToken crypto locator row with
      | .error e => (.error e, none)
      | .ok (refreshBytes, refreshToken) =>
        match endpoint cfg refreshToken with
        | .error (.transient msg) => (.error (.refreshFailed locator.serverId .transient msg), none)
        | .error (.permanent msg) =>
          -- the grant is dead, and the row goes with it
          match db.deleteRow locator with
          | .error e => (.error e, none)
          | .ok db' => (.error (.refreshFailed locator.serverId .permanent msg), some db')
        | .ok new =>
          match storeRefreshed crypto db locator refreshBytes new now with
          | .error e => (.error e, none)
          | .ok db' => (.ok new.accessToken, some db')

/-! ## The resolver -/

/-- `needs_credential`. -/
def AuthShape.needsCredential : AuthShape → Bool
  | .anonymous => false
  | _ => true

def buildInjection (server : RegisteredServer) (token : String) : AuthInjection where
  headerName := server.authHeaderName
  headerValue := String.ofList
    (replaceAll "\x7b\x7btoken\x7d\x7d".toList token.toList server.authValueTemplate.toList)

/-- The locator of a default row, with the label that the row turned out to have. -/
def refreshLocator (locator : CredLocator) (row : CredentialRow β) : CredLocator :=
  match locator, row.accountLabel with
  | .perUser serverId userId none, some label => .perUser serverId userId (some label)
  | _, _ => locator

/-- The token in the row, or the one it is refreshed to. -/
def upstreamToken (server : RegisteredServer) (locator : CredLocator) (row : CredentialRow β)
    (now : Int) : Except ResolverError String × Option (Credentials β) :=
  match row.credentialType with
  | .staticToken => (crypto.decryptToString row.accessTokenEncrypted, none)
  | .oauthAuthcode =>
    if !nearExpiry row.expiresAt now false then
      (crypto.decryptToString row.accessTokenEncrypted, none)
    else
      match server.oauthCfg with
      | none =>
        (.error (.badTokenResponse
          "oauth_authcode credential exists but server has no oauth client config"), none)
      | some cfg =>
        refreshLocked crypto endpoint db (refreshLocator locator row) row cfg now

/-- `UserTokenResolver::resolve`, and the tables if the call has changed them. -/
def resolve (server : RegisteredServer) (caller : ResolverCaller) (now : Int) :
    Except ResolverError (Option AuthInjection) × Option (Credentials β) :=
  let locator := locatorFor server caller
  match db.fetchRow locator with
  | none =>
    -- the only place that looks at the auth shape
    if server.authShape.needsCredential then
      (.error (.needsUserCredentials server.id none server.credentialOwner), none)
    else (.ok none, none)
  | some row =>
    let (token, change) := upstreamToken crypto endpoint db server locator row now
    (token.map fun t => some (buildInjection server t), change)

/-! ## What the header depends on -/

variable {server : RegisteredServer} {a b : ResolverCaller} {now : Int}

/-- The caller matters only through the row that is looked for. -/
theorem resolve_congr (h : locatorFor server a = locatorFor server b) :
    resolve crypto endpoint db server a now = resolve crypto endpoint db server b now := by
  unfold resolve
  rw [h]

theorem resolve_of_fetchRow_none (h : db.fetchRow (locatorFor server a) = none)
    (hshape : server.authShape = .anonymous) :
    resolve crypto endpoint db server a now = (.ok none, none) := by
  simp only [resolve, h, hshape]
  rfl

/-- With a row there is a credential, or the call is refused. -/
theorem resolve_ne_none (h : db.fetchRow (locatorFor server a) ≠ none) :
    (resolve crypto endpoint db server a now).1 ≠ .ok none := by
  obtain ⟨row, hrow⟩ := Option.ne_none_iff_exists'.mp h
  simp only [resolve, hrow]
  cases (upstreamToken crypto endpoint db server (locatorFor server a) row now).1 with
  | error e => exact fun hok => nomatch hok
  | ok token => exact fun hok => nomatch hok

/-- A caller of a server with one credential for all. -/
theorem locatorFor_adminShared (h : server.credentialOwner = .adminShared) :
    locatorFor server a = .adminShared server.id := by
  unfold locatorFor
  rw [h]

theorem locatorFor_perUser (h : server.credentialOwner = .perUser) :
    locatorFor server a =
      .perUser server.id a.userId (accountLabelForServer a.mcpAccountOverrides server.id) := by
  unfold locatorFor
  rw [h]

variable {db}

/-- Without rows on the server, no locator of a user finds one. -/
theorem fetchRow_perUser_none {userId : Uuid} {label : Option String}
    (h : ∀ r ∈ db.users, r.serverId ≠ server.id) :
    db.fetchRow (.perUser server.id userId label) = none := by
  cases label with
  | none =>
    rw [Credentials.fetchRow, Option.map_eq_none_iff, List.find?_eq_none]
    intro r hr
    simp [h r hr]
  | some label =>
    rw [Credentials.fetchRow, Option.map_eq_none_iff, List.find?_eq_none]
    intro r hr
    simp [h r hr]

/-- A user who has no row at all finds none. -/
theorem fetchRow_stranger {userId : Uuid} (h : ∀ r ∈ db.users, r.userId ≠ userId) :
    db.fetchRow (.perUser server.id userId none) = none := by
  rw [Credentials.fetchRow, Option.map_eq_none_iff, List.find?_eq_none]
  intro r hr
  simp [h r hr]

/-- A caller whose overrides name the label of a row of theirs finds a row. -/
theorem fetchRow_named {r : UserCredential β} (hr : r ∈ db.users) :
    db.fetchRow (.perUser r.serverId r.userId (some r.accountLabel)) ≠ none := by
  rw [Credentials.fetchRow, Ne, Option.map_eq_none_iff, List.find?_eq_none]
  intro hnone
  exact hnone r hr (by simp)

end Resolve

end ThinkWatch.Mcp
