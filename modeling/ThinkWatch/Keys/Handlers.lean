import ThinkWatch.Keys.Table
import ThinkWatch.Policy.GatewayScope
import ThinkWatch.Policy.KeyCreation
import ThinkWatch.Rbac.Guards

/-!
# The handlers of API keys

`handlers/api_keys.rs`. A handler that changes a key is in three parts, since a request of another
caller may come between them: it looks up the owner and checks the caller, it loads the row and
checks the request against it, and it writes. The audit log is left out. Time, and what is drawn at
random for a new key, are arguments.
-/

namespace ThinkWatch.Keys

open Lib Policy Rbac

/-! ## What the handlers read -/

/-- A row of `mcp_user_credentials`, as far as the handlers of keys look at it. -/
structure CredentialKey where
  serverId : Uuid
  userId : Uuid
  accountLabel : String
deriving DecidableEq, Repr

structure Store where
  tables : Db
  keys : List ApiKey
  credentials : List CredentialKey
deriving Repr

/-- The settings under `api_keys.*`. -/
structure KeySettings where
  defaultExpiryDays : Int
  inactivityTimeoutDays : Int
  rotationPeriodDays : Int
  rotationGracePeriodHours : Int
deriving DecidableEq, Repr

def computeUserResourceLimits (db : Db) (user : Uuid) : UserResourceLimits :=
  resourceLimitsFromDocuments (db.loadGatewayPolicyDocuments user)

/-- Holds `api_keys:admin` in some assignment, and is not denied it. -/
def callerIsAdminTier (caller : AuthUser) : Bool :=
  "api_keys:admin" ∉ caller.deniedPermissions && "api_keys:admin" ∈ caller.permissions

/-- `owner_of_live`. A row without an owner cannot be decoded. -/
def ownerOfLive (keys : List ApiKey) (id : Uuid) : Except AppError Uuid := do
  let key ← orRefuse (findLive keys id) (AppError.notFound "API key not found")
  orRefuse key.userId (AppError.internal "Database error")

def assertOwnerOrAdmin (s : Store) (caller : AuthUser) (id : Uuid) : Except AppError Unit := do
  let owner ← ownerOfLive s.keys id
  refuseIf (caller.sub ≠ owner ∧ callerIsAdminTier caller = false)
    (AppError.forbidden "api_keys:admin required to operate on another user's key")

/-! ## Checks of request fields -/

def allowedSurfaces : List String := ["ai_gateway", "mcp_gateway", "console"]

/-- The entries one after another; `out` has those seen so far, in reverse. -/
def collectSurfaces (out : List String) : List String → Except AppError (List String)
  | [] => .ok out
  | s :: rest => do
    refuseIf (s ∉ allowedSurfaces) (AppError.badRequest
      s!"Unknown surface '{s}' (allowed: ai_gateway, mcp_gateway, console)")
    collectSurfaces (if s ∈ out then out else s :: out) rest

def normalizeSurfaces (input : List String) : Except AppError (List String) := do
  refuseIf (input = [])
    (AppError.badRequest "API key must be enabled for at least one gateway surface")
  let out ← collectSurfaces [] input
  return out.insertionSort (· ≤ ·)

/-- One entry of the map after another. `parseUuid` is the parser of the `uuid` crate. -/
def checkOverrides (parseUuid : String → Option Uuid) (s : Store) (user : Uuid) :
    List (String × Json) → Except AppError Unit
  | [] => .ok ()
  | (serverId, labelValue) :: rest => do
    let server ← orRefuse (parseUuid serverId)
      (AppError.badRequest s!"mcp_account_overrides key '{serverId}' is not a UUID")
    let label ← orRefuse labelValue.asStr
      (AppError.badRequest "mcp_account_overrides values must be strings")
    refuseIf (⟨server, user, label⟩ ∉ s.credentials) (AppError.badRequest
      (s!"mcp_account_overrides points at '{label}' for server {serverId}, " ++
        "but you have no credential with that label"))
    checkOverrides parseUuid s user rest

def validateMcpAccountOverrides (parseUuid : String → Option Uuid) (s : Store) (user : Uuid)
    (overrides : Option Json) : Except AppError Json :=
  match overrides with
  | none => .ok noOverrides
  | some .null => .ok noOverrides
  | some (.obj fields) => do
    checkOverrides parseUuid s user fields
    return .obj fields
  | some _ => .error (.badRequest "mcp_account_overrides must be a JSON object")

def validateCostCenter : Option String → Except AppError (Option String)
  | none => .ok none
  | some raw => do
    refuseIf ((trim raw).length > 64)
      (AppError.badRequest "cost_center must be 64 characters or fewer")
    return if trim raw = "" then none else some (trim raw)

/-- A day count in a request is not negative. -/
def checkDays (name : String) (value : Option Int) : Except AppError Unit :=
  refuseIf (value.any (· < 0)) (AppError.badRequest s!"{name} must be >= 0")

/-! ## Creating -/

structure CreateApiKeyRequest where
  name : String
  surfaces : List String
  allowedModels : Option (List String)
  allowedMcpTools : Option (List String)
  mcpAccountOverrides : Option Json
  expiresInDays : Option Int
  costCenter : Option String
deriving Repr

/-- The unique index on `key_hash`, and the primary key. -/
def checkFresh (keys : List ApiKey) (new : Generated) : Except AppError Unit :=
  refuseIf (keys.any fun k => k.id = new.id || k.keyHash = new.keyHash)
    (AppError.conflict "Resource already exists")

/-- The days until a new key expires: what the request says, else the setting; `0` is never. -/
def effectiveExpiryDays (cfg : KeySettings) (expiresInDays : Option Int) : Option Int :=
  (expiresInDays <|> if cfg.defaultExpiryDays > 0 then some cfg.defaultExpiryDays else none).filter
    (0 < ·)

def createKey (parseUuid : String → Option Uuid) (cfg : KeySettings) (s : Store)
    (caller : AuthUser) (req : CreateApiKeyRequest) (new : Generated) (now : Time) :
    Except AppError Store := do
  caller.requirePermission "api_keys:create"
  let surfaces ← normalizeSurfaces req.surfaces
  validateAllowlistsWithinRole (computeUserResourceLimits s.tables caller.sub) req.allowedModels
    req.allowedMcpTools
  checkDays "expires_in_days" req.expiresInDays
  let costCenter ← validateCostCenter req.costCenter
  let overrides ← validateMcpAccountOverrides parseUuid s caller.sub req.mcpAccountOverrides
  checkFresh s.keys new
  let key : NewApiKey :=
    { id := new.id, keyPrefix := new.keyPrefix, keyHash := new.keyHash, name := req.name
      userId := caller.sub, surfaces, allowedModels := req.allowedModels
      allowedMcpTools := req.allowedMcpTools, mcpAccountOverrides := overrides
      expiresAt := (effectiveExpiryDays cfg req.expiresInDays).map fun d => now + days d
      costCenter
      rotationPeriodDays :=
        if cfg.rotationPeriodDays > 0 then some cfg.rotationPeriodDays else none }
  return { s with keys := s.keys ++ [key.row now] }

/-! ## Reading -/

def getKey (s : Store) (caller : AuthUser) (id : Uuid) : Except AppError ApiKey := do
  caller.requirePermission "api_keys:read"
  assertOwnerOrAdmin s caller id
  orRefuse (findLive s.keys id) (AppError.notFound "API key not found")

/-- `visibility_clause`: live keys, or those that were revoked. -/
def visible (archived : Bool) (k : ApiKey) : Bool :=
  if archived then
    !k.live && match k.disabledReason with
      | some reason => reason = "revoked" || "force_revoked:".toList.isPrefixOf reason.toList
      | none => false
  else k.live

/-- `ListKeysParams`. -/
structure ListKeysParams where
  page : Option Nat
  perPage : Option Nat
  archived : Bool
deriving DecidableEq, Repr

def ListKeysParams.limit (p : ListKeysParams) : Nat := min (p.perPage.getD 20) 100

def ListKeysParams.offset (p : ListKeysParams) : Nat := (max (p.page.getD 1) 1 - 1) * p.limit

/-- One page of the list, newest first. -/
def listKeys (s : Store) (caller : AuthUser) (p : ListKeysParams) :
    Except AppError (List ApiKey) := do
  caller.requirePermission "api_keys:read"
  let rows := s.keys.filter fun k =>
    visible p.archived k && (callerIsAdminTier caller || k.userId = some caller.sub)
  return ((rows.mergeSort fun a b => b.createdAt ≤ a.createdAt).drop p.offset).take p.limit

/-! ## Revoking -/

/-- The statement has changed a row, or the key is gone. -/
def revokeLive (reason : String) (keys : List ApiKey) (id : Uuid) (now : Time) :
    Except AppError (List ApiKey) := do
  refuseIf (findLive keys id).isNone (AppError.notFound "API key not found")
  return revokeWith reason keys id now

def revokeKey (s : Store) (caller : AuthUser) (id : Uuid) (now : Time) : Except AppError Store := do
  caller.requirePermission "api_keys:delete"
  assertOwnerOrAdmin s caller id
  let keys ← revokeLive "revoked" s.keys id now
  return { s with keys }

/-- What `force_revoke_key` checks, without a look at the key. -/
def forceRevokeChecks (s : Store) (caller : AuthUser) (reason : String) :
    Except AppError Unit := do
  caller.requirePermission "api_keys:delete"
  let global ← orRefuse (s.tables.granted caller.sub "api_keys:delete" (· = .global))
    (AppError.internal "scope check failed")
  refuseIf (global = false)
    (AppError.forbidden "Force-revoke requires api_keys:delete at global scope")
  refuseIf (trim reason = "") (AppError.badRequest "reason is required")
  refuseIf ((trim reason).utf8ByteSize > 500)
    (AppError.badRequest "reason must be 500 characters or fewer")

/-- The tag that `force_revoke_key` records: the start of the reason. -/
def forceRevokedTag (reason : String) : String :=
  "force_revoked:" ++ String.ofList ((trim reason).toList.take 64)

def forceRevokeKey (s : Store) (caller : AuthUser) (id : Uuid) (reason : String) (now : Time) :
    Except AppError Store := do
  forceRevokeChecks s caller reason
  let keys ← revokeLive (forceRevokedTag reason) s.keys id now
  return { s with keys }

/-! ## Changing -/

/-- A field is `none` when the PATCH does not have it. -/
structure UpdateKeyRequest where
  allowedModels : Option (Option (List String))
  allowedMcpTools : Option (Option (List String))
  surfaces : Option (List String)
  expiresInDays : Option Int
  rotationPeriodDays : Option Int
  inactivityTimeoutDays : Option Int
  costCenter : Option String
  mcpAccountOverrides : Option (Option Json)
deriving Repr

/-- A PATCH that names nothing. -/
def emptyUpdate : UpdateKeyRequest := ⟨none, none, none, none, none, none, none, none⟩

/-- What a PATCH asks for the expiry, if it does: `0` removes it. -/
def UpdateKeyRequest.expiry (req : UpdateKeyRequest) (now : Time) : Option (Option Time) :=
  req.expiresInDays.map fun d => if d > 0 then some (now + days d) else none

/-- The expiry is pushed later, or removed. -/
def expiryExtended (prev new : Option Time) : Bool :=
  match prev, new with
  | some prev, some new => new > prev
  | some _, none => true
  | none, _ => false

def checkUpdateDays (req : UpdateKeyRequest) : Except AppError Unit := do
  checkDays "expires_in_days" req.expiresInDays
  checkDays "rotation_period_days" req.rotationPeriodDays
  checkDays "inactivity_timeout_days" req.inactivityTimeoutDays

/-- The lists of a PATCH against the roles of the key's owner. -/
def checkAllowlists (s : Store) (key : ApiKey) (req : UpdateKeyRequest) : Except AppError Unit :=
  match key.userId with
  | some owner =>
    validateAllowlistsWithinRole (computeUserResourceLimits s.tables owner) req.allowedModels.join
      req.allowedMcpTools.join
  | none => .ok ()

def patchSurfaces : Option (List String) → Except AppError (Option (List String))
  | none => .ok none
  | some surfaces => do
    let surfaces ← normalizeSurfaces surfaces
    return some surfaces

/-- Whether the tag is set, and to what. -/
def patchCostCenter : Option String → Except AppError (Bool × Option String)
  | none => .ok (false, none)
  | some raw =>
    if raw = "" then .ok (true, none)
    else do
      let value ← validateCostCenter (some raw)
      return (true, value)

/-- Whether the overrides are set, and to what. -/
def patchOverrides (parseUuid : String → Option Uuid) (s : Store) (key : ApiKey) :
    Option (Option Json) → Except AppError (Bool × Json)
  | none => .ok (false, noOverrides)
  | some none => .ok (true, noOverrides)
  | some (some v) => do
    let owner ← orRefuse key.userId
      (AppError.badRequest "service-account keys cannot use mcp_account_overrides")
    let value ← validateMcpAccountOverrides parseUuid s owner (some v)
    return (true, value)

/-- What `update_key` does next: the row it loads, and the patch it makes. -/
def updateKeyLoad (parseUuid : String → Option Uuid) (s : Store) (id : Uuid)
    (req : UpdateKeyRequest) (now : Time) : Except AppError (ApiKey × ApiKeyPatch) := do
  checkUpdateDays req
  let key ← orRefuse (findLive s.keys id) (AppError.notFound "API key not found")
  checkAllowlists s key req
  let surfaces ← patchSurfaces req.surfaces
  let costCenter ← patchCostCenter req.costCenter
  let overrides ← patchOverrides parseUuid s key req.mcpAccountOverrides
  let expiresAt := (req.expiry now).getD key.expiresAt
  let patch : ApiKeyPatch :=
    { allowedModelsSet := req.allowedModels.isSome, allowedModels := req.allowedModels.join
      allowedMcpToolsSet := req.allowedMcpTools.isSome
      allowedMcpTools := req.allowedMcpTools.join
      surfaces, expiresAt, rotationPeriodDays := req.rotationPeriodDays
      inactivityTimeoutDays := req.inactivityTimeoutDays
      costCenterSet := costCenter.1, costCenter := costCenter.2
      mcpAccountOverridesSet := overrides.1, mcpAccountOverrides := overrides.2
      expiryExtended := expiryExtended key.expiresAt expiresAt }
  return (key, patch)

/-- The `UPDATE`: there has to be a row, and `chk_api_key_rotation_period_positive` holds. -/
def updateKeyWrite (keys : List ApiKey) (id : Uuid) (patch : ApiKeyPatch) :
    Except AppError (List ApiKey) := do
  refuseIf (keys.all (·.id ≠ id) ∨ patch.rotationPeriodDays = some 0)
    (AppError.internal "Database error")
  return update keys id patch

def updateKey (parseUuid : String → Option Uuid) (s : Store) (caller : AuthUser) (id : Uuid)
    (req : UpdateKeyRequest) (now : Time) : Except AppError Store := do
  caller.requirePermission "api_keys:update"
  assertOwnerOrAdmin s caller id
  let (_, patch) ← updateKeyLoad parseUuid s id req now
  let keys ← updateKeyWrite s.keys id patch
  return { s with keys }

/-! ## Rotating -/

/-- The row that `rotate_key` loads, and its checks of it. -/
def rotateKeyLoad (keys : List ApiKey) (id : Uuid) : Except AppError ApiKey := do
  let old ← orRefuse (findLive keys id) (AppError.notFound "API key not found")
  refuseIf (old.isActive = false) (AppError.badRequest "Cannot rotate an inactive key")
  refuseIf (old.disabledReason = some "rotated") (AppError.badRequest
    ("Key is already rotated and inside its grace period — rotate the new key instead, " ++
      "or revoke this one to short-circuit the grace window"))
  return old

/-- The transaction, with its unique index and the foreign key of `rotated_from_id`. -/
def rotateKeyWrite (keys : List ApiKey) (old : ApiKey) (new : Generated) (graceEnds now : Time) :
    Except AppError (List ApiKey) := do
  checkFresh keys new
  refuseIf (keys.all (·.id ≠ old.id)) (AppError.internal "Database error")
  return rotate keys old new graceEnds now

def rotateKey (cfg : KeySettings) (s : Store) (caller : AuthUser) (id : Uuid) (new : Generated)
    (now : Time) : Except AppError Store := do
  caller.requirePermission "api_keys:rotate"
  assertOwnerOrAdmin s caller id
  let old ← rotateKeyLoad s.keys id
  let keys ← rotateKeyWrite s.keys old new (now + hours cfg.rotationGracePeriodHours) now
  return { s with keys }

end ThinkWatch.Keys
