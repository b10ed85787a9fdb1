import ThinkWatch.Rbac.Tables

/-!
# The table of API keys

The `api_keys` table of `db/schema.sql` and the statements of `services/api_key_repository.rs`,
each as one function of the table: a statement is atomic, and what it says in its `WHERE` clause is
all it checks. A key is soft-deleted; "live" means not deleted.
-/

namespace ThinkWatch.Keys

open Lib Policy

/-! ## Rows -/

/-- Microseconds since the epoch, as `TIMESTAMPTZ` has them. -/
abbrev Time := Int

def hours (n : Int) : Int := n * 3600000000

def days (n : Int) : Int := hours (24 * n)

/-- A row of `api_keys`. -/
structure ApiKey where
  id : Uuid
  keyPrefix : String
  keyHash : String
  name : String
  userId : Option Uuid
  surfaces : List String
  allowedModels : Option (List String)
  allowedMcpTools : Option (List String)
  mcpAccountOverrides : Json
  expiresAt : Option Time
  lastExpiryWarningDays : Option Int
  isActive : Bool
  lastUsedAt : Option Time
  createdAt : Time
  deletedAt : Option Time
  rotationPeriodDays : Option Int
  rotatedFromId : Option Uuid
  gracePeriodEndsAt : Option Time
  inactivityTimeoutDays : Option Int
  disabledReason : Option String
  lastRotationAt : Option Time
  lineageId : Uuid
  costCenter : Option String
deriving Repr

def ApiKey.live (k : ApiKey) : Bool := k.deletedAt.isNone

/-- The empty JSON object, which is the default of `mcp_account_overrides`. -/
def noOverrides : Json := .obj []

/-! ## Statements -/

/-- `UPDATE api_keys SET .. WHERE ..`. -/
def updateWhere (p : ApiKey → Bool) (f : ApiKey → ApiKey) (keys : List ApiKey) : List ApiKey :=
  keys.map fun k => if p k then f k else k

/-- `SELECT * FROM api_keys WHERE id = $1 AND deleted_at IS NULL`. -/
def findLive (keys : List ApiKey) (id : Uuid) : Option ApiKey :=
  keys.find? fun k => k.id = id && k.live

/-- A key about to be created. -/
structure NewApiKey where
  id : Uuid
  keyPrefix : String
  keyHash : String
  name : String
  userId : Uuid
  surfaces : List String
  allowedModels : Option (List String)
  allowedMcpTools : Option (List String)
  mcpAccountOverrides : Json
  expiresAt : Option Time
  costCenter : Option String
  rotationPeriodDays : Option Int
deriving Repr

/-- The row that `insert` stores: the root of its own lineage. -/
def NewApiKey.row (k : NewApiKey) (now : Time) : ApiKey where
  id := k.id
  keyPrefix := k.keyPrefix
  keyHash := k.keyHash
  name := k.name
  userId := some k.userId
  surfaces := k.surfaces
  allowedModels := k.allowedModels
  allowedMcpTools := k.allowedMcpTools
  mcpAccountOverrides := k.mcpAccountOverrides
  expiresAt := k.expiresAt
  lastExpiryWarningDays := none
  isActive := true
  lastUsedAt := none
  createdAt := now
  deletedAt := none
  rotationPeriodDays := k.rotationPeriodDays
  rotatedFromId := none
  gracePeriodEndsAt := none
  inactivityTimeoutDays := none
  disabledReason := none
  lastRotationAt := none
  lineageId := k.id
  costCenter := k.costCenter

/-- A key of `user` without restrictions and without expiry. -/
def plainKey (id user : Uuid) (hash : String) : ApiKey :=
  NewApiKey.row
    ⟨id, "tw-00000", hash, "ci", user, ["ai_gateway"], none, none, noOverrides, none, none, none⟩ 0

/-- What `revoke` and `force_revoke` make of a live key. -/
def ApiKey.revoked (k : ApiKey) (reason : String) (now : Time) : ApiKey :=
  { k with
    isActive := false, gracePeriodEndsAt := none, disabledReason := some reason,
    deletedAt := some now }

/-- `revoke` and `force_revoke`, which differ in the reason they record. -/
def revokeWith (reason : String) (keys : List ApiKey) (id : Uuid) (now : Time) : List ApiKey :=
  updateWhere (fun k => k.id = id && k.live) (·.revoked reason now) keys

def revoke : List ApiKey → Uuid → Time → List ApiKey := revokeWith "revoked"

/-- A PATCH to a key's settings. -/
structure ApiKeyPatch where
  allowedModelsSet : Bool
  allowedModels : Option (List String)
  allowedMcpToolsSet : Bool
  allowedMcpTools : Option (List String)
  surfaces : Option (List String)
  expiresAt : Option Time
  rotationPeriodDays : Option Int
  inactivityTimeoutDays : Option Int
  costCenterSet : Bool
  costCenter : Option String
  mcpAccountOverridesSet : Bool
  mcpAccountOverrides : Json
  expiryExtended : Bool
deriving Repr

/-- The `SET` clause of `update`. The expiry is always written. -/
def ApiKeyPatch.apply (p : ApiKeyPatch) (k : ApiKey) : ApiKey :=
  { k with
    allowedModels := if p.allowedModelsSet then p.allowedModels else k.allowedModels
    allowedMcpTools := if p.allowedMcpToolsSet then p.allowedMcpTools else k.allowedMcpTools
    surfaces := p.surfaces.getD k.surfaces
    expiresAt := p.expiresAt
    rotationPeriodDays := p.rotationPeriodDays <|> k.rotationPeriodDays
    inactivityTimeoutDays := p.inactivityTimeoutDays <|> k.inactivityTimeoutDays
    costCenter := if p.costCenterSet then p.costCenter else k.costCenter
    mcpAccountOverrides :=
      if p.mcpAccountOverridesSet then p.mcpAccountOverrides else k.mcpAccountOverrides
    lastExpiryWarningDays := if p.expiryExtended then none else k.lastExpiryWarningDays }

/-- `update`, whose `WHERE` clause has the id and nothing else. -/
def update (keys : List ApiKey) (id : Uuid) (p : ApiKeyPatch) : List ApiKey :=
  updateWhere (·.id = id) p.apply keys

/-- What `generate_api_key` and the database draw for a new row. -/
structure Generated where
  id : Uuid
  keyPrefix : String
  keyHash : String
deriving DecidableEq, Repr

/-- The row that `rotate` inserts; a column it does not list has its default. -/
def ApiKey.successor (old : ApiKey) (new : Generated) (now : Time) : ApiKey where
  id := new.id
  keyPrefix := new.keyPrefix
  keyHash := new.keyHash
  name := old.name
  userId := old.userId
  surfaces := old.surfaces
  allowedModels := old.allowedModels
  allowedMcpTools := old.allowedMcpTools
  mcpAccountOverrides := noOverrides
  expiresAt := old.expiresAt
  lastExpiryWarningDays := none
  isActive := true
  lastUsedAt := none
  createdAt := now
  deletedAt := none
  rotationPeriodDays := old.rotationPeriodDays
  rotatedFromId := some old.id
  gracePeriodEndsAt := none
  inactivityTimeoutDays := old.inactivityTimeoutDays
  disabledReason := none
  lastRotationAt := some now
  lineageId := old.lineageId
  costCenter := old.costCenter

/-- What `rotate` makes of the old row. -/
def ApiKey.rotated (k : ApiKey) (graceEnds : Time) : ApiKey :=
  { k with gracePeriodEndsAt := some graceEnds, disabledReason := some "rotated" }

/-- `rotate`: the successor of the row as it was read, and the grace window, in one transaction. -/
def rotate (keys : List ApiKey) (old : ApiKey) (new : Generated) (graceEnds now : Time) :
    List ApiKey :=
  updateWhere (·.id = old.id) (·.rotated graceEnds) (keys ++ [old.successor new now])

/-- The keys of a user who was disabled or deleted. -/
def disableKeysOf (reason : String) (keys : List ApiKey) (user : Uuid) (now : Time) :
    List ApiKey :=
  updateWhere (fun k => k.userId = some user && k.live)
    (fun k => { k with isActive := false, deletedAt := some now, disabledReason := some reason })
    keys

/-- The keys of a user who deletes the account, revoked ones included. -/
def deleteAccountKeys (keys : List ApiKey) (user : Uuid) (now : Time) : List ApiKey :=
  updateWhere (·.userId = some user)
    (fun k =>
      { k with isActive := false, deletedAt := some now, disabledReason := some "account_deleted" })
    keys

/-- `UPDATE api_keys SET last_used_at = now() WHERE id = $1`. -/
def markUsed (keys : List ApiKey) (id : Uuid) (now : Time) : List ApiKey :=
  updateWhere (·.id = id) (fun k => { k with lastUsedAt := some now }) keys

/-! ## What a statement does to a row -/

variable {keys : List ApiKey} {p : ApiKey → Bool} {f : ApiKey → ApiKey} {k : ApiKey}

theorem mem_updateWhere :
    k ∈ updateWhere p f keys ↔ ∃ k₀ ∈ keys, k = if p k₀ then f k₀ else k₀ := by
  unfold updateWhere
  rw [List.mem_map]
  exact exists_congr fun k₀ => and_congr_right fun _ => eq_comm

/-- A statement that leaves a column alone leaves its values alone. -/
theorem map_updateWhere {β : Type*} {col : ApiKey → β} (hf : ∀ k, col (f k) = col k) :
    (updateWhere p f keys).map col = keys.map col := by
  unfold updateWhere
  rw [List.map_map]
  refine List.map_congr_left fun k _ => ?_
  rw [Function.comp_apply]
  split
  next => exact hf k
  next => rfl

theorem findLive_eq_some {id : Uuid} (h : findLive keys id = some k) :
    k ∈ keys ∧ k.id = id ∧ k.live = true := by
  have hk := List.find?_some h
  rw [Bool.and_eq_true, decide_eq_true_eq] at hk
  exact ⟨List.mem_of_find?_eq_some h, hk.1, hk.2⟩

/-- The primary key: two rows with the same id are one. -/
theorem eq_of_id {k' : ApiKey} (hids : (keys.map (·.id)).Nodup) (hk : k ∈ keys) (hk' : k' ∈ keys)
    (h : k.id = k'.id) : k = k' :=
  List.inj_on_of_nodup_map hids hk hk' h

theorem findLive_of_mem (hids : (keys.map (·.id)).Nodup) (hk : k ∈ keys) :
    findLive keys k.id = if k.live then some k else none := by
  cases hfound : findLive keys k.id with
  | some k' =>
    obtain ⟨hk', hid, hlive⟩ := findLive_eq_some hfound
    have heq : k' = k := eq_of_id hids hk' hk hid
    rw [← heq, if_pos hlive]
  | none =>
    have hnone := List.find?_eq_none.mp hfound k hk
    rw [decide_eq_true rfl, Bool.true_and] at hnone
    rw [if_neg hnone]

end ThinkWatch.Keys
