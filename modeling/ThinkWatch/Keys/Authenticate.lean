import ThinkWatch.Keys.Handlers

/-!
# Authentication by API key

`middleware/api_key_auth.rs` for the gateways, and `auth_via_api_key` of `middleware/auth_guard.rs`
for the console, with the sweep of `tasks/api_key_lifecycle.rs`. The two paths share their look-up:
the same statement is written out in both files.

An answer is the row of the accepted key, or the status of the refusal. The hash of a key is a
parameter, and a failure of the database, which refuses the request as well, is left out.
-/

namespace ThinkWatch.Keys

open Lib Policy Rbac

/-! ## The presented key -/

/-- The headers that may carry a key, and the query. -/
structure Presented where
  xApiKey : Option String
  xGoogApiKey : Option String
  authorization : Option String
  query : Option String
deriving DecidableEq, Repr

def nonEmpty (value : Option String) : Option String := value.filter (· ≠ "")

/-- The first `key=` of the query. -/
def queryKey (query : String) : Option String :=
  (query.toList.splitOn '&').findSome? fun kv => stripStem "key=" (String.ofList kv)

def presentedKey (p : Presented) : Option String :=
  nonEmpty p.xApiKey <|> nonEmpty p.xGoogApiKey <|>
    nonEmpty ((nonEmpty p.authorization).bind (stripStem "Bearer ")) <|>
    nonEmpty (p.query.bind queryKey)

/-! ## The look-up -/

/-- `JOIN users`: the owner is active and not deleted. -/
def ownerActive (db : Db) (k : ApiKey) : Bool :=
  db.users.any fun u => k.userId = some u.id && u.isActive && !u.deleted

/-- The key has its grace window open. -/
def ApiKey.inGrace (k : ApiKey) (now : Time) : Bool :=
  match k.gracePeriodEndsAt with
  | some ends => ends > now
  | none => false

/-- The key's own timeout, or the global one, or as good as none. -/
def inactivityTimeout (globalDays : Int) (k : ApiKey) : Int :=
  if k.inactivityTimeoutDays.getD 0 > 0 then days (k.inactivityTimeoutDays.getD 0)
  else if globalDays > 0 then days globalDays
  else days 999999

def recentlyUsed (globalDays : Int) (k : ApiKey) (now : Time) : Bool :=
  match k.lastUsedAt with
  | some t => t > now - inactivityTimeout globalDays k
  | none => true

/-- The statement that both paths look a key up with. -/
def lookup (s : Store) (globalDays : Int) (hash : String) (now : Time) : Option ApiKey :=
  s.keys.find? fun k =>
    k.keyHash = hash && k.live && ownerActive s.tables k && (k.isActive || k.inGrace now) &&
      recentlyUsed globalDays k now

def ApiKey.expired (k : ApiKey) (now : Time) : Bool :=
  match k.expiresAt with
  | some expiresAt => expiresAt < now
  | none => false

/-- When the key stops authenticating, as it is reported. -/
def stopsAuthenticatingAt (expiresAt gracePeriodEndsAt : Option Time) : Option Time :=
  match expiresAt, gracePeriodEndsAt with
  | some a, some b => some (min a b)
  | a, b => a <|> b

/-! ## The two paths -/

inductive Refusal where
  | unauthorized
  | forbidden
  | tooManyRequests
  | unavailable
deriving DecidableEq, Repr

inductive KeyUse where
  | call
  | read
deriving DecidableEq, Repr

/-- What a request brings, and what is read for it besides the tables. -/
structure KeyRequestEnv where
  presented : Presented
  inactivityTimeoutDays : Int
  limitsLoaded : Bool
  rateLimitFailClosed : Bool
deriving DecidableEq, Repr

def surfaceGranted (limits : UserResourceLimits) (surface : String) : Bool :=
  if surface = "ai_gateway" then limits.aiGateway
  else if surface = "mcp_gateway" then limits.mcpGateway
  else false

/-- The part the two paths share: a row for the token, with the surface, and not expired. -/
def findKey (hashApiKey : String → String) (s : Store) (globalDays : Int) (surface token : String)
    (now : Time) : Except Refusal ApiKey := do
  let row ← orRefuse (lookup s globalDays (hashApiKey token) now) Refusal.unauthorized
  refuseIf (surface ∉ row.surfaces) Refusal.forbidden
  refuseIf (row.expired now) Refusal.unauthorized
  return row

/-- The limits of the request are loaded, or the request goes on without. -/
def checkLimits (env : KeyRequestEnv) (keyUse : KeyUse) : Except Refusal Unit := do
  refuseIf (env.limitsLoaded = false ∧ keyUse = .read) Refusal.unavailable
  refuseIf (env.limitsLoaded = false ∧ env.rateLimitFailClosed) Refusal.tooManyRequests

/-- The identity of an MCP request has the user and the email. -/
def checkMcpIdentity (db : Db) (surface : String) (k : ApiKey) : Except Refusal Unit :=
  refuseIf (surface = "mcp_gateway" ∧ ¬ db.users.any (fun u => k.userId = some u.id))
    Refusal.unauthorized

/-- `authenticate`, which `require_api_key` and `require_api_key_to_read` build. -/
def authenticate (hashApiKey : String → String) (s : Store) (surface : String) (keyUse : KeyUse)
    (env : KeyRequestEnv) (now : Time) : Except Refusal ApiKey := do
  let token ← orRefuse (presentedKey env.presented) Refusal.unauthorized
  refuseIf (¬ "tw-".toList.isPrefixOf token.toList) Refusal.unauthorized
  let row ← findKey hashApiKey s env.inactivityTimeoutDays surface token now
  let owner ← orRefuse row.userId Refusal.forbidden
  refuseIf (surfaceGranted (computeUserResourceLimits s.tables owner) surface = false)
    Refusal.forbidden
  checkLimits env keyUse
  checkMcpIdentity s.tables surface row
  return row

/--
`auth_via_api_key`, with the key that `require_auth` has read and `count`, the requests of the key
in this minute as far as Redis says.
-/
def authViaApiKey (hashApiKey : String → String) (s : Store) (token : String) (globalDays : Int)
    (count : Option Nat) (now : Time) : Except Refusal ApiKey := do
  refuseIf (¬ "tw-".toList.isPrefixOf token.toList) Refusal.unauthorized
  let row ← findKey hashApiKey s globalDays "console" token now
  refuseIf (count.any (120 < ·)) Refusal.tooManyRequests
  let owner ← orRefuse row.userId Refusal.forbidden
  refuseIf (¬ s.tables.users.any (fun u => u.id = owner && u.isActive && !u.deleted))
    Refusal.unauthorized
  return row

/-! ## What an accepted key looks like -/

section Accepted

variable {hashApiKey : String → String} {s : Store} {globalDays : Int} {hash surface token : String}
  {now : Time} {k : ApiKey}

/-- What the look-up and the check of the expiry establish. -/
structure Found (s : Store) (hash : String) (now : Time) (k : ApiKey) : Prop where
  row : k ∈ s.keys
  hash : k.keyHash = hash
  live : k.live = true
  owner : ownerActive s.tables k = true
  open_ : k.isActive = true ∨ k.inGrace now = true
  notExpired : k.expired now = false

theorem lookup_eq_some (h : lookup s globalDays hash now = some k) :
    k ∈ s.keys ∧ k.keyHash = hash ∧ k.live = true ∧ ownerActive s.tables k = true ∧
      (k.isActive = true ∨ k.inGrace now = true) := by
  have hk := List.find?_some h
  simp only [Bool.and_eq_true, Bool.or_eq_true, decide_eq_true_eq] at hk
  exact ⟨List.mem_of_find?_eq_some h, hk.1.1.1.1, hk.1.1.1.2, hk.1.1.2, hk.1.2⟩

theorem findKey_ok (h : findKey hashApiKey s globalDays surface token now = .ok k) :
    Found s (hashApiKey token) now k := by
  unfold findKey at h
  simp only [bind_ok, orRefuse_ok, refuseIf_ok, pure_ok] at h
  obtain ⟨row, hrow, _, -, _, hexpired, rfl⟩ := h
  obtain ⟨hmem, hhash, hlive, howner, hopen⟩ := lookup_eq_some hrow
  exact ⟨hmem, hhash, hlive, howner, hopen, Bool.eq_false_iff.mpr hexpired⟩

theorem authenticate_ok {keyUse : KeyUse} {env : KeyRequestEnv}
    (h : authenticate hashApiKey s surface keyUse env now = .ok k) :
    ∃ token, presentedKey env.presented = some token ∧ Found s (hashApiKey token) now k := by
  unfold authenticate at h
  simp only [bind_ok, orRefuse_ok, pure_ok] at h
  obtain ⟨token, htoken, _, -, row, hrow, _, -, _, -, _, -, _, -, rfl⟩ := h
  exact ⟨token, htoken, findKey_ok hrow⟩

theorem authViaApiKey_ok {count : Option Nat}
    (h : authViaApiKey hashApiKey s token globalDays count now = .ok k) :
    Found s (hashApiKey token) now k := by
  unfold authViaApiKey at h
  simp only [bind_ok, orRefuse_ok, pure_ok] at h
  obtain ⟨_, -, row, hrow, _, -, _, -, _, -, rfl⟩ := h
  exact findKey_ok hrow

end Accepted

/-! ## The sweep -/

/-- Step 1: expired keys. -/
def disableExpired (keys : List ApiKey) (now : Time) : List ApiKey :=
  updateWhere (fun k => k.isActive && k.expired now && k.disabledReason.isNone)
    (fun k => { k with isActive := false, disabledReason := some "expired" }) keys

/-- The key was last used before `t`. -/
def ApiKey.usedBefore (k : ApiKey) (t : Time) : Bool :=
  match k.lastUsedAt with
  | some used => used < t
  | none => false

def ApiKey.disabledInactive (k : ApiKey) : ApiKey :=
  { k with isActive := false, disabledReason := some "inactive" }

/-- Step 2: keys that fall under the global timeout, and keys with one of their own. -/
def disableInactive (globalDays : Int) (keys : List ApiKey) (now : Time) : List ApiKey :=
  if globalDays > 0 then
    updateWhere (fun k => k.isActive && k.usedBefore (now - days globalDays) &&
      k.disabledReason.isNone && k.inactivityTimeoutDays.getD 0 = 0) (·.disabledInactive) keys
  else keys

def disableInactivePerKey (keys : List ApiKey) (now : Time) : List ApiKey :=
  updateWhere (fun k => k.isActive && k.inactivityTimeoutDays.getD 0 > 0 &&
    k.usedBefore (now - days (k.inactivityTimeoutDays.getD 0)) && k.disabledReason.isNone)
    (·.disabledInactive) keys

def ApiKey.pastGrace (k : ApiKey) (now : Time) : Bool :=
  match k.gracePeriodEndsAt with
  | some ends => ends < now
  | none => false

/-- Step 3: rotated keys past their grace window. -/
def revokePastGrace (keys : List ApiKey) (now : Time) : List ApiKey :=
  updateWhere (fun k => k.isActive && k.pastGrace now) (fun k => { k with isActive := false }) keys

/-- The bucket of days in which a key expires. -/
def warningBucket (expiresAt now : Time) : Option Int :=
  if expiresAt ≤ now + days 1 then some 1
  else if expiresAt ≤ now + days 3 then some 3
  else if expiresAt ≤ now + days 7 then some 7
  else none

/-- The bucket a key is newly warned about. -/
def ApiKey.newWarning (k : ApiKey) (now : Time) : Option Int :=
  if k.isActive && k.live && k.gracePeriodEndsAt.isNone then
    match k.expiresAt with
    | some expiresAt =>
      if expiresAt > now then
        (warningBucket expiresAt now).filter fun b => k.lastExpiryWarningDays.all (b < ·)
      else none
    | none => none
  else none

/-- Step 4: the warnings that are sent are recorded. -/
def recordWarnings (keys : List ApiKey) (now : Time) : List ApiKey :=
  updateWhere (fun k => (k.newWarning now).isSome)
    (fun k => { k with lastExpiryWarningDays := k.newWarning now }) keys

def runLifecycleCheck (globalDays : Int) (keys : List ApiKey) (now : Time) : List ApiKey :=
  let keys := disableExpired keys now
  let keys := disableInactive globalDays keys now
  let keys := disableInactivePerKey keys now
  let keys := revokePastGrace keys now
  recordWarnings keys now

end ThinkWatch.Keys
