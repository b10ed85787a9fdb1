import ThinkWatch.Policy.Document
import ThinkWatch.Lib.Glob
import Mathlib.Data.List.Dedup
import Mathlib.Data.List.Sort

/-!
# Reading the action patterns

Four pieces of code read the `Action` patterns of a policy document:

* `extract_permissions` expands them against the catalog (`crates/common/src/limits/mod.rs`),
* `action_matches_any` tests them for the gateways (same file),
* `glob_match` tests them when a statement is evaluated (`crates/auth/src/rbac.rs`),
* the SQL of `assert_scope_*` tests them with `LIKE` (`middleware/auth_guard.rs`).

Strings are compared as lists of characters; searching by bytes finds the same places.
-/

namespace ThinkWatch.Policy

open Lib

/-! ## The catalog -/

/-- The keys of `PERMISSIONS`, which is what `all_permission_keys` returns. -/
def allPermissionKeys : List String :=
  ["ai_gateway:use", "mcp_gateway:use", "mcp:connect", "api_keys:read", "api_keys:create",
   "api_keys:update", "api_keys:rotate", "api_keys:delete", "api_keys:admin", "teams:read",
   "teams:create", "teams:update", "teams:delete", "team_members:write", "providers:read",
   "providers:create", "providers:update", "providers:delete", "providers:rotate_key",
   "models:read", "models:write", "mcp_servers:read", "mcp_servers:create", "mcp_servers:update",
   "mcp_servers:delete", "users:read", "users:create", "users:update", "users:delete",
   "sessions:revoke", "roles:read", "roles:create", "roles:update", "roles:delete",
   "roles:edit_system", "analytics:read_own", "analytics:read_team", "analytics:read_all",
   "logs:read_all", "logs:read_bodies", "log_forwarders:read", "log_forwarders:write",
   "webhooks:read", "webhooks:write", "content_filter:read", "content_filter:write",
   "pii_redactor:read", "pii_redactor:write", "rate_limits:read", "rate_limits:write",
   "settings:read", "settings:write", "system:configure_oidc"]

/-- A `BTreeSet<String>`, listed in order. -/
def btreeSet (xs : List String) : List String := xs.dedup.insertionSort (· ≤ ·)

theorem mem_btreeSet {xs : List String} {x : String} : x ∈ btreeSet xs ↔ x ∈ xs := by
  rw [btreeSet, List.mem_insertionSort, List.mem_dedup]

/-! ## Expansion -/

def stmtActions (stmt : Json) : List String :=
  match stmt.get "Action" with
  | some (.str s) => [s]
  | some (.arr items) => items.filterMap Json.asStr
  | _ => []

/-- `stmt.get("Effect").and_then(|e| e.as_str()).unwrap_or("")`. -/
def stmtEffect (stmt : Json) : String := ((stmt.get "Effect").bind Json.asStr).getD ""

def statements (doc : Json) : List Json := ((doc.get "Statement").bind Json.asArray).getD []

/-- What one action of an Allow statement adds to the permissions. -/
def expandAction (allPerms : List String) (action : String) : List String :=
  if action = "*" then allPerms
  else if [':', '*'].isSuffixOf action.toList then
    allPerms.filter fun p => action.toList.dropLast.isPrefixOf p.toList
  else [action]

def extractPermissions (doc : Json) (allPerms : List String) : List String :=
  btreeSet ((statements doc).flatMap fun stmt =>
    if stmtEffect stmt = "Allow" then (stmtActions stmt).flatMap (expandAction allPerms) else [])

/-- `compute_user_permissions`, from the documents of the user's roles. -/
def computeUserPermissions (docs : List Json) (allPerms : List String) : List String :=
  btreeSet (docs.flatMap fun doc => extractPermissions doc allPerms)

/-! ## The test of the gateways -/

/-- `a.strip_suffix('*')`. -/
def stripStar (a : List Char) : Option (List Char) :=
  if ['*'].isSuffixOf a then some a.dropLast else none

def actionMatches (target a : String) : Bool :=
  a == "*" || a == target ||
    match stripStar a.toList with
    | some stem => [':'].isSuffixOf stem && stem.isPrefixOf target.toList
    | none => false

def actionMatchesAny (actions : List String) (target : String) : Bool :=
  actions.any (actionMatches target)

/-! ## The evaluation of statements -/

/-- `find`: where `part` first occurs, and what comes after it. -/
def findPart (part : List Char) : List Char → Option (Nat × List Char)
  | [] => if part.isPrefixOf [] then some (0, []) else none
  | x :: xs =>
    if part.isPrefixOf (x :: xs) then some (0, (x :: xs).drop part.length)
    else (findPart part xs).map fun r => (r.1 + 1, r.2)

/-- The loop of `glob_match`: part number `i` and on, against what is left of the value. -/
def globScan : Nat → List (List Char) → List Char → Option (List Char)
  | _, [], rest => some rest
  | i, part :: parts, rest =>
    if part = [] then globScan (i + 1) parts rest
    else
      match findPart part rest with
      | some (found, rest') =>
        if i = 0 ∧ found ≠ 0 then none else globScan (i + 1) parts rest'
      | none => none

def globMatch (pattern value : String) : Bool :=
  if pattern = "*" then true
  else
    let parts := pattern.toList.splitOn '*'
    if parts.length = 1 then pattern == value
    else
      match globScan 0 parts value.toList with
      | none => false
      | some rest => if parts.getLast?.getD [] ≠ [] then rest == [] else true

inductive PolicyResult where
  | allow
  | deny
  | noMatch
deriving DecidableEq, Repr

def evaluateStatement (stmt : Statement) (action resource : String) : PolicyResult :=
  if ¬ stmt.action.patterns.any (globMatch · action) then .noMatch
  else if ¬ stmt.resource.patterns.any (globMatch · resource) then .noMatch
  else
    match stmt.effect with
    | .allow => .allow
    | .deny => .deny

/-- The loop of `evaluate_policy`, with `has_allow` so far. -/
def evaluateFrom (hasAllow : Bool) (action resource : String) : List Statement → PolicyResult
  | [] => if hasAllow then .allow else .noMatch
  | stmt :: stmts =>
    match evaluateStatement stmt action resource with
    | .deny => .deny
    | .allow => evaluateFrom true action resource stmts
    | .noMatch => evaluateFrom hasAllow action resource stmts

def evaluatePolicy (policy : PolicyDocument) (action resource : String) : PolicyResult :=
  evaluateFrom false action resource policy.statement

/-- `compute_denied_permissions`, from the documents of the user's roles. -/
def computeDeniedPermissions (docs : List Json) (allowed : List String) : List String :=
  allowed.filter fun perm =>
    (docs.filterMap PolicyDocument.fromValue).any fun doc =>
      evaluatePolicy doc perm "*" == .deny

/-! ## The test of the SQL -/

/-- A `LIKE` pattern, or `none` when it ends in the escape character, which is an error. -/
def likeTokens : List Char → Option (List (Token Char))
  | [] => some []
  | c :: cs =>
    if c = '\\' then
      match cs with
      | [] => none
      | d :: ds => (likeTokens ds).map (.lit d :: ·)
    else if c = '%' then (likeTokens cs).map (.any :: ·)
    else if c = '_' then (likeTokens cs).map (.one :: ·)
    else (likeTokens cs).map (.lit c :: ·)

/-- `replace(act, '*', '%')`. -/
def likePattern (act : String) : List Char := act.toList.map fun c => if c = '*' then '%' else c

/--
`act = '*' OR act = $2 OR (act LIKE '%*%' AND $2 LIKE replace(act, '*', '%'))`, where `none` is an
error.
-/
def actionTest (perm act : String) : Option Bool :=
  if act = "*" ∨ act = perm then some true
  else if '*' ∈ act.toList then (likeTokens (likePattern act)).map (covers · perm.toList)
  else some false

/--
Whether a statement of the document allows `perm`, for the scope checks. The documents in the table
have passed validation, so their actions are strings.
-/
def docAllows (perm : String) (doc : Json) : Option Bool :=
  (statements doc).anyM fun stmt =>
    if stmtEffect stmt = "Allow" then (stmtActions stmt).anyM (actionTest perm) else some false

end ThinkWatch.Policy
