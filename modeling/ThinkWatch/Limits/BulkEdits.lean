import ThinkWatch.Gateway.Preflight
import ThinkWatch.Keys.Table
import ThinkWatch.Lib.Each
import ThinkWatch.Policy.Constraints
import ThinkWatch.Rbac.Guards

/-!
# Limits set for one subject and for many

`upsert_rule` and `upsert_cap` of `handlers/limits.rs` set a limit for the subject of the path,
`bulk_apply_rule` and `bulk_apply_cap` of `handlers/limits_bulk.rs` the same limit for a list of
subjects. The endpoints for rules and those for caps differ in the words for the subject and in what
tells the limits of a subject apart (`slot`: surface, metric and window, or the period), so both are
one definition with a `Family` as its parameter.

A single edit of the subject kind `api_key` resolves the key's id to its lineage; the kind that the
bulk endpoints parse is the stored one, `api_key_lineage`, and the id is stored as it comes.

Times are in nanoseconds. The audit log and the notice to the gateways are left out.
-/

namespace ThinkWatch.Limits

open Lib Rbac Keys
open Gateway (RateLimitSubject RateMetric LimitSurface)
open Policy (allowedWindowSecs)

/-! ## Tables -/

/-- A row of `rate_limit_rules` or `budget_caps`. -/
structure LimitRow (σ κ : Type) where
  id : Uuid
  subjectKind : σ
  subjectId : Uuid
  slot : κ
  amount : Int
  enabled : Bool
  expiresAt : Option Int
  reason : Option String
  createdBy : Option Uuid
deriving DecidableEq, Repr

/-- The rows, and how many ids `gen_random_uuid()` has given to them. -/
structure LimitTable (σ κ : Type) where
  rows : List (LimitRow σ κ)
  drawn : Nat
deriving DecidableEq, Repr

/-- `UpsertRule`, `UpsertCap`. -/
structure Upsert (σ κ : Type) where
  subjectKind : σ
  subjectId : Uuid
  slot : κ
  amount : Int
  enabled : Bool
  expiresAt : Option Int
  reason : Option String
  createdBy : Option Uuid
deriving DecidableEq, Repr

/-- `sqlx::Error`, as far as it comes up here. -/
inductive SqlError where
  | protocol (msg : String)
  | database (msg : String)
deriving DecidableEq, Repr

variable {σ κ ρ : Type} [DecidableEq σ] [DecidableEq κ]

/-- The columns of the `ON CONFLICT` clause. -/
def LimitRow.conflicts (row : LimitRow σ κ) (req : Upsert σ κ) : Bool :=
  row.subjectKind = req.subjectKind && row.subjectId = req.subjectId && row.slot = req.slot

def LimitRow.updated (row : LimitRow σ κ) (req : Upsert σ κ) : LimitRow σ κ :=
  { row with
    amount := req.amount
    enabled := req.enabled
    expiresAt := req.expiresAt
    reason := req.reason
    createdBy := req.createdBy }

def Upsert.row (req : Upsert σ κ) (id : Uuid) : LimitRow σ κ :=
  ⟨id, req.subjectKind, req.subjectId, req.slot, req.amount, req.enabled, req.expiresAt, req.reason,
    req.createdBy⟩

/-- `INSERT .. ON CONFLICT .. DO UPDATE .. RETURNING`. -/
def LimitTable.upsert (ids : Nat → Uuid) (req : Upsert σ κ) (table : LimitTable σ κ) :
    LimitRow σ κ × LimitTable σ κ :=
  match table.rows.find? (·.conflicts req) with
  | some row =>
    (row.updated req,
      { table with rows := table.rows.map fun r => if r.conflicts req then r.updated req else r })
  | none =>
    let row := req.row (ids table.drawn)
    (row, ⟨table.rows ++ [row], table.drawn + 1⟩)

/-- What PostgreSQL itself refuses: a text with a NUL, and an author who is no user. -/
def databaseRefuses (db : Db) (reason : Option String) (createdBy : Option Uuid) : Prop :=
  (∃ text ∈ reason, '\x00' ∈ text.toList) ∨
    ∃ author ∈ createdBy, ∀ user ∈ db.users, user.id ≠ author

instance (db : Db) (reason : Option String) (createdBy : Option Uuid) :
    Decidable (databaseRefuses db reason createdBy) :=
  inferInstanceAs (Decidable (_ ∨ _))

/-! ## The two families of endpoints -/

/-- What the endpoints for rules and those for caps differ in. -/
structure Family (σ κ ρ : Type) where
  user : σ
  apiKeyLineage : σ
  noun : String
  /-- The surface, metric and window, or the period, as a single edit and as a bulk edit read it. -/
  slot : ρ → Except AppError κ
  bulkSlot : ρ → Except AppError κ
  /-- What the engine checks before it writes. -/
  check : κ → Int → Except String Unit

namespace Family

/-- `RateLimitSubject::parse`, `BudgetSubject::parse`. -/
def parse (fam : Family σ κ ρ) : String → Option σ
  | "user" => some fam.user
  | "api_key_lineage" => some fam.apiKeyLineage
  | _ => none

/-- `parse_rate_subject`, `parse_budget_subject`. -/
def parseSubject (fam : Family σ κ ρ) : String → Except AppError σ
  | "role" => .error (.badRequest "Role limits are inline on the role; use the role endpoint")
  | "user" => .ok fam.user
  | "api_key" => .ok fam.apiKeyLineage
  | other =>
    .error (.badRequest s!"Unknown {fam.noun} subject kind '{other}' (allowed: user, api_key)")

/-- `limits::upsert_rule`, `limits::upsert_cap`. -/
def upsert (fam : Family σ κ ρ) (db : Db) (ids : Nat → Uuid) (req : Upsert σ κ)
    (table : LimitTable σ κ) : Except SqlError (LimitRow σ κ) × LimitTable σ κ :=
  match fam.check req.slot req.amount with
  | .error msg => (.error (.protocol msg), table)
  | .ok () =>
    if databaseRefuses db req.reason req.createdBy then
      (.error (.database "error returned from database"), table)
    else
      let (row, table) := table.upsert ids req
      (.ok row, table)

end Family

/-- The two parsers of an enumeration, which name what they know in different words. -/
def parseOr (parse : String → Option κ) (what allowed text : String) : Except AppError κ :=
  orRefuse (parse text) (.badRequest s!"Unknown {what} '{text}'{allowed}")

def parseSurface : String → Option LimitSurface
  | "ai_gateway" => some .aiGateway
  | "mcp_gateway" => some .mcpGateway
  | _ => none

def parseMetric : String → Option RateMetric
  | "requests" => some .requests
  | "tokens" => some .tokens
  | _ => none

def parsePeriod : String → Option BudgetPeriod
  | "daily" => some .daily
  | "weekly" => some .weekly
  | "monthly" => some .monthly
  | _ => none

/-- The surface, the metric and `window_secs` of a body. -/
abbrev RuleSlotText := String × String × Int

abbrev RuleSlot := LimitSurface × RateMetric × Int

def ruleSlot (surfaces metrics : String) (text : RuleSlotText) : Except AppError RuleSlot := do
  let surface ← parseOr parseSurface "surface" surfaces text.1
  let metric ← parseOr parseMetric "metric" metrics text.2.1
  return (surface, metric, text.2.2)

def ruleFamily : Family RateLimitSubject RuleSlot RuleSlotText where
  user := .user
  apiKeyLineage := .apiKeyLineage
  noun := "rate-limit"
  slot := ruleSlot " (allowed: ai_gateway, mcp_gateway)" " (allowed: requests, tokens)"
  bulkSlot := ruleSlot "" ""
  check slot maxCount := do
    refuseIf (slot.2.2 ∉ allowedWindowSecs) s!"window_secs {slot.2.2} not in allowed set"
    refuseIf (maxCount ≤ 0) "max_count must be > 0"

def capFamily : Family BudgetSubject BudgetPeriod String where
  user := .user
  apiKeyLineage := .apiKeyLineage
  noun := "budget"
  slot := parseOr parsePeriod "period" " (allowed: daily, weekly, monthly)"
  bulkSlot := parseOr parsePeriod "period" ""
  check _ limitTokens := refuseIf (limitTokens ≤ 0) "limit_tokens must be > 0"

/-! ## The handlers -/

/-- `AuthUser::assert_scope_for_subject`. `LIMIT 1` takes the first row of the table. -/
def assertScopeForSubject (u : AuthUser) (db : Db) (keys : List ApiKey) (perm kind : String)
    (id : Uuid) : Except AppError Unit :=
  let ownedBy (owner : Option Uuid) : Except AppError Unit :=
    match owner with
    | some user =>
      if user ≠ u.sub then u.assertScopeForUser db perm user else u.assertScopeGlobal db perm
    | none => u.assertScopeGlobal db perm
  match kind with
  | "role" => u.assertScopeGlobal db perm
  | "user" => ownedBy (some id)
  | "api_key" => ownedBy ((keys.find? (·.id = id)).bind (·.userId))
  | "api_key_lineage" => ownedBy ((keys.find? (·.lineageId = id)).bind (·.userId))
  | other =>
    .error (.badRequest s!"unknown subject_kind '{other}' (expected: user, api_key, role)")

def maxOverrideHorizonDays : Int := 90

def nsPerDay : Int := 86400 * 10 ^ 9

def maxReasonLen : Nat := 500

def validateOverrideMeta (now : Int) (expiresAt : Option Int) (reason : Option String) :
    Except AppError (Option Int × Option String) := do
  refuseIf (∃ t ∈ expiresAt, t ≤ now) (AppError.badRequest "expires_at must be in the future")
  refuseIf (∃ t ∈ expiresAt, t - now > maxOverrideHorizonDays * nsPerDay)
    (AppError.badRequest (s!"expires_at must be within {maxOverrideHorizonDays} days — edit the " ++
      "role for a permanent change"))
  let trimmed := (reason.map trim).filter (· ≠ "")
  refuseIf (∃ r ∈ trimmed, r.utf8ByteSize > maxReasonLen)
    (AppError.badRequest s!"reason must be at most {maxReasonLen} characters")
  return (expiresAt, trimmed)

/-- What the endpoints read and never change: the caller, the tables, the clock. -/
structure Setting where
  caller : AuthUser
  db : Db
  keys : List ApiKey
  now : Int
  ids : Nat → Uuid

/-- The limit of a request, which a bulk edit sets for all its targets. -/
structure LimitSpec (ρ : Type) where
  slot : ρ
  amount : Int
  enabled : Bool
  expiresAt : Option Int
  reason : Option String
deriving DecidableEq, Repr

structure SubjectRef where
  kind : String
  id : Uuid
deriving DecidableEq, Repr

def resolveSubjectId (keys : List ApiKey) (kind : String) (id : Uuid) : Except AppError Uuid :=
  if kind ≠ "api_key" then .ok id
  else
    orRefuse ((keys.find? (·.id = id)).map (·.lineageId)) (.notFound s!"api_key {id} not found")

def mapValidationError : SqlError → AppError
  | .protocol msg => .badRequest msg
  | .database _ => .internal "Database error"

namespace Family

/-- A single edit up to its write. -/
def readEdit (fam : Family σ κ ρ) (w : Setting) (spec : LimitSpec ρ) (target : SubjectRef) :
    Except AppError (Upsert σ κ) := do
  w.caller.requirePermission "rate_limits:write"
  assertScopeForSubject w.caller w.db w.keys "rate_limits:write" target.kind target.id
  let subjectKind ← fam.parseSubject target.kind
  let storageId ← resolveSubjectId w.keys target.kind target.id
  let slot ← fam.slot spec.slot
  let (expiresAt, reason) ← validateOverrideMeta w.now spec.expiresAt spec.reason
  return ⟨subjectKind, storageId, slot, spec.amount, spec.enabled, expiresAt, reason,
    some w.caller.sub⟩

/-- The handlers `upsert_rule` and `upsert_cap`. -/
def edit (fam : Family σ κ ρ) (w : Setting) (spec : LimitSpec ρ) (target : SubjectRef)
    (table : LimitTable σ κ) : Except AppError (LimitRow σ κ) × LimitTable σ κ :=
  match fam.readEdit w spec target with
  | .error e => (.error e, table)
  | .ok req =>
    let (row, table) := fam.upsert w.db w.ids req table
    (row.mapError mapValidationError, table)

end Family

/-- The row of a target, or why it has none. -/
structure BulkOutcome where
  subjectKind : String
  subjectId : Uuid
  result : Except String Uuid

def BulkOutcome.success (o : BulkOutcome) : Bool := o.result.isOk

structure BulkApplyResponse where
  outcomes : List BulkOutcome
  successCount : Nat
  errorCount : Nat

def dbErrorMessage : SqlError → String
  | .protocol msg => msg
  | .database msg => msg

/-- `Display` of `AppError`. -/
def appErrorText : AppError → String
  | .unauthorized => "Authentication required"
  | .totpEnrollmentRequired => "Two-factor authentication must be set up before continuing"
  | .rateLimited => "Rate limit exceeded"
  | .forbidden msg | .notFound msg | .badRequest msg | .conflict msg | .modelNotServed msg => msg
  | .serviceUnavailable msg => s!"Service unavailable: {msg}"
  | .internal msg => s!"Internal error: {msg}"

namespace Family

/-- What a bulk edit reads once, for all its targets. -/
def readBulk (fam : Family σ κ ρ) (w : Setting) (spec : LimitSpec ρ) (targets : List SubjectRef) :
    Except AppError (κ × Option Int × Option String) := do
  w.caller.requirePermission "rate_limits:write"
  refuseIf (targets = []) (AppError.badRequest "targets cannot be empty")
  refuseIf (targets.length > 500) (AppError.badRequest "targets capped at 500 per request")
  let slot ← fam.bulkSlot spec.slot
  let (expiresAt, reason) ← validateOverrideMeta w.now spec.expiresAt spec.reason
  return (slot, expiresAt, reason)

def applyTo (fam : Family σ κ ρ) (w : Setting) (spec : LimitSpec ρ)
    (shared : κ × Option Int × Option String) (target : SubjectRef) (table : LimitTable σ κ) :
    BulkOutcome × LimitTable σ κ :=
  let outcome := BulkOutcome.mk target.kind target.id
  match fam.parse target.kind with
  | none => (outcome (.error s!"Unknown subject kind '{target.kind}'"), table)
  | some kind =>
    match assertScopeForSubject w.caller w.db w.keys "rate_limits:write" target.kind target.id with
    | .error e => (outcome (.error (appErrorText e)), table)
    | .ok () =>
      let (row, table) := fam.upsert w.db w.ids
        ⟨kind, target.id, shared.1, spec.amount, spec.enabled, shared.2.1, shared.2.2,
          some w.caller.sub⟩ table
      (outcome ((row.map LimitRow.id).mapError dbErrorMessage), table)

/-- The handlers `bulk_apply_rule` and `bulk_apply_cap`. -/
def bulkApply (fam : Family σ κ ρ) (w : Setting) (spec : LimitSpec ρ) (targets : List SubjectRef)
    (table : LimitTable σ κ) : Except AppError BulkApplyResponse × LimitTable σ κ :=
  match fam.readBulk w spec targets with
  | .error e => (.error e, table)
  | .ok shared =>
    let (outcomes, table) := each (fam.applyTo w spec shared) targets table
    (.ok ⟨outcomes, outcomes.countP BulkOutcome.success,
      outcomes.countP fun o => !o.success⟩, table)

end Family

def upsertRule (w : Setting) (spec : LimitSpec RuleSlotText) (target : SubjectRef)
    (table : LimitTable RateLimitSubject RuleSlot) :=
  ruleFamily.edit w spec target table

def upsertCap (w : Setting) (spec : LimitSpec String) (target : SubjectRef)
    (table : LimitTable BudgetSubject BudgetPeriod) :=
  capFamily.edit w spec target table

def bulkApplyRule (w : Setting) (spec : LimitSpec RuleSlotText) (targets : List SubjectRef)
    (table : LimitTable RateLimitSubject RuleSlot) :=
  ruleFamily.bulkApply w spec targets table

def bulkApplyCap (w : Setting) (spec : LimitSpec String) (targets : List SubjectRef)
    (table : LimitTable BudgetSubject BudgetPeriod) :=
  capFamily.bulkApply w spec targets table

end ThinkWatch.Limits
