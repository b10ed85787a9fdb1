import ThinkWatch.Policy.Matchers

/-!
# Limits inside policy documents

The check of the `Constraints` blocks of a document that `create_role` and `update_role` make:
`validate_policy_constraints_in_doc` of `handlers/roles.rs` and what it calls in
`crates/common/src/limits/mod.rs`.
-/

namespace ThinkWatch.Policy

open Lib

structure PolicyRateLimit where
  metric : String
  window : String
  maxCount : Int
deriving DecidableEq, Repr

structure PolicyBudget where
  period : String
  maxTokens : Int
deriving DecidableEq, Repr

structure PolicyConstraints where
  rateLimits : List PolicyRateLimit
  budgets : List PolicyBudget
deriving DecidableEq, Repr

/-! ## What serde reads -/

/-- An `i64`. -/
def Json.asI64 : Json → Option Int
  | .int n => if -2 ^ 63 ≤ n ∧ n < 2 ^ 63 then some n else none
  | _ => none

def PolicyRateLimit.fromValue (value : Json) : Option PolicyRateLimit :=
  if value.isStruct 3 then do
    let metric ← Json.asStr (← value.field "Metric" 0)
    let window ← Json.asStr (← value.field "Window" 1)
    let maxCount ← Json.asI64 (← value.field "MaxCount" 2)
    return ⟨metric, window, maxCount⟩
  else none

def PolicyBudget.fromValue (value : Json) : Option PolicyBudget :=
  if value.isStruct 2 then do
    let period ← Json.asStr (← value.field "Period" 0)
    let maxTokens ← Json.asI64 (← value.field "MaxTokens" 1)
    return ⟨period, maxTokens⟩
  else none

/-- A list with a default: absent is empty. -/
def optionalList {α : Type} (read : Json → Option α) : Option Json → Option (List α)
  | none => some []
  | some (.arr items) => items.mapM read
  | some _ => none

def PolicyConstraints.fromValue (value : Json) : Option PolicyConstraints :=
  if value.isStruct 2 then do
    let rateLimits ← optionalList PolicyRateLimit.fromValue (value.field "RateLimits" 0)
    let budgets ← optionalList PolicyBudget.fromValue (value.field "Budgets" 1)
    return ⟨rateLimits, budgets⟩
  else none

/-! ## Validation -/

def windowToSecs : String → Option Int
  | "1m" => some 60
  | "5m" => some 300
  | "1h" => some 3600
  | "5h" => some 18000
  | "1d" => some 86400
  | "1w" => some 604800
  | _ => none

def rateMetrics : List String := ["requests", "tokens"]

def budgetPeriods : List String := ["daily", "weekly", "monthly"]

def allowedWindowSecs : List Int := [60, 300, 3600, 18000, 86400, 604800]

def checkRateLimit (i : Nat) (rl : PolicyRateLimit) : Except String Unit := do
  let secs ← orRefuse (windowToSecs rl.window)
    s!"RateLimits[{i}]: Window '{rl.window}' not in allowed set (1m/5m/1h/5h/1d/1w)"
  refuseIf (secs ∉ allowedWindowSecs) s!"RateLimits[{i}]: Window '{rl.window}' not allowed"
  refuseIf (rl.maxCount ≤ 0) s!"RateLimits[{i}]: MaxCount must be > 0"
  refuseIf (rl.metric ∉ rateMetrics)
    s!"RateLimits[{i}]: Metric '{rl.metric}' unknown (expected requests/tokens)"

def checkBudget (i : Nat) (b : PolicyBudget) : Except String Unit := do
  refuseIf (b.maxTokens ≤ 0) s!"Budgets[{i}]: MaxTokens must be > 0"
  refuseIf (b.period ∉ budgetPeriods)
    s!"Budgets[{i}]: Period '{b.period}' unknown (expected daily/weekly/monthly)"

def validatePolicyConstraints (c : PolicyConstraints) : Except String Unit := do
  c.rateLimits.zipIdx.forM fun (rl, i) => checkRateLimit i rl
  c.budgets.zipIdx.forM fun (b, i) => checkBudget i b

/-- The `Constraints` of one statement. What serde says of a value it cannot read is left out. -/
def checkConstraints (i : Nat) (stmt : Json) : Except AppError Unit :=
  match stmt.get "Constraints" with
  | none => .ok ()
  | some .null => .ok ()
  | some c => do
    let constraints ← orRefuse (PolicyConstraints.fromValue c)
      (AppError.badRequest s!"Statement[{i}].Constraints: invalid")
    (validatePolicyConstraints constraints).mapError fun e =>
      AppError.badRequest s!"Statement[{i}].{e}"

def validatePolicyConstraintsInDoc (doc : Json) : Except AppError Unit :=
  (statements doc).zipIdx.forM fun (stmt, i) => checkConstraints i stmt

end ThinkWatch.Policy
