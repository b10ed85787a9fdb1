import Mathlib.Tactic.Common

/-!
# Errors of the handlers

`crates/common/src/errors.rs`. Where the source formats a message, the model carries the text.
-/

namespace ThinkWatch

/-- A row id. Only equality of ids is used. -/
abbrev Uuid := Nat

/-- `AppError`. -/
inductive AppError where
  | unauthorized
  | forbidden (msg : String)
  | totpEnrollmentRequired
  | notFound (msg : String)
  | badRequest (msg : String)
  | rateLimited
  | conflict (msg : String)
  | modelNotServed (msg : String)
  | serviceUnavailable (msg : String)
  | internal (msg : String)
deriving DecidableEq, Repr

end ThinkWatch
