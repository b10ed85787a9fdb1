import Mathlib.Algebra.Group.Int.Defs
import Mathlib.Algebra.GroupWithZero.Nat
import ThinkWatch.Errors
import ThinkWatch.Lib.Result

/-!
# Policy documents

The policy documents of `crates/auth/src/rbac.rs`: the JSON value that a role stores, the
`PolicyDocument` that serde reads from it, and `validate_policy_document`.

serde reads a struct from a JSON object or from an array with the fields in order, and a variant
without data from its name or from an object that maps the name to `null`. The handlers look into
the stored JSON by field name, so the two ways of writing a document do not read the same there.
-/

namespace ThinkWatch.Policy

open Lib

/-! ## JSON values -/

/-- `serde_json::Value`. A float is kept as its text; an object has each key once. -/
inductive Json where
  | null
  | bool (b : Bool)
  | int (n : Int)
  | float (text : String)
  | str (s : String)
  | arr (items : List Json)
  | obj (fields : List (String × Json))
deriving Repr

namespace Json

/-- `Value::get` with a key. -/
def get (key : String) : Json → Option Json
  | obj fields => fields.lookup key
  | _ => none

/-- `Value::as_str`. -/
def asStr : Json → Option String
  | str s => some s
  | _ => none

/-- `Value::as_array`. -/
def asArray : Json → Option (List Json)
  | arr items => some items
  | _ => none

/-- The value is read as a struct with `n` fields: an object, or an array with at most `n` items. -/
def isStruct (n : Nat) : Json → Bool
  | obj _ => true
  | arr items => items.length ≤ n
  | _ => false

/-- The field of a struct: by name in an object, by position in an array. -/
def field (key : String) (i : Nat) : Json → Option Json
  | obj fields => fields.lookup key
  | arr items => items[i]?
  | _ => none

/-- The bytes of one character in a JSON string. -/
def escapedLen (c : Char) : Nat :=
  if c = '"' ∨ c = '\\' ∨ c.toNat ∈ [8, 9, 10, 12, 13] then 2
  else if c.toNat < 0x20 then 6
  else c.utf8Size

def quotedLen (s : String) : Nat := 2 + (s.toList.map escapedLen).sum

mutual

/-- The bytes of `serde_json::to_string`. -/
def serializedLen : Json → Nat
  | null => 4
  | bool b => if b then 4 else 5
  | int n => (toString n).length
  | float text => text.length
  | str s => quotedLen s
  | arr items => 2 + itemsLen items
  | obj fields => 2 + fieldsLen fields

def itemsLen : List Json → Nat
  | [] => 0
  | item :: items => serializedLen item + (if items.isEmpty then 0 else 1) + itemsLen items

def fieldsLen : List (String × Json) → Nat
  | [] => 0
  | (key, value) :: fields =>
    quotedLen key + 1 + serializedLen value + (if fields.isEmpty then 0 else 1) + fieldsLen fields

end

end Json

/-! ## What serde reads -/

inductive Effect where
  | allow
  | deny
deriving DecidableEq, Repr

/-- `ActionPattern` and `ResourcePattern`: one pattern, or several. -/
inductive PatternSet where
  | single (s : String)
  | multiple (v : List String)
deriving DecidableEq, Repr

def PatternSet.patterns : PatternSet → List String
  | single s => [s]
  | multiple v => v

structure Statement where
  sid : Option String
  effect : Effect
  action : PatternSet
  resource : PatternSet
  condition : Option Json
deriving Repr

structure PolicyDocument where
  version : String
  statement : List Statement
deriving Repr

def Effect.ofName : String → Option Effect
  | "Allow" => some .allow
  | "Deny" => some .deny
  | _ => none

/-- A variant without data: its name, or `{name: null}`. -/
def Effect.fromValue : Json → Option Effect
  | .str name => Effect.ofName name
  | .obj [(name, .null)] => Effect.ofName name
  | _ => none

/-- `#[serde(untagged)]`: a string, or an array of strings. -/
def PatternSet.fromValue : Json → Option PatternSet
  | .str s => some (.single s)
  | .arr items => (items.mapM Json.asStr).map .multiple
  | _ => none

/-- `Option<String>` with a default: absent and `null` are `None`. -/
def optionalString : Option Json → Option (Option String)
  | none => some none
  | some .null => some none
  | some (.str s) => some (some s)
  | some _ => none

/-- `Option<Value>` with a default. -/
def optionalValue : Option Json → Option Json
  | some .null => none
  | v => v

def Statement.fromValue (value : Json) : Option Statement :=
  if value.isStruct 5 then do
    let sid ← optionalString (value.field "Sid" 0)
    let effect ← Effect.fromValue (← value.field "Effect" 1)
    let action ← PatternSet.fromValue (← value.field "Action" 2)
    let resource ← PatternSet.fromValue (← value.field "Resource" 3)
    return ⟨sid, effect, action, resource, optionalValue (value.field "Condition" 4)⟩
  else none

/-- `serde_json::from_value`. -/
def PolicyDocument.fromValue (value : Json) : Option PolicyDocument :=
  if value.isStruct 2 then do
    let version ← Json.asStr (← value.field "Version" 0)
    let items ← Json.asArray (← value.field "Statement" 1)
    let statement ← items.mapM Statement.fromValue
    return ⟨version, statement⟩
  else none

/-! ## Validation -/

/-- The checks of one statement, in the order of the source. -/
def checkStatement (i : Nat) (stmt : Statement) : Except String Unit := do
  refuseIf (stmt.action.patterns = []) s!"Statement[{i}]: Action must not be empty"
  refuseIf (stmt.resource.patterns = []) s!"Statement[{i}]: Resource must not be empty"
  refuseIf (stmt.action.patterns.length > 50)
    s!"Statement[{i}]: Too many action patterns (max 50)"
  refuseIf (stmt.resource.patterns.length > 50)
    s!"Statement[{i}]: Too many resource patterns (max 50)"
  refuseIf ("" ∈ stmt.action.patterns) s!"Statement[{i}]: Action pattern must not be empty"
  refuseIf ("" ∈ stmt.resource.patterns) s!"Statement[{i}]: Resource pattern must not be empty"

def checkStatements : Nat → List Statement → Except String Unit
  | _, [] => .ok ()
  | i, stmt :: stmts => do
    checkStatement i stmt
    checkStatements (i + 1) stmts

/-- `validate_policy_document`. What serde says of a value it cannot read is left out. -/
def validatePolicyDocument (value : Json) : Except String PolicyDocument := do
  refuseIf (value.serializedLen > 65536) "Policy document too large (max 64 KB)"
  let doc ← orRefuse (PolicyDocument.fromValue value) "Invalid policy JSON"
  refuseIf (doc.statement.length = 0) "Policy must contain at least one Statement"
  refuseIf (doc.statement.length > 100) "Policy contains too many statements (max 100)"
  checkStatements 0 doc.statement
  return doc

/-- What is accepted is what serde reads. -/
theorem fromValue_of_validate {value : Json} {doc : PolicyDocument}
    (h : validatePolicyDocument value = .ok doc) : PolicyDocument.fromValue value = some doc := by
  unfold validatePolicyDocument at h
  rw [refuseIf_bind_ok, bind_ok] at h
  obtain ⟨-, d, hd, h⟩ := h
  rw [refuseIf_bind_ok, refuseIf_bind_ok, bind_ok] at h
  obtain ⟨-, -, x, -, hdoc⟩ := h
  rw [orRefuse_ok] at hd
  rw [hd, pure_ok.mp hdoc]

end ThinkWatch.Policy
