import ThinkWatch.Policy.Document
import ThinkWatch.Validation

/-!
# The policies of the guards

`crates/common/src/guard_policy/mod.rs`: the policy of each guard as a system setting, and
`validate`, which checks one before it is saved. The shapes are `tw_guard`'s; an `Engine` stands for
what it does with them: the built-in rules, what compiles, `check`, and how serde reads and writes.
-/

namespace ThinkWatch.Guards

open Lib Policy

/-! ## The shapes -/

inductive Guard where
  | redact
  | inspectTools
  | content
deriving DecidableEq, Repr

inductive Mode where
  | off
  | observe
  | enforce
deriving DecidableEq, Repr

inductive ContentMatch where
  | contains
  | regex
  | codepoints
deriving DecidableEq, Repr

inductive ContentAction where
  | block
  | strip
  | replace
  | record
deriving DecidableEq, Repr

inductive RedactAction where
  | placeholder
  | record
deriving DecidableEq, Repr

inductive ToolAction where
  | cut
  | record
deriving DecidableEq, Repr

inductive Side where
  | request
  | response
deriving DecidableEq, Repr

structure CustomContentRule where
  name : String
  pattern : String
  scope : List Side
  matching : ContentMatch
  caseSensitive : Bool
  action : ContentAction
  replacement : String
  disabled : Bool
deriving DecidableEq, Repr

structure CustomRedactRule where
  name : String
  pattern : String
  matching : ContentMatch
  caseSensitive : Bool
  label : Option String
  action : RedactAction
  disabled : Bool
deriving DecidableEq, Repr

structure CustomToolRule where
  name : String
  pattern : String
  action : ToolAction
  disabled : Bool
deriving DecidableEq, Repr

/-- What is different from the factory, and the custom rules. The default is the factory's. -/
structure GuardPolicy (α ρ : Type) where
  mode : Mode := .observe
  enable : List String := []
  disable : List String := []
  actions : List (String × α) := []
  custom : List ρ := []
deriving DecidableEq, Repr

abbrev ContentPolicy := GuardPolicy ContentAction CustomContentRule

abbrev RedactPolicy := GuardPolicy RedactAction CustomRedactRule

abbrev ToolPolicy := GuardPolicy ToolAction CustomToolRule

/-! ## The engine -/

structure ContentBuiltin where
  id : String
  matching : ContentMatch
  pattern : String
  onByDefault : Bool
deriving DecidableEq, Repr

structure RedactBuiltin where
  id : String
  isPersonal : Bool
  onByDefault : Bool
deriving DecidableEq, Repr

/-- `to_value` and `from_value` of one type. -/
structure Serde (π : Type) where
  toValue : π → Json
  fromValue : Json → Except String π

/-- `p` is written as an object, and read back from it. -/
def Serde.Lossless {π : Type} (s : Serde π) (p : π) : Prop :=
  (∃ fields, s.toValue p = .obj fields) ∧ s.fromValue (s.toValue p) = .ok p

/-- `tw_guard`. The three `Compiles` and `named` are what its `check` goes by. -/
structure Engine where
  contentBuiltins : List ContentBuiltin
  builtinAction : ContentBuiltin → ContentAction
  redactBuiltins : List RedactBuiltin
  toolBuiltins : List String
  contentCompiles : ContentMatch → Bool → String → Bool
  redactCompiles : ContentMatch → Bool → String → Bool
  toolCompiles : String → Bool
  compile : String → String → Bool
  single : String → String → Bool → Bool
  labelOk : String → Bool
  named : String → Bool
  checkContent : ContentPolicy → Except String Unit
  checkRedact : RedactPolicy → Except String Unit
  checkTools : ToolPolicy → Except String Unit
  contentValue : Serde ContentPolicy
  redactValue : Serde RedactPolicy
  toolValue : Serde ToolPolicy
  readMode : Json → Option Mode
  readToolAction : Json → Option ToolAction

def labelMax : Nat := 24

def defaultLabel : String := "SECRET"

def defaultReplacement : String := "***"

def requestOnly : List Side := [.request]

/-! ## `validate` -/

def Guard.key : Guard → String
  | redact => "security.redact"
  | inspectTools => "security.inspect_tools"
  | content => "security.content"

def replacementChars : Nat := 200

structure Limits where
  customRules : Nat
  patternChars : Nat

def limits : Guard → Limits
  | .redact => ⟨100, 1000⟩
  | .inspectTools => ⟨100, 1000⟩
  | .content => ⟨500, 500⟩

/-- `custom` are the names and patterns. -/
def withinLimits (guard : Guard) (custom : List (String × String)) : Except String Unit := do
  let ⟨customRules, patternChars⟩ := limits guard
  let key := guard.key
  let count := custom.length
  refuseIf (customRules < count)
    s!"{key}: {count} custom rules; at most {customRules} are allowed"
  match custom.find? fun c => patternChars < c.2.length with
  | some (name, pattern) =>
    let n := pattern.length
    .error (s!"{key}: the pattern of custom rule `{name}` is {n} characters long; at most " ++
      s!"{patternChars} are allowed")
  | none => .ok ()

/-- A policy is an object, also where serde would read one out of an array. -/
def parse {π : Type} (s : Serde π) (guard : Guard) (value : Json) : Except String π :=
  match value with
  | .obj _ => (s.fromValue value).mapError fun e => guard.key ++ ": " ++ e
  | _ => .error (guard.key ++ ": expected a JSON object")

def CustomContentRule.limited (c : CustomContentRule) : String × String := (c.name, c.pattern)

def CustomRedactRule.limited (c : CustomRedactRule) : String × String := (c.name, c.pattern)

def CustomToolRule.limited (c : CustomToolRule) : String × String := (c.name, c.pattern)

namespace Engine

variable (e : Engine)

def validate (guard : Guard) (value : Json) : Except String Unit :=
  let key := guard.key
  match guard with
  | .redact => do
    let p ← parse e.redactValue guard value
    withinLimits guard (p.custom.map CustomRedactRule.limited)
    e.checkRedact p
  | .inspectTools => do
    let p ← parse e.toolValue guard value
    withinLimits guard (p.custom.map CustomToolRule.limited)
    match p.custom.find? fun c => e.toolBuiltins.contains c.name with
    | some c =>
      let name := c.name
      .error (s!"{key}: custom rule `{name}` has the name of a built-in rule; " ++
        "give it another name")
    | none => e.checkTools p
  | .content => do
    let p ← parse e.contentValue guard value
    withinLimits guard (p.custom.map CustomContentRule.limited)
    match p.custom.find? fun c => replacementChars < c.replacement.length with
    | some c =>
      let name := c.name
      let n := c.replacement.length
      .error (s!"{key}: the replacement text of custom rule `{name}` is {n} characters long; at " ++
        s!"most {replacementChars} are allowed")
    | none => e.checkContent p

end Engine

theorem parse_toValue {π : Type} {s : Serde π} {p : π} (h : s.Lossless p) (guard : Guard) :
    parse s guard (s.toValue p) = .ok p := by
  obtain ⟨⟨fields, hobj⟩, hread⟩ := h
  have hparse : parse s guard (s.toValue p) =
      (s.fromValue (s.toValue p)).mapError fun e => guard.key ++ ": " ++ e := by
    rw [hobj]
    rfl
  rw [hparse, hread]
  rfl

namespace Engine

variable {e : Engine}

theorem validate_redact {p : RedactPolicy} (h : e.redactValue.Lossless p)
    (hlimits : withinLimits .redact (p.custom.map CustomRedactRule.limited) = .ok ()) :
    e.validate .redact (e.redactValue.toValue p) = e.checkRedact p := by
  simp only [validate, parse_toValue h, hlimits, bind, Except.bind]

theorem validate_tools {p : ToolPolicy} (h : e.toolValue.Lossless p)
    (hlimits : withinLimits .inspectTools (p.custom.map CustomToolRule.limited) = .ok ()) :
    e.validate .inspectTools (e.toolValue.toValue p) = .ok () ↔
      (∀ c ∈ p.custom, c.name ∉ e.toolBuiltins) ∧ e.checkTools p = .ok () := by
  simp only [validate, parse_toValue h, hlimits, bind, Except.bind]
  cases hfind : p.custom.find? fun c => e.toolBuiltins.contains c.name with
  | none =>
    have hnone : ∀ c ∈ p.custom, c.name ∉ e.toolBuiltins := by
      simpa [List.find?_eq_none] using hfind
    exact ⟨fun hc => ⟨hnone, hc⟩, fun hc => hc.2⟩
  | some c =>
    have hname : c.name ∈ e.toolBuiltins := by simpa using List.find?_some hfind
    constructor
    · intro hc
      cases hc
    · rintro ⟨hnone, -⟩
      exact absurd hname (hnone c (List.mem_of_find?_eq_some hfind))

theorem validate_content {p : ContentPolicy} (h : e.contentValue.Lossless p)
    (hlimits : withinLimits .content (p.custom.map CustomContentRule.limited) = .ok ())
    (hreplacement : ∀ c ∈ p.custom, c.replacement.length ≤ replacementChars) :
    e.validate .content (e.contentValue.toValue p) = e.checkContent p := by
  have hfind : (p.custom.find? fun c => replacementChars < c.replacement.length) = none := by
    rw [List.find?_eq_none]
    intro c hc
    simpa using hreplacement c hc
  simp only [validate, parse_toValue h, hlimits, hfind, bind, Except.bind]

end Engine

/-! ## What `check` requires -/

/-- Known ids, and custom rules that are `right` and have names, each another. -/
structure GuardPolicy.Checked {α ρ : Type} (ids : List String) (right : ρ → Prop)
    (name : ρ → String) (named : String → Bool) (p : GuardPolicy α ρ) : Prop where
  enable : ∀ id ∈ p.enable, id ∈ ids
  disable : ∀ id ∈ p.disable, id ∈ ids
  actions : ∀ entry ∈ p.actions, entry.1 ∈ ids
  right : ∀ c ∈ p.custom, right c
  named : ∀ a ∈ p.custom.map name, named a = true
  nodup : (p.custom.map name).Nodup

namespace Engine

variable (e : Engine)

def contentIds : List String := e.contentBuiltins.map ContentBuiltin.id

def redactIds : List String := e.redactBuiltins.map RedactBuiltin.id

def ContentRight (c : CustomContentRule) : Prop :=
  e.contentCompiles c.matching c.caseSensitive c.pattern = true

def RedactRight (c : CustomRedactRule) : Prop :=
  e.redactCompiles c.matching c.caseSensitive c.pattern = true ∧
    ∀ label ∈ c.label, e.labelOk label = true

def ToolRight (c : CustomToolRule) : Prop := e.toolCompiles c.pattern = true

/-- What the conversion and the settings endpoint rely on. -/
structure Documented : Prop where
  content : ∀ p, e.checkContent p = .ok () ↔
    p.Checked e.contentIds e.ContentRight CustomContentRule.name e.named
  redact : ∀ p, e.checkRedact p = .ok () ↔
    p.Checked e.redactIds e.RedactRight CustomRedactRule.name e.named
  tools : ∀ p, e.checkTools p = .ok () ↔
    p.Checked e.toolBuiltins e.ToolRight CustomToolRule.name e.named
  /-- The same compiler, whatever the rule is called. -/
  compile : ∀ name regex, e.compile name regex = true →
    e.redactCompiles .regex true regex = true
  single : ∀ name pattern, e.single name pattern false = true → e.toolCompiles pattern = true
  named : ∀ name, trim name ≠ "" → e.named name = true
  unnamed : e.named "" = false
  ids : ∀ id ∈ e.toolBuiltins, ' ' ∉ id.toList

end Engine

end ThinkWatch.Guards
