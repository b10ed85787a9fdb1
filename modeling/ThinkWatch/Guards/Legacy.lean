import ThinkWatch.Guards.Policy
import ThinkWatch.Lib.Fresh
import ThinkWatch.Lib.KeyedList
import ThinkWatch.Policy.Serialize

/-!
# Policies converted from the old settings

`crates/common/src/guard_policy/legacy.rs`: what `content`, `redact` and `tools` make of the
settings from before the guards were unified. A custom rule is known by its name now, so
`Names::unique` numbers the names that come twice; its loop ends, and no name is given twice.
-/

namespace ThinkWatch.Guards

open Lib Policy

/-! ## Names -/

def numbered (name : String) (n : Nat) : String := s!"{name} ({n})"

namespace Names

/-- The `while` loop of `Names::unique`; `none` when `fuel` turns do not end it. -/
def search (names : List String) (name : String) : Nat → String → Nat → Option String
  | 0, _, _ => none
  | fuel + 1, candidate, n =>
    if candidate ∈ names then search names name fuel (numbered name n) (n + 1) else some candidate

/-- What the loop looks at. -/
def candidate (name : String) : Nat → String
  | 0 => name
  | n + 1 => numbered name (n + 2)

theorem toList_numbered (name : String) (n : Nat) :
    (numbered name n).toList = name.toList ++ ([' ', '('] ++ (Nat.toDigits 10 n ++ [')'])) := by
  simp [numbered, toString, Nat.repr]

theorem numbered_inj {name : String} {m n : Nat} (h : numbered name m = numbered name n) :
    m = n := by
  have hlist := congrArg String.toList h
  rw [toList_numbered, toList_numbered] at hlist
  have hdigits := List.append_cancel_left (List.append_cancel_left hlist)
  exact Json.toDigits_inj (List.append_cancel_right hdigits)

theorem numbered_ne (name : String) (n : Nat) : numbered name n ≠ name := by
  intro h
  have hlength := congrArg (fun s => s.toList.length) h
  simp only [toList_numbered, List.length_append] at hlength
  simp at hlength

theorem candidate_injective (name : String) : Function.Injective (candidate name) := by
  intro i j h
  cases i with
  | zero =>
    cases j with
    | zero => rfl
    | succ j => exact absurd h.symm (numbered_ne name _)
  | succ i =>
    cases j with
    | zero => exact absurd h (numbered_ne name _)
    | succ j =>
      have hn := numbered_inj h
      omega

theorem search_eq_firstFree (names : List String) (name : String) (fuel k : Nat) :
    search names name fuel (candidate name k) (k + 2) =
      firstFree names (candidate name) fuel k := by
  induction fuel generalizing k with
  | zero => rfl
  | succ fuel ih =>
    rw [search, firstFree]
    exact ite_congr rfl (fun _ => ih (k + 1)) fun _ => rfl

/-- The loop ends: among more turns than names that are taken, one finds a free name. -/
theorem isSome_search {names : List String} {fuel : Nat} (h : names.length < fuel)
    (name : String) : (search names name fuel name 2).isSome := by
  have heq : search names name fuel name 2 = firstFree names (candidate name) fuel 0 :=
    search_eq_firstFree names name fuel 0
  rw [heq]
  exact isSome_firstFree (candidate_injective name) h

/-- `Names::unique`: the name that is inserted and returned. -/
def unique (names : List String) (name : String) : String :=
  (search names name (names.length + 1) name 2).get (isSome_search (Nat.lt_succ_self _) name)

theorem firstFree_unique (names : List String) (name : String) :
    firstFree names (candidate name) (names.length + 1) 0 = some (unique names name) := by
  rw [← search_eq_firstFree]
  exact (Option.some_get _).symm

theorem search_eq_unique {names : List String} {fuel : Nat} (h : names.length < fuel)
    (name : String) : search names name fuel name 2 = some (unique names name) := by
  have heq : search names name fuel name 2 = firstFree names (candidate name) fuel 0 :=
    search_eq_firstFree names name fuel 0
  rw [heq]
  exact firstFree_mono (firstFree_unique names name) h

theorem freshening : Freshening unique where
  notMem names name := notMem_of_firstFree (firstFree_unique names name)
  keeps names name h := by
    have hfree : firstFree names (candidate name) (names.length + 1) 0 = some name :=
      firstFree_free h
    exact Option.some.inj ((firstFree_unique names name).symm.trans hfree)

/-- A name that is taken is given with a number. -/
theorem unique_of_mem {names : List String} {name : String} (h : name ∈ names) :
    ∃ n, unique names name = numbered name n := by
  obtain ⟨k, -, hk⟩ := exists_of_firstFree (firstFree_unique names name)
  cases k with
  | zero => exact absurd (hk ▸ h) (freshening.notMem names name)
  | succ k => exact ⟨k + 2, hk⟩

end Names

/-! ## The old values -/

/-- `to_ascii_lowercase`. -/
def asciiLower (s : String) : String := String.ofList (s.toList.map Char.toLower)

/-- A rule without a name is called by what it matches. -/
def calledBy (name other : String) : String := if trim name = "" then other else name

/-- One element that does not read makes the list unreadable, and that ran as empty. -/
def readList {α : Type} (read : Json → Option α) (value : Option Json) : List α :=
  ((value.bind Json.asArray).bind fun items => items.mapM read).getD []

/-- `#[serde(default)]`. -/
def withDefault {α : Type} (read : Json → Option α) (default : α) : Option Json → Option α
  | none => some default
  | some value => read value

/-- `#[serde(deny_unknown_fields)]`. -/
def onlyFields (names : List String) : Json → Bool
  | .obj fields => fields.all fun field => names.contains field.1
  | _ => true

structure OldContentRule where
  name : String
  pattern : String
  matchType : String
  action : String
deriving DecidableEq, Repr

def OldContentRule.fromValue (value : Json) : Option OldContentRule :=
  if value.isStruct 4 then do
    let name ← Json.asStr (← value.field "name" 0)
    let pattern ← Json.asStr (← value.field "pattern" 1)
    let matchType ← Json.asStr (← value.field "match_type" 2)
    let action ← Json.asStr (← value.field "action" 3)
    return ⟨name, pattern, matchType, action⟩
  else none

inductive HiddenText where
  | off
  | log
  | warn
  | block
deriving DecidableEq, Repr

def HiddenText.ofName : String → Option HiddenText
  | "off" => some .off
  | "log" => some .log
  | "warn" => some .warn
  | "block" => some .block
  | _ => none

/-- A variant without data: its name, or `{name: null}`. -/
def HiddenText.fromValue : Json → Option HiddenText
  | .str name => HiddenText.ofName name
  | .obj [(name, .null)] => HiddenText.ofName name
  | _ => none

structure OldPiiPattern where
  name : String
  regex : String
  placeholderPrefix : String
deriving DecidableEq, Repr

def OldPiiPattern.fromValue (value : Json) : Option OldPiiPattern :=
  if value.isStruct 3 then do
    let name ← Json.asStr (← value.field "name" 0)
    let regex ← Json.asStr (← value.field "regex" 1)
    let placeholderPrefix ← Json.asStr (← value.field "placeholder_prefix" 2)
    return ⟨name, regex, placeholderPrefix⟩
  else none

structure OldToolRule where
  name : String
  pattern : String
  action : ToolAction
deriving DecidableEq, Repr

structure OldToolInspection where
  mode : Mode := .observe
  disabled : List String := []
  actions : List (String × ToolAction) := []
  custom : List OldToolRule := []
deriving DecidableEq, Repr

def readStrings (value : Json) : Option (List String) := do
  let items ← value.asArray
  items.mapM Json.asStr

/-- A map from strings. -/
def readMap {α : Type} (read : Json → Option α) : Json → Option (List (String × α))
  | .obj fields => fields.mapM fun field => (read field.2).map fun x => (field.1, x)
  | _ => none

section Tools

variable (readMode : Json → Option Mode) (readToolAction : Json → Option ToolAction)

def OldToolRule.fromValue (value : Json) : Option OldToolRule :=
  if value.isStruct 3 && onlyFields ["name", "pattern", "action"] value then do
    let name ← Json.asStr (← value.field "name" 0)
    let pattern ← Json.asStr (← value.field "pattern" 1)
    let action ← readToolAction (← value.field "action" 2)
    return ⟨name, pattern, action⟩
  else none

def OldToolInspection.fromValue (value : Json) : Option OldToolInspection :=
  if value.isStruct 4 && onlyFields ["mode", "disabled", "actions", "custom"] value then do
    let mode ← withDefault readMode .observe (value.field "mode" 0)
    let disabled ← withDefault readStrings [] (value.field "disabled" 1)
    let actions ← withDefault (readMap readToolAction) [] (value.field "actions" 2)
    let custom ← withDefault (fun items => do
      (← items.asArray).mapM (OldToolRule.fromValue readToolAction)) [] (value.field "custom" 3)
    return ⟨mode, disabled, actions, custom⟩
  else none

end Tools

/-! ## The content filter -/

/-- An old rule whose match and action are understood and whose pattern compiles. -/
structure UsableContentRule where
  name : String
  pattern : String
  matching : ContentMatch
  action : ContentAction
deriving DecidableEq, Repr

def hiddenRules : List String := ["unicode-tags", "bidi-controls"]

/-- The old filter read requests only, ignoring case. -/
def customContent (r : UsableContentRule) (name : String) : CustomContentRule where
  name := name
  pattern := r.pattern
  scope := requestOnly
  matching := r.matching
  caseSensitive := false
  action := r.action
  replacement := defaultReplacement
  disabled := false

def OldContentRule.matching (r : OldContentRule) : Option ContentMatch :=
  match asciiLower r.matchType with
  | "contains" => some .contains
  | "regex" => some .regex
  | _ => none

def OldContentRule.newAction (r : OldContentRule) : Option ContentAction :=
  match asciiLower r.action with
  | "block" => some .block
  | "warn" => some .record
  | "log" => some .record
  | _ => none

def OldContentRule.understood (r : OldContentRule) : Option UsableContentRule := do
  let matching ← r.matching
  let action ← r.newAction
  return ⟨calledBy r.name r.pattern, r.pattern, matching, action⟩

/-- `actions.insert`. -/
def GuardPolicy.setAction {α ρ : Type} (p : GuardPolicy α ρ) (id : String) (action : α) :
    GuardPolicy α ρ :=
  { p with actions := put Prod.fst p.actions (id, action) }

namespace Engine

variable (e : Engine) (lower : String → String)

/-- It would run through the same compiler, on its own. -/
def usableContentRule (r : OldContentRule) : Option UsableContentRule :=
  r.understood.filter fun rule =>
    (e.checkContent { custom := [customContent rule rule.name] }).isOk

/-- The built-in rule that `r` is a copy of. `lower` is `str::to_lowercase`. -/
def builtinContent (r : UsableContentRule) : Option ContentBuiltin :=
  e.contentBuiltins.find? fun b =>
    decide (b.matching = r.matching ∧ lower b.pattern = lower r.pattern)

/-- The same rule twice has the most severe action. -/
def configure (configured : List (String × ContentAction)) (r : UsableContentRule) :
    List (String × ContentAction) :=
  match e.builtinContent lower r with
  | some b =>
    let action :=
      if r.action = .block then .block else (configured.lookup b.id).getD r.action
    put Prod.fst configured (b.id, action)
  | none => configured

/-- One turn of the loop through the built-in rules. -/
def convertBuiltin (hidden : HiddenText) (configured : List (String × ContentAction))
    (enforce : Bool) (p : ContentPolicy) (b : ContentBuiltin) : ContentPolicy :=
  if hiddenRules.contains b.id then
    match hidden with
    | .off => { p with disable := p.disable ++ [b.id] }
    | .log | .warn => p.setAction b.id .record
    | .block => p.setAction b.id .block
  else
    match configured.lookup b.id with
    | some action =>
      let p := if b.onByDefault then p else { p with enable := p.enable ++ [b.id] }
      if action = e.builtinAction b then p else p.setAction b.id action
    | none =>
      -- In enforce mode, only what the operator configured runs.
      if enforce && b.onByDefault then { p with disable := p.disable ++ [b.id] } else p

def usableContent (patterns : Option Json) : List UsableContentRule :=
  (readList OldContentRule.fromValue patterns).filterMap e.usableContentRule

def content (patterns hidden : Option Json) : ContentPolicy :=
  let rules := e.usableContent patterns
  let hidden := (hidden.bind HiddenText.fromValue).getD .warn
  let configured := rules.foldl (e.configure lower) []
  let custom := rules.filter fun r => (e.builtinContent lower r).isNone
  let enforce := !rules.isEmpty || hidden == .block
  let p : ContentPolicy := { mode := if enforce then .enforce else .observe }
  { e.contentBuiltins.foldl (e.convertBuiltin hidden configured enforce) p with
    custom := assign Names.unique UsableContentRule.name customContent [] custom }

end Engine

/-! ## Redaction -/

/-- The patterns that a built-in rule now covers: name, regex, built-in rule. -/
def seededPii : List (String × String × String) :=
  [("email", "[a-zA-Z0-9._%+-]+@[a-zA-Z0-9.-]+\\.[a-zA-Z]\x7b2,\x7d", "email"),
    ("id_card_cn", "\\b\\d\x7b17\x7d[\\dXx]\\b", "cn-resident-id"),
    ("credit_card",
      "\\b\\d\x7b4\x7d[-\\s]?\\d\x7b4\x7d[-\\s]?\\d\x7b4\x7d[-\\s]?\\d\x7b4\x7d\\b",
      "bank-card"),
    ("phone_cn", "1[3-9]\\d\x7b9\x7d", "cn-mobile-phone")]

/-- The built-in rule for a pattern that is still the seeded one. -/
def OldPiiPattern.seeded (p : OldPiiPattern) : Option String :=
  (seededPii.find? fun s => p.name == s.1 && p.regex == s.2.1).map fun s => s.2.2

def OldPiiPattern.called (p : OldPiiPattern) : String := calledBy p.name p.regex

namespace Engine

variable (e : Engine)

/-- A placeholder prefix as a label; `none` is the default one. -/
def labelOf (placeholderPrefix : String) : Option String :=
  let mapped := placeholderPrefix.toList.map fun c =>
    let c := c.toUpper
    if c.isUpper || c.isDigit then c else '_'
  let label := String.ofList ((mapped.dropWhile fun c => !c.isUpper).take labelMax)
  if e.labelOk label && label != defaultLabel then some label else none

/-- The old runtime compiled each pattern as a case-sensitive regex. -/
def customRedact (p : OldPiiPattern) (name : String) : CustomRedactRule where
  name := name
  pattern := p.regex
  matching := .regex
  caseSensitive := true
  label := e.labelOf p.placeholderPrefix
  action := .placeholder
  disabled := false

def usablePii (patterns : Option Json) : List OldPiiPattern :=
  (readList OldPiiPattern.fromValue patterns).filter fun p => e.compile p.name p.regex

def redact (patterns : Option Json) : RedactPolicy :=
  let usable := e.usablePii patterns
  if usable.isEmpty then {}
  else
    let covered := usable.filterMap OldPiiPattern.seeded
    let custom := usable.filter fun p => p.seeded.isNone
    let listed := e.redactBuiltins.filter fun b =>
      b.isPersonal && seededPii.any fun s => s.2.2 == b.id
    { mode := .enforce
      enable := (listed.filter fun b => covered.contains b.id && !b.onByDefault).map (·.id)
      disable := (listed.filter fun b => !covered.contains b.id && b.onByDefault).map (·.id)
      custom := assign Names.unique OldPiiPattern.called e.customRedact [] custom }

end Engine

/-! ## Tool-call inspection -/

def customTool (r : OldToolRule) (name : String) : CustomToolRule where
  name := name
  pattern := r.pattern
  action := r.action
  disabled := false

namespace Engine

variable (e : Engine)

def oldTools (stored : Option Json) : OldToolInspection :=
  (stored.bind (OldToolInspection.fromValue e.readMode e.readToolAction)).getD {}

/-- The custom rules that the old runtime ran: with a name, and a pattern that compiles. -/
def usableTools (stored : Option Json) : List OldToolRule :=
  (e.oldTools stored).custom.filter fun c =>
    e.single c.name c.pattern false && decide (trim c.name ≠ "")

def tools (stored : Option Json) : ToolPolicy where
  mode := (e.oldTools stored).mode
  disable := (e.oldTools stored).disabled.filter e.toolBuiltins.contains
  actions := (e.oldTools stored).actions.filter fun entry => e.toolBuiltins.contains entry.1
  custom := assign Names.unique OldToolRule.name customTool [] (e.usableTools stored)

end Engine

end ThinkWatch.Guards
