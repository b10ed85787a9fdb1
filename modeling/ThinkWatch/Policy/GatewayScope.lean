import ThinkWatch.Policy.Matchers
import ThinkWatch.Lib.Cut

/-!
# What the roles open at the gateways

The models and MCP tools that a user's policy documents allow: `extract_resource_scope`
(`crates/common/src/limits/mod.rs`) reads the Allow side of one document from its JSON,
`resource_limits_from_documents` (`crates/auth/src/rbac.rs`) folds the documents into
`UserResourceLimits`, and the gateways test a model with `may_call`
(`crates/gateway/src/proxy/mod.rs`) and a tool with `is_tool_allowed`
(`crates/mcp-gateway/src/access_control.rs`).

The Deny side is read by `evaluate_policy`, on the resource `*` only.
-/

namespace ThinkWatch.Policy

open Lib

/-! ## One document -/

def stmtResources (stmt : Json) : List String :=
  match stmt.get "Resource" with
  | some (.str s) => [s]
  | some (.arr items) => items.filterMap Json.asStr
  | _ => []

/-- What one policy document grants on one gateway surface. -/
inductive ResourceScope where
  | notGranted
  | all
  | only (items : List String)
deriving DecidableEq, Repr

/-- `r.strip_prefix(stem)`. -/
def stripStem (stem r : String) : Option String :=
  if stem.toList <+: r.toList then some (String.ofList (r.toList.drop stem.toList.length)) else none

/-- The resources of a statement added to `items`, or `none` when one of them is `*`. -/
def scanResources (stem : String) : List String → List String → Option (List String)
  | items, [] => some items
  | items, r :: rs =>
    if r = "*" then none else scanResources stem ((stripStem stem r).toList ++ items) rs

/-- An Allow statement whose Action covers `action`. -/
def grants (action : String) (stmt : Json) : Bool :=
  stmtEffect stmt = "Allow" && actionMatchesAny (stmtActions stmt) action

/-- The loop over the statements, with `granted` and `items` so far. -/
def scanStatements (action stem : String) (granted : Bool) (items : List String) :
    List Json → ResourceScope
  | [] => if granted then .only (btreeSet items) else .notGranted
  | stmt :: stmts =>
    if grants action stmt then
      match scanResources stem items (stmtResources stmt) with
      | none => .all
      | some items => scanStatements action stem true items stmts
    else scanStatements action stem granted items stmts

def extractResourceScope (doc : Json) (action stem : String) : ResourceScope :=
  scanStatements action stem false [] (statements doc)

def extractModelScope (doc : Json) : ResourceScope :=
  extractResourceScope doc "ai_gateway:use" "model:"

def extractMcpToolScope (doc : Json) : ResourceScope :=
  extractResourceScope doc "mcp_gateway:use" "mcp_tool:"

/-! ## All documents -/

/-- One gateway surface, folded across roles. -/
structure SurfaceGrant where
  granted : Bool
  unrestricted : Bool
  items : List String
deriving DecidableEq, Repr

namespace SurfaceGrant

def new : SurfaceGrant := ⟨false, false, []⟩

def add (g : SurfaceGrant) : ResourceScope → SurfaceGrant
  | .notGranted => g
  | .all => { g with granted := true, unrestricted := true }
  | .only list => { g with granted := true, items := g.items ++ list }

def finish (g : SurfaceGrant) (denied : Bool) : Bool × Option (List String) :=
  if ¬ g.granted ∨ denied then (false, some [])
  else if g.unrestricted then (true, none)
  else (true, some (btreeSet g.items))

end SurfaceGrant

structure UserResourceLimits where
  aiGateway : Bool
  allowedModels : Option (List String)
  mcpGateway : Bool
  allowedMcpTools : Option (List String)
deriving DecidableEq, Repr

/-- Some document denies the action on the resource, by `evaluate_policy`. -/
def denies (docs : List Json) (action resource : String) : Bool :=
  (docs.filterMap PolicyDocument.fromValue).any fun doc =>
    evaluatePolicy doc action resource == .deny

def surfaceGrant (docs : List Json) (action stem : String) : SurfaceGrant :=
  docs.foldl (fun g doc => g.add (extractResourceScope doc action stem)) .new

def resourceLimitsFromDocuments (docs : List Json) : UserResourceLimits :=
  let models := surfaceGrant docs "ai_gateway:use" "model:"
  let tools := surfaceGrant docs "mcp_gateway:use" "mcp_tool:"
  let ai := models.finish (denies docs "ai_gateway:use" "*")
  let mcp := tools.finish (denies docs "mcp_gateway:use" "*")
  { aiGateway := ai.1, allowedModels := ai.2, mcpGateway := mcp.1, allowedMcpTools := mcp.2 }

/-! ## The tests at the gateways -/

/-- `None` allows everything, a list what one of its entries matches. -/
def allowedBy (test : String → Bool) : Option (List String) → Bool
  | none => true
  | some entries => entries.any test

/-- An entry of a model list is a prefix of what it allows. -/
def modelEntryMatches (model entry : String) : Bool :=
  model == entry || entry.toList.isPrefixOf model.toList

/-- `GatewayRequestIdentity::may_call`. -/
def mayCall (allowed : Option (List String)) (model : String) : Bool :=
  allowedBy (modelEntryMatches model) allowed

/-- `pattern.strip_suffix("__*")`. -/
def stripServerWildcard (pattern : List Char) : Option (List Char) :=
  if ['_', '_', '*'].isSuffixOf pattern then some (pattern.take (pattern.length - 3)) else none

/-- `pattern_matches`: `*`, `<server>__*` or `<server>__<tool>`, and nothing else. -/
def patternMatches (name pattern : String) : Bool :=
  if pattern = "*" then true
  else
    match stripServerWildcard pattern.toList with
    | some server =>
      if server = [] ∨ ['_', '_'] <:+: server ∨ '*' ∈ server then false
      else
        match cut ['_', '_'] name.toList with
        | some (s, t) => s == server && t != []
        | none => false
    | none =>
      if '*' ∈ pattern.toList then false
      else
        match cut ['_', '_'] pattern.toList with
        | some (s, t) => s != [] && t != [] && pattern == name
        | none => false

def isToolAllowed (patterns : Option (List String)) (name : String) : Bool :=
  allowedBy (patternMatches name) patterns

def UserResourceLimits.allowsModel (limits : UserResourceLimits) (model : String) : Bool :=
  limits.aiGateway && mayCall limits.allowedModels model

def UserResourceLimits.allowsTool (limits : UserResourceLimits) (name : String) : Bool :=
  limits.mcpGateway && isToolAllowed limits.allowedMcpTools name

/-! ## What a document lists -/

section

variable {action stem : String} {test : String → Bool}

/-- The resource is `*`, or an entry with the stem that passes the test. -/
def EntryFor (stem : String) (test : String → Bool) (r : String) : Prop :=
  r = "*" ∨ ∃ item, stripStem stem r = some item ∧ test item

/-- An Allow statement of the document for the action has such a resource. -/
def Lists (action stem : String) (test : String → Bool) (doc : Json) : Prop :=
  ∃ stmt ∈ statements doc, grants action stmt ∧ ∃ r ∈ stmtResources stmt, EntryFor stem test r

/-- The scope allows what passes the test. -/
def ResourceScope.Allows (test : String → Bool) : ResourceScope → Prop
  | .notGranted => False
  | .all => True
  | .only items => ∃ item ∈ items, test item

theorem scanResources_none {items rs : List String} :
    scanResources stem items rs = none ↔ "*" ∈ rs := by
  induction rs generalizing items with
  | nil => simp [scanResources]
  | cons r rs ih =>
    rw [scanResources, List.mem_cons]
    split
    next h => simp [h]
    next h =>
      rw [ih]
      simp [Ne.symm h]

theorem mem_scanResources {items rs out : List String} {x : String}
    (h : scanResources stem items rs = some out) :
    x ∈ out ↔ x ∈ items ∨ ∃ r ∈ rs, stripStem stem r = some x := by
  induction rs generalizing items with
  | nil =>
    cases h
    simp
  | cons r rs ih =>
    rw [scanResources] at h
    split at h
    next => cases h
    next =>
      rw [ih h]
      simp only [List.mem_append, Option.mem_toList, List.mem_cons, exists_eq_or_imp]
      tauto

/-- One statement: the scan stops at `*`, or has collected the entries. -/
theorem scanResources_allows {items rs : List String} :
    (match scanResources stem items rs with
      | none => True
      | some out => ∃ item ∈ out, test item) ↔
      (∃ item ∈ items, test item) ∨ ∃ r ∈ rs, EntryFor stem test r := by
  cases h : scanResources stem items rs with
  | none =>
    simp only [true_iff]
    exact .inr ⟨"*", scanResources_none.mp h, .inl rfl⟩
  | some out =>
    have hstar : ∀ r ∈ rs, r ≠ "*" := by
      rintro r hr rfl
      rw [scanResources_none.mpr hr] at h
      cases h
    simp only [mem_scanResources h]
    constructor
    · rintro ⟨item, hitem | ⟨r, hr, hs⟩, ht⟩
      · exact .inl ⟨item, hitem, ht⟩
      · exact .inr ⟨r, hr, .inr ⟨item, hs, ht⟩⟩
    · rintro (⟨item, hitem, ht⟩ | ⟨r, hr, heq | ⟨item, hs, ht⟩⟩)
      · exact ⟨item, .inl hitem, ht⟩
      · exact absurd heq (hstar r hr)
      · exact ⟨item, .inr ⟨r, hr, hs⟩, ht⟩

theorem scanStatements_allows {granted : Bool} {items : List String} {stmts : List Json}
    (hitems : granted = false → items = []) :
    (scanStatements action stem granted items stmts).Allows test ↔
      (∃ item ∈ items, test item) ∨
        ∃ stmt ∈ stmts, grants action stmt ∧ ∃ r ∈ stmtResources stmt, EntryFor stem test r := by
  induction stmts generalizing granted items with
  | nil =>
    cases granted with
    | true => simp [scanStatements, ResourceScope.Allows, mem_btreeSet]
    | false => simp [scanStatements, ResourceScope.Allows, hitems rfl]
  | cons stmt stmts ih =>
    rw [scanStatements]
    simp only [List.mem_cons, exists_eq_or_imp]
    split
    next hg =>
      have hone := @scanResources_allows stem test items (stmtResources stmt)
      split
      next hscan =>
        rw [hscan] at hone
        simp only [ResourceScope.Allows, true_iff, hg, true_and]
        exact (hone.mp trivial).elim .inl fun h => .inr (.inl h)
      next out hscan =>
        rw [hscan] at hone
        dsimp only at hone
        have hout : true = false → out = [] := by simp
        rw [ih hout, hone, hg]
        simp only [true_and, or_assoc]
    next hg =>
      rw [ih hitems]
      simp [hg]

/-- `extract_resource_scope` allows what the Allow statements list. -/
theorem extractResourceScope_allows {doc : Json} :
    (extractResourceScope doc action stem).Allows test ↔ Lists action stem test doc := by
  unfold extractResourceScope Lists
  rw [scanStatements_allows fun _ => rfl]
  simp

/-! ## What the documents open -/

namespace SurfaceGrant

variable {g : SurfaceGrant}

/-- Resources come with a grant. -/
def WellFormed (g : SurfaceGrant) : Prop := g.granted = false → g.unrestricted = false ∧ g.items = []

def Allows (test : String → Bool) (g : SurfaceGrant) : Prop :=
  g.unrestricted ∨ ∃ item ∈ g.items, test item

theorem add_wellFormed (h : g.WellFormed) (scope : ResourceScope) : (g.add scope).WellFormed := by
  cases scope with
  | notGranted => exact h
  | all => exact fun h => by simp [add] at h
  | only list => exact fun h => by simp [add] at h

theorem add_allows {scope : ResourceScope} :
    (g.add scope).Allows test ↔ g.Allows test ∨ scope.Allows test := by
  cases scope with
  | notGranted => simp [add, ResourceScope.Allows]
  | all => simp [add, Allows, ResourceScope.Allows]
  | only list =>
    simp only [add, Allows, ResourceScope.Allows, List.mem_append, or_and_right, exists_or,
      or_assoc]

/-- Without a Deny on the whole action, the surface opens what was collected. -/
theorem finish_allows (h : g.WellFormed) {denied : Bool} :
    (g.finish denied).1 = true ∧ allowedBy test (g.finish denied).2 = true ↔
      denied = false ∧ g.Allows test := by
  unfold finish
  cases denied with
  | true => simp
  | false =>
    cases hg : g.granted with
    | false =>
      obtain ⟨hu, hi⟩ := h hg
      simp [Allows, hu, hi]
    | true =>
      cases hu : g.unrestricted with
      | true => simp [Allows, hu, allowedBy]
      | false => simp [Allows, hu, allowedBy, mem_btreeSet]

end SurfaceGrant

theorem foldl_add_wellFormed {docs : List Json} {g : SurfaceGrant} (h : g.WellFormed) :
    (docs.foldl (fun g doc => g.add (extractResourceScope doc action stem)) g).WellFormed := by
  induction docs generalizing g with
  | nil => exact h
  | cons doc docs ih => exact ih (SurfaceGrant.add_wellFormed h _)

theorem foldl_add_allows {docs : List Json} {g : SurfaceGrant} :
    (docs.foldl (fun g doc => g.add (extractResourceScope doc action stem)) g).Allows test ↔
      g.Allows test ∨ ∃ doc ∈ docs, Lists action stem test doc := by
  induction docs generalizing g with
  | nil => simp
  | cons doc docs ih =>
    rw [List.foldl_cons, ih, SurfaceGrant.add_allows, extractResourceScope_allows]
    simp only [List.mem_cons, exists_eq_or_imp, or_assoc]

/-- A surface opens what some document lists, unless some document denies the whole action. -/
theorem surfaceGrant_allows {docs : List Json} {denied : Bool} :
    ((surfaceGrant docs action stem).finish denied).1 = true ∧
        allowedBy test ((surfaceGrant docs action stem).finish denied).2 = true ↔
      denied = false ∧ ∃ doc ∈ docs, Lists action stem test doc := by
  have hwf : (surfaceGrant docs action stem).WellFormed := foldl_add_wellFormed fun _ => ⟨rfl, rfl⟩
  rw [SurfaceGrant.finish_allows hwf, surfaceGrant, foldl_add_allows]
  simp [SurfaceGrant.Allows, SurfaceGrant.new]

theorem allowsModel_iff {docs : List Json} {m : String} :
    (resourceLimitsFromDocuments docs).allowsModel m = true ↔
      denies docs "ai_gateway:use" "*" = false ∧
        ∃ doc ∈ docs, Lists "ai_gateway:use" "model:" (modelEntryMatches m) doc := by
  rw [UserResourceLimits.allowsModel, Bool.and_eq_true]
  exact surfaceGrant_allows

theorem allowsTool_iff {docs : List Json} {t : String} :
    (resourceLimitsFromDocuments docs).allowsTool t = true ↔
      denies docs "mcp_gateway:use" "*" = false ∧
        ∃ doc ∈ docs, Lists "mcp_gateway:use" "mcp_tool:" (patternMatches t) doc := by
  rw [UserResourceLimits.allowsTool, Bool.and_eq_true]
  exact surfaceGrant_allows

/-! ## Deny at the gateways -/

/--
A Deny on a resource of the surface keeps the resource closed exactly when some Deny is on the
whole action, or no Allow statement lists the resource.
-/
theorem deny_wins_iff (docs : List Json) (m t : String) :
    ((denies docs "ai_gateway:use" ("model:" ++ m) = true →
          (resourceLimitsFromDocuments docs).allowsModel m = false) ∧
        (denies docs "mcp_gateway:use" ("mcp_tool:" ++ t) = true →
          (resourceLimitsFromDocuments docs).allowsTool t = false)) ↔
      (denies docs "ai_gateway:use" ("model:" ++ m) = true →
          denies docs "ai_gateway:use" "*" = true ∨
            ∀ doc ∈ docs, ¬ Lists "ai_gateway:use" "model:" (modelEntryMatches m) doc) ∧
        (denies docs "mcp_gateway:use" ("mcp_tool:" ++ t) = true →
          denies docs "mcp_gateway:use" "*" = true ∨
            ∀ doc ∈ docs, ¬ Lists "mcp_gateway:use" "mcp_tool:" (patternMatches t) doc) := by
  have hclosed : ∀ {b c : Bool} {P : Prop}, (b = true ↔ c = false ∧ P) →
      (b = false ↔ c = true ∨ ¬ P) := by
    intro b c P h
    cases b <;> cases c <;> simp_all
  have hm := hclosed (@allowsModel_iff docs m)
  have ht := hclosed (@allowsTool_iff docs t)
  rw [hm, ht]
  simp only [not_exists, not_and]

end

/-- One statement on one action and one resource. -/
def onlyDocument (effect action resource : String) : Json :=
  .obj [("Version", .str "2024-01-01"),
    ("Statement", .arr [.obj [("Effect", .str effect), ("Action", .str action),
      ("Resource", .str resource)]])]

/-- Both documents are accepted, the second denies `gpt-4o`, and the two together allow it. -/
theorem scoped_deny_ignored :
    ∃ docs : List Json, (∀ doc ∈ docs, ∃ d, validatePolicyDocument doc = .ok d) ∧
      denies docs "ai_gateway:use" ("model:" ++ "gpt-4o") = true ∧
      (resourceLimitsFromDocuments docs).allowsModel "gpt-4o" = true := by
  refine ⟨[onlyDocument "Allow" "ai_gateway:use" "*",
    onlyDocument "Deny" "ai_gateway:use" "model:gpt-4o"], ?_, by decide, by decide⟩
  intro doc hdoc
  rcases List.mem_cons.mp hdoc with rfl | hdoc
  · exact ⟨⟨"2024-01-01", [⟨none, .allow, .single "ai_gateway:use", .single "*", none⟩]⟩, rfl⟩
  · rw [List.mem_singleton.mp hdoc]
    exact ⟨⟨"2024-01-01", [⟨none, .deny, .single "ai_gateway:use", .single "model:gpt-4o", none⟩]⟩,
      rfl⟩

end ThinkWatch.Policy
