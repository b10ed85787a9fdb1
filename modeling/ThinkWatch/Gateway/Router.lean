import Mathlib.Algebra.Group.Int.Defs
import Mathlib.Data.List.Infix
import Mathlib.Data.List.Sort
import ThinkWatch.Errors
import ThinkWatch.Lib.PrefixMap
import ThinkWatch.Lib.Rows

/-!
# The model router and its build from the database

`crates/gateway/src/router.rs` (`ModelRouter`), with the values its configurations hold
(`strategy.rs`, `proxy/effort.rs`, `protocol.rs`), and `load_providers_into_router` of
`crates/server/src/app.rs`. The router keeps two hash maps with text keys: the routes of a
model and its configuration. The upstream of a route (host, credentials, minimum speed) is the
provider's and is left out.
-/

namespace ThinkWatch.Gateway

open Lib

/-! ## Values of a configuration -/

inductive RoutingStrategy where
  | weighted
  | latency
  | health
  | latencyHealth
deriving DecidableEq, Repr

/-- `RoutingStrategy::from_str`. -/
def RoutingStrategy.fromStr (s : String) : Option RoutingStrategy :=
  if s = "weighted" then some .weighted
  else if s = "latency" then some .latency
  else if s = "health" then some .health
  else if s = "latency_health" then some .latencyHealth
  else none

inductive AffinityMode where
  | none
  | provider
  | route
deriving DecidableEq, Repr

def AffinityMode.parseOrDefault (s : String) : AffinityMode :=
  if s = "none" then .none else if s = "route" then .route else .provider

inductive Effort where
  | low
  | medium
  | high
  | xhigh
  | max
deriving DecidableEq, Repr

inductive ReasoningSetting where
  | off
  | level (effort : Effort)
deriving DecidableEq, Repr

def ReasoningSetting.parse (s : String) : Option ReasoningSetting :=
  if s = "off" then some .off
  else if s = "low" then some (.level .low)
  else if s = "medium" then some (.level .medium)
  else if s = "high" then some (.level .high)
  else if s = "xhigh" then some (.level .xhigh)
  else if s = "max" then some (.level .max)
  else none

/-- Per-model overrides. A field that is not set falls through to the gateway's default. -/
structure ModelRoutingConfig where
  strategy : Option RoutingStrategy
  affinityMode : Option AffinityMode
  affinityTtlSecs : Option Nat
  maxOutputTokens : Option Nat
  reasoning : Option ReasoningSetting
deriving DecidableEq, Repr

namespace ModelRoutingConfig

/-- `ModelRoutingConfig::default()`. -/
def unset : ModelRoutingConfig := ⟨none, none, none, none, none⟩

/-- The test before a configuration is stored. -/
def setsSomething (c : ModelRoutingConfig) : Bool :=
  c.strategy.isSome || c.affinityMode.isSome || c.affinityTtlSecs.isSome ||
    c.maxOutputTokens.isSome || c.reasoning.isSome

theorem setsSomething_eq_false {c : ModelRoutingConfig} : c.setsSomething = false ↔ c = unset := by
  obtain ⟨s, a, t, o, r⟩ := c
  simp only [setsSomething, unset, Bool.or_eq_false_iff, Option.isSome_eq_false_iff,
    Option.isNone_iff_eq_none, mk.injEq, and_assoc]

end ModelRoutingConfig

inductive UpstreamProtocol where
  | openAiChat
  | openAiResponses
  | anthropicMessages
  | googleGenerate
  | bedrockNative
deriving DecidableEq, Repr

namespace UpstreamProtocol

def parse (s : String) : Option UpstreamProtocol :=
  if s = "openai_chat" then some .openAiChat
  else if s = "openai_responses" then some .openAiResponses
  else if s = "anthropic_messages" then some .anthropicMessages
  else if s = "google_generate" then some .googleGenerate
  else if s = "bedrock_native" then some .bedrockNative
  else none

def defaultForProviderType (providerType : String) : UpstreamProtocol :=
  if providerType = "anthropic" then .anthropicMessages
  else if providerType = "google" then .googleGenerate
  else if providerType = "bedrock" then .bedrockNative
  else .openAiChat

/-- The dialects an upstream could be asked in, best guess first. -/
def candidatesFor (providerType upstreamModel : String) : List UpstreamProtocol :=
  let dflt := defaultForProviderType providerType
  if dflt = .bedrockNative ∨ dflt = .googleGenerate then [dflt]
  else
    let model := upstreamModel.toLower
    let native :=
      if "claude".toList <:+: model.toList ∨ startsWith model "anthropic" then .anthropicMessages
      else if "gemini".toList <:+: model.toList ∨ startsWith model "google" then .googleGenerate
      else .openAiChat
    [.openAiChat, .openAiResponses, dflt].foldl
      (fun out fallback => if fallback ∈ out then out else out ++ [fallback]) [native]

end UpstreamProtocol

/-! ## The router -/

/-- One route of a model to a provider. -/
structure RouteEntry where
  providerId : Uuid
  routeId : Uuid
  providerName : String
  upstreamModel : Option String
  weight : Nat
  label : Option String
  rpmCap : Option Nat
  tpmCap : Option Nat
  protocol : UpstreamProtocol
  alternates : List UpstreamProtocol
deriving DecidableEq, Repr

structure ModelRouter where
  routes : TextMap (List RouteEntry)
  configs : TextMap ModelRoutingConfig

namespace ModelRouter

def new : ModelRouter := ⟨∅, ∅⟩

def setModelConfig (r : ModelRouter) (modelId : String) (cfg : ModelRoutingConfig) : ModelRouter :=
  { r with configs := r.configs.insert modelId cfg }

/-- The configuration stored for a model, or for the longest prefix that has one. -/
def configFor (r : ModelRouter) (modelId : String) : ModelRoutingConfig :=
  match TextMap.find r.configs (fun _ => true) modelId with
  | some e => e.2
  | none => .unset

def registerRoute (r : ModelRouter) (modelId : String) (entry : RouteEntry) : ModelRouter :=
  { r with routes := r.routes.insert modelId ((r.routes.lookup modelId).getD [] ++ [entry]) }

/-- Heaviest first; `sort_by_key` is stable, and so is the insertion sort. -/
def sortRoutes (r : ModelRouter) : ModelRouter :=
  { r with
    routes := TextMap.mapValues (List.insertionSort fun a b => b.weight ≤ a.weight) r.routes }

/-- The `(pattern, entries)` that `route` settles on. -/
def routeMatch (r : ModelRouter) (model : String) : Option (Σ _ : String, List RouteEntry) :=
  TextMap.find r.routes (fun entries => !entries.isEmpty) model

/-- Exact match, then the longest prefix. A model without entries is passed over. -/
def route (r : ModelRouter) (model : String) : Option (List RouteEntry) :=
  (r.routeMatch model).map Sigma.snd

/-- What is registered under an id. -/
def entriesOf (r : ModelRouter) (id : String) : List RouteEntry := (r.routes.lookup id).getD []

/-- The registrations of a list, in order. -/
def registerAll (r : ModelRouter) (l : List (String × RouteEntry)) : ModelRouter :=
  l.foldl (fun r e => r.registerRoute e.1 e.2) r

end ModelRouter

/-! ## The rows -/

structure Provider where
  id : Uuid
  name : String
  providerType : String
  isActive : Bool
  deleted : Bool
deriving DecidableEq, Repr

/-- A row of `models`, the columns that the router reads. -/
structure ModelRow where
  modelId : String
  enabled : Bool
  routingStrategy : Option String
  affinityMode : Option String
  affinityTtlSecs : Option Int
  maxOutputTokens : Option Int
  reasoningEffort : Option String
deriving DecidableEq, Repr

/-- A row of `model_routes`. -/
structure RouteRow where
  id : Uuid
  modelId : String
  providerId : Uuid
  upstreamModel : String
  weight : Int
  label : Option String
  rpmCap : Option Int
  tpmCap : Option Int
  upstreamProtocol : Option String
  enabled : Bool
deriving DecidableEq, Repr

/-- The three tables, with their unique columns. -/
structure Catalog where
  providers : List Provider
  models : List ModelRow
  routes : List RouteRow
  providerIds : (providers.map Provider.id).Nodup
  modelIds : (models.map ModelRow.modelId).Nodup
  routeIds : (routes.map RouteRow.id).Nodup

/-! ## `load_providers_into_router` -/

/-- `v as u32` of an `i32`. -/
def asU32 (v : Int) : Nat := (v % 2 ^ 32).toNat

def ModelRow.config (m : ModelRow) : ModelRoutingConfig where
  strategy := m.routingStrategy.bind RoutingStrategy.fromStr
  affinityMode := m.affinityMode.map AffinityMode.parseOrDefault
  affinityTtlSecs := m.affinityTtlSecs.bind fun v => if v ≥ 0 then some (asU32 v) else none
  maxOutputTokens := m.maxOutputTokens.bind fun v => if v > 0 then some v.toNat else none
  reasoning := m.reasoningEffort.bind ReasoningSetting.parse

def defaultModelPrefixes (providerType : String) : List String :=
  if providerType = "openai" then ["gpt-", "o1-", "o3-", "o4-", "chatgpt-"]
  else if providerType = "anthropic" then ["claude-"]
  else if providerType = "google" then ["gemini-"]
  else []

/-- `row.rpm_cap.and_then(..)`. -/
def positiveCap (cap : Option Int) : Option Nat :=
  cap.bind fun v => if v > 0 then some (asU32 v) else none

def RouteRow.protocol (row : RouteRow) (p : Provider) : UpstreamProtocol :=
  (row.upstreamProtocol.bind UpstreamProtocol.parse).getD
    (UpstreamProtocol.defaultForProviderType p.providerType)

/-- The entry of a route row. -/
def RouteRow.entry (row : RouteRow) (p : Provider) : RouteEntry where
  providerId := row.providerId
  routeId := row.id
  providerName := p.name
  upstreamModel := some row.upstreamModel
  weight := asU32 row.weight
  label := row.label
  rpmCap := positiveCap row.rpmCap
  tpmCap := positiveCap row.tpmCap
  protocol := row.protocol p
  alternates := (UpstreamProtocol.candidatesFor p.providerType row.upstreamModel).filter
    fun c => c ≠ row.protocol p

/-- The entry of a provider without routes, under each of its default prefixes. -/
def Provider.syntheticEntry (p : Provider) : RouteEntry where
  providerId := p.id
  routeId := p.id
  providerName := p.name
  upstreamModel := none
  weight := 100
  label := none
  rpmCap := none
  tpmCap := none
  protocol := UpstreamProtocol.defaultForProviderType p.providerType
  alternates := []

namespace Catalog

/-- `WHERE is_active = true AND deleted_at IS NULL`. -/
def activeProviders (cat : Catalog) : List Provider :=
  cat.providers.filter fun p => p.isActive && !p.deleted

/-- `provider_map.get(id)`. -/
def providerOf (cat : Catalog) (id : Uuid) : Option Provider :=
  cat.activeProviders.find? fun p => p.id = id

/--
The rows of the route query, which joins the three tables. Its `ORDER BY` is lost in the hash
map but for the weights, and `sort_routes` restores these.
-/
def routeRows (cat : Catalog) : List RouteRow :=
  cat.routes.filter fun row =>
    row.enabled && cat.models.any (fun m => m.modelId = row.modelId && m.enabled) &&
      cat.activeProviders.any fun p => p.id = row.providerId

/-- What the loop over the route rows registers. -/
def rowRegistrations (cat : Catalog) : List (String × RouteEntry) :=
  cat.routeRows.filterMap fun row =>
    (cat.providerOf row.providerId).map fun p => (row.modelId, row.entry p)

/-- `providers_with_routes.contains(id)`. -/
def hasRoutes (cat : Catalog) (id : Uuid) : Bool :=
  cat.rowRegistrations.any fun e => e.2.providerId = id

/-- What the loop over the providers without routes registers. -/
def syntheticRegistrations (cat : Catalog) : List (String × RouteEntry) :=
  (cat.activeProviders.filter fun p => !cat.hasRoutes p.id).flatMap fun p =>
    (defaultModelPrefixes p.providerType).map fun pattern => (pattern, p.syntheticEntry)

def registrations (cat : Catalog) : List (String × RouteEntry) :=
  cat.rowRegistrations ++ cat.syntheticRegistrations

/-- The loop over the model rows. A configuration that sets nothing is not stored. -/
def storeConfigs (r : ModelRouter) (models : List ModelRow) : ModelRouter :=
  models.foldl
    (fun r m => if m.config.setsSomething then r.setModelConfig m.modelId m.config else r) r

def loadProvidersIntoRouter (cat : Catalog) : ModelRouter :=
  ((storeConfigs .new cat.models).registerAll cat.registrations).sortRoutes

end Catalog

/-! ## What the built router holds -/

namespace ModelRouter

variable {r : ModelRouter} {id k : String} {e : RouteEntry}

theorem entriesOf_registerRoute (r : ModelRouter) (id k : String) (e : RouteEntry) :
    (r.registerRoute k e).entriesOf id = r.entriesOf id ++ (if k = id then [e] else []) := by
  unfold entriesOf registerRoute
  by_cases h : k = id
  · subst h
    simp
  · rw [AList.lookup_insert_ne (Ne.symm h), if_neg h, List.append_nil]

theorem entriesOf_registerAll (l : List (String × RouteEntry)) (r : ModelRouter) (id : String) :
    (r.registerAll l).entriesOf id = r.entriesOf id ++ (l.filter (·.1 = id)).map Prod.snd := by
  induction l generalizing r with
  | nil => simp [registerAll]
  | cons e l ih =>
    have hcons : r.registerAll (e :: l) = (r.registerRoute e.1 e.2).registerAll l := rfl
    rw [hcons, ih, entriesOf_registerRoute, List.append_assoc, List.filter_cons]
    congr 1
    by_cases h : e.1 = id <;> simp [h]

theorem mem_entriesOf_sortRoutes : e ∈ r.sortRoutes.entriesOf id ↔ e ∈ r.entriesOf id := by
  unfold entriesOf sortRoutes
  rw [TextMap.lookup_mapValues]
  cases r.routes.lookup id with
  | none => rfl
  | some entries => exact List.mem_insertionSort _

@[simp] theorem registerAll_configs (l : List (String × RouteEntry)) (r : ModelRouter) :
    (r.registerAll l).configs = r.configs := by
  induction l generalizing r with
  | nil => rfl
  | cons e l ih => exact ih _

@[simp] theorem sortRoutes_configs (r : ModelRouter) : r.sortRoutes.configs = r.configs := rfl

/-- The routes found are those under the longest prefix of the name that has any. -/
theorem routeMatch_eq_some {model : String} {entries : List RouteEntry} :
    r.routeMatch model = some ⟨k, entries⟩ ↔
      r.routes.lookup k = some entries ∧ startsWith model k = true ∧ entries ≠ [] ∧
        ∀ id, startsWith model id = true → r.entriesOf id ≠ [] →
          id.utf8ByteSize ≤ k.utf8ByteSize := by
  have hne : ∀ l : List RouteEntry, (!l.isEmpty) = true ↔ l ≠ [] := by simp
  unfold routeMatch
  rw [TextMap.find_eq_some]
  simp only [TextMap.Matches, hne, and_assoc]
  refine and_congr_right fun _ => and_congr_right fun _ => and_congr_right fun _ => ?_
  constructor
  · intro h id hid hent
    cases hl : r.routes.lookup id with
    | none => exact absurd (by rw [entriesOf, hl]; rfl) hent
    | some l => exact h id l ⟨hl, hid, by rwa [entriesOf, hl] at hent⟩
  · rintro h id l ⟨hl, hid, hent⟩
    exact h id hid (by rwa [entriesOf, hl])

end ModelRouter

namespace Catalog

variable {cat : Catalog} {id : String} {e : RouteEntry} {cfg : ModelRoutingConfig}

theorem storeConfigs_cons (r : ModelRouter) (m : ModelRow) (models : List ModelRow) :
    storeConfigs r (m :: models) =
      storeConfigs (if m.config.setsSomething then r.setModelConfig m.modelId m.config else r)
        models := rfl

@[simp] theorem entriesOf_storeConfigs (models : List ModelRow) (r : ModelRouter) (id : String) :
    (storeConfigs r models).entriesOf id = r.entriesOf id := by
  induction models generalizing r with
  | nil => rfl
  | cons m models ih =>
    rw [storeConfigs_cons, ih]
    split <;> rfl

/-- Under an id stands what was registered under it. -/
theorem mem_entriesOf_load :
    e ∈ cat.loadProvidersIntoRouter.entriesOf id ↔ (id, e) ∈ cat.registrations := by
  unfold loadProvidersIntoRouter
  rw [ModelRouter.mem_entriesOf_sortRoutes, ModelRouter.entriesOf_registerAll,
    entriesOf_storeConfigs]
  have hnew : ModelRouter.new.entriesOf id = [] := rfl
  rw [hnew, List.nil_append, List.mem_map]
  constructor
  · rintro ⟨⟨id', e'⟩, he, rfl⟩
    rw [List.mem_filter, decide_eq_true_eq] at he
    exact he.2 ▸ he.1
  · exact fun h => ⟨(id, e), List.mem_filter.mpr ⟨h, decide_eq_true rfl⟩, rfl⟩

theorem lookup_storeConfigs_of_notMem {models : List ModelRow} {r : ModelRouter}
    (h : id ∉ models.map ModelRow.modelId) :
    (storeConfigs r models).configs.lookup id = r.configs.lookup id := by
  induction models generalizing r with
  | nil => rfl
  | cons m models ih =>
    rw [List.map_cons, List.mem_cons, not_or] at h
    rw [storeConfigs_cons, ih h.2]
    split
    · exact AList.lookup_insert_ne h.1
    · rfl

theorem lookup_storeConfigs {models : List ModelRow} {r : ModelRouter}
    (hnd : (models.map ModelRow.modelId).Nodup) (hr : r.configs.lookup id = none) :
    (storeConfigs r models).configs.lookup id = some cfg ↔
      ∃ m ∈ models, m.modelId = id ∧ m.config.setsSomething = true ∧ m.config = cfg := by
  induction models generalizing r with
  | nil =>
    change r.configs.lookup id = some cfg ↔ _
    simp [hr]
  | cons m models ih =>
    rw [List.map_cons, List.nodup_cons] at hnd
    rw [storeConfigs_cons]
    by_cases hid : m.modelId = id
    · subst hid
      rw [lookup_storeConfigs_of_notMem hnd.1]
      have hrest : ∀ m' ∈ models, m'.modelId ≠ m.modelId := fun m' hm' he =>
        hnd.1 (he ▸ List.mem_map_of_mem hm')
      simp only [List.mem_cons, exists_eq_or_imp, true_and]
      split
      next hset =>
        simp only [ModelRouter.setModelConfig, AList.lookup_insert, hset, true_and,
          Option.some.injEq]
        exact (or_iff_left fun ⟨m', hm', he, _⟩ => hrest m' hm' he).symm
      next hset =>
        simp only [hr, hset, Bool.false_eq_true, false_and, false_or, reduceCtorEq, false_iff]
        exact fun ⟨m', hm', he, _⟩ => hrest m' hm' he
    · have hstep : (if m.config.setsSomething then r.setModelConfig m.modelId m.config
          else r).configs.lookup id = none := by
        split
        · exact (AList.lookup_insert_ne (Ne.symm hid)).trans hr
        · exact hr
      rw [ih hnd.2 hstep]
      simp only [List.mem_cons, exists_eq_or_imp, hid, false_and, false_or]

/-- A configuration is stored exactly for the model rows that set something. -/
theorem lookup_configs_load :
    cat.loadProvidersIntoRouter.configs.lookup id = some cfg ↔
      ∃ m ∈ cat.models, m.modelId = id ∧ m.config.setsSomething = true ∧ m.config = cfg := by
  unfold loadProvidersIntoRouter
  rw [ModelRouter.sortRoutes_configs, ModelRouter.registerAll_configs]
  exact lookup_storeConfigs cat.modelIds rfl

end Catalog

end ThinkWatch.Gateway
