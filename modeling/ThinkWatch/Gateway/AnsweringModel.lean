import ThinkWatch.Gateway.Router
import ThinkWatch.Policy.GatewayScope

/-!
# The model that answers a name

A requested name is answered by the routes of one model id: the longest id with routes that
the name starts with. Two decisions are made on the requested name instead: its settings are
looked up by `config_for` among the stored configurations, and `check_access`
(`crates/common/src/lifecycle/stages/check_access.rs`, with `is_access_allowed` of the chat
surface) compares it with the caller's list. This module says when each of them is the decision
for the answering id.
-/

namespace ThinkWatch.Gateway

open Lib

/-! ## The answering id -/

namespace Catalog

variable {cat : Catalog} {m k id : String} {entries : List RouteEntry}

/-- Something is registered under the id. -/
def HasRoutes (cat : Catalog) (id : String) : Prop := ∃ e, (id, e) ∈ cat.registrations

theorem hasRoutes_iff_entriesOf :
    cat.HasRoutes id ↔ cat.loadProvidersIntoRouter.entriesOf id ≠ [] := by
  rw [← List.length_pos_iff, List.length_pos_iff_exists_mem]
  exact exists_congr fun e => mem_entriesOf_load.symm

/-- The id answers `m`: it has routes, and no id with routes is a longer prefix of `m`. -/
structure Answers (cat : Catalog) (m id : String) : Prop where
  hasRoutes : cat.HasRoutes id
  startsWith : startsWith m id = true
  longest : ∀ id', Lib.startsWith m id' = true → cat.HasRoutes id' →
    id'.utf8ByteSize ≤ id.utf8ByteSize

/-- `route` finds the routes of the answering id. -/
theorem answers_of_routeMatch
    (h : cat.loadProvidersIntoRouter.routeMatch m = some ⟨k, entries⟩) :
    cat.Answers m k ∧ ∀ e, e ∈ entries ↔ (k, e) ∈ cat.registrations := by
  obtain ⟨hk, hpre, hne, hmax⟩ := ModelRouter.routeMatch_eq_some.mp h
  have hent : cat.loadProvidersIntoRouter.entriesOf k = entries := by
    rw [ModelRouter.entriesOf, hk]
    rfl
  refine ⟨⟨hasRoutes_iff_entriesOf.mpr (hent ▸ hne), hpre, fun id' hid' hr => ?_⟩, fun e => ?_⟩
  · exact hmax id' hid' (hasRoutes_iff_entriesOf.mp hr)
  · rw [← hent, mem_entriesOf_load]

theorem routeMatch_eq_none :
    cat.loadProvidersIntoRouter.routeMatch m = none ↔
      ∀ id, startsWith m id = true → ¬ cat.HasRoutes id := by
  unfold ModelRouter.routeMatch
  rw [TextMap.find_eq_none]
  constructor
  · intro h id hid hr
    rw [hasRoutes_iff_entriesOf, ModelRouter.entriesOf] at hr
    cases hl : cat.loadProvidersIntoRouter.routes.lookup id with
    | none => exact hr (by rw [hl]; rfl)
    | some l =>
      rw [hl] at hr
      exact h id l ⟨hl, hid, by simpa using hr⟩
  · rintro h id l ⟨hl, hid, hok⟩
    refine h id hid (hasRoutes_iff_entriesOf.mpr ?_)
    rw [ModelRouter.entriesOf, hl]
    simpa using hok

theorem Answers.eq {k' : String} (h : cat.Answers m k) (h' : cat.Answers m k') : k = k' :=
  eq_of_startsWith_of_size_eq h.startsWith h'.startsWith
    (le_antisymm (h'.longest k h.startsWith h.hasRoutes)
      (h.longest k' h'.startsWith h'.hasRoutes))

end Catalog

/-! ## Where the routes come from -/

namespace Catalog

variable {cat : Catalog} {id : String} {row : RouteRow} {e : RouteEntry}

theorem mem_routeRows : row ∈ cat.routeRows ↔
    row ∈ cat.routes ∧ row.enabled = true ∧
      (∃ m ∈ cat.models, m.modelId = row.modelId ∧ m.enabled = true) ∧
      ∃ p ∈ cat.activeProviders, p.id = row.providerId := by
  simp only [routeRows, List.mem_filter, Bool.and_eq_true, List.any_eq_true, decide_eq_true_eq,
    and_assoc]

theorem providerOf_of_mem (h : row ∈ cat.routeRows) :
    ∃ p ∈ cat.activeProviders, p.id = row.providerId ∧ cat.providerOf row.providerId = some p := by
  obtain ⟨-, -, -, p, hp, hid⟩ := mem_routeRows.mp h
  cases hf : cat.providerOf row.providerId with
  | none => exact absurd (List.find?_eq_none.mp hf p hp) (by simp [hid])
  | some q =>
    exact ⟨q, List.mem_of_find?_eq_some hf, by simpa using List.find?_some hf, rfl⟩

/-- Every row of the route query is registered, under its model id. -/
theorem exists_registration (h : row ∈ cat.routeRows) :
    ∃ p, (row.modelId, row.entry p) ∈ cat.rowRegistrations := by
  obtain ⟨p, -, -, hp⟩ := providerOf_of_mem h
  exact ⟨p, List.mem_filterMap.mpr ⟨row, h, by rw [hp]; rfl⟩⟩

theorem mem_rowRegistrations (h : (id, e) ∈ cat.rowRegistrations) :
    ∃ row ∈ cat.routeRows, ∃ p, row.modelId = id ∧ e = row.entry p := by
  obtain ⟨row, hrow, hmap⟩ := List.mem_filterMap.mp h
  obtain ⟨p, -, he⟩ := Option.map_eq_some_iff.mp hmap
  rw [Prod.mk.injEq] at he
  exact ⟨row, hrow, p, he.1, he.2.symm⟩

theorem mem_syntheticRegistrations : (id, e) ∈ cat.syntheticRegistrations ↔
    ∃ p ∈ cat.activeProviders, cat.hasRoutes p.id = false ∧
      id ∈ defaultModelPrefixes p.providerType ∧ e = p.syntheticEntry := by
  simp only [syntheticRegistrations, List.mem_flatMap, List.mem_filter, List.mem_map,
    Prod.mk.injEq, Bool.not_eq_eq_eq_not, Bool.not_true, and_assoc]
  constructor
  · rintro ⟨p, hp, hr, pattern, hpat, rfl, rfl⟩
    exact ⟨p, hp, hr, hpat, rfl⟩
  · rintro ⟨p, hp, hr, hpat, rfl⟩
    exact ⟨p, hp, hr, id, hpat, rfl, rfl⟩

theorem hasRoutes_of_mem (h : row ∈ cat.routeRows) : cat.HasRoutes row.modelId := by
  obtain ⟨p, hp⟩ := exists_registration h
  exact ⟨_, List.mem_append_left _ hp⟩

/-- In terms of the tables: an enabled route of an enabled model, or a default prefix. -/
theorem hasRoutes_iff : cat.HasRoutes id ↔
    (∃ row ∈ cat.routeRows, row.modelId = id) ∨
      ∃ p ∈ cat.activeProviders, (∀ row ∈ cat.routeRows, row.providerId ≠ p.id) ∧
        id ∈ defaultModelPrefixes p.providerType := by
  have hnone : ∀ pid, cat.hasRoutes pid = false ↔ ∀ row ∈ cat.routeRows, row.providerId ≠ pid := by
    intro pid
    simp only [hasRoutes, List.any_eq_false, decide_eq_true_eq]
    constructor
    · intro h row hrow
      obtain ⟨p, hp⟩ := exists_registration hrow
      exact h _ hp
    · rintro h ⟨id', e⟩ he
      obtain ⟨row, hrow, p, -, rfl⟩ := mem_rowRegistrations he
      exact h row hrow
  constructor
  · rintro ⟨e, he⟩
    rcases List.mem_append.mp he with he | he
    · obtain ⟨row, hrow, -, hid, -⟩ := mem_rowRegistrations he
      exact .inl ⟨row, hrow, hid⟩
    · obtain ⟨p, hp, hr, hid, -⟩ := mem_syntheticRegistrations.mp he
      exact .inr ⟨p, hp, (hnone _).mp hr, hid⟩
  · rintro (⟨row, hrow, rfl⟩ | ⟨p, hp, hr, hid⟩)
    · exact hasRoutes_of_mem hrow
    · exact ⟨_, List.mem_append_right _
        (mem_syntheticRegistrations.mpr ⟨p, hp, (hnone _).mpr hr, hid, rfl⟩)⟩

/-- The row's entry is among the routes that `route` finds for `m`. -/
def Serves (cat : Catalog) (m : String) (row : RouteRow) : Prop :=
  row ∈ cat.routes ∧ ∃ entries, cat.loadProvidersIntoRouter.route m = some entries ∧
    ∃ e ∈ entries, e.routeId = row.id ∧ e.upstreamModel = some row.upstreamModel

/-- The rows that serve a name are those of the answering id. -/
theorem serves_iff {m : String} :
    cat.Serves m row ↔ row ∈ cat.routeRows ∧ cat.Answers m row.modelId := by
  constructor
  · rintro ⟨hrow, entries, hroute, e, he, hid, hup⟩
    obtain ⟨⟨k, l⟩, hmatch, rfl⟩ := Option.map_eq_some_iff.mp hroute
    obtain ⟨hans, hmem⟩ := answers_of_routeMatch hmatch
    rcases List.mem_append.mp ((hmem e).mp he) with he | he
    · obtain ⟨row', hrow', p, rfl, rfl⟩ := mem_rowRegistrations he
      -- the id of the entry is the row's
      obtain rfl : row' = row :=
        List.inj_on_of_nodup_map cat.routeIds (mem_routeRows.mp hrow').1 hrow hid
      exact ⟨hrow', hans⟩
    · obtain ⟨p, -, -, -, rfl⟩ := mem_syntheticRegistrations.mp he
      cases hup
  · rintro ⟨hrow, hans⟩
    refine ⟨(mem_routeRows.mp hrow).1, ?_⟩
    obtain ⟨p, hp⟩ := exists_registration hrow
    cases hmatch : cat.loadProvidersIntoRouter.routeMatch m with
    | none => exact absurd hans.hasRoutes (routeMatch_eq_none.mp hmatch _ hans.startsWith)
    | some ke =>
      obtain ⟨k, entries⟩ := ke
      obtain ⟨hans', hmem⟩ := answers_of_routeMatch hmatch
      obtain rfl := hans.eq hans'
      refine ⟨entries, by rw [ModelRouter.route, hmatch]; rfl, row.entry p, ?_, rfl, rfl⟩
      exact (hmem _).mpr (List.mem_append_left _ hp)

end Catalog

/-! ## The settings of the answering model -/

namespace Catalog

variable {cat : Catalog} {m k : String} {row : ModelRow}

/-- The configuration of the model row with the id; the default one when there is no row. -/
def configOf (cat : Catalog) (id : String) : ModelRoutingConfig :=
  match cat.models.find? fun r => r.modelId = id with
  | some r => r.config
  | none => .unset

/-- The row sets something, and its id is a prefix of `m`. -/
structure Claims (cat : Catalog) (m : String) (row : ModelRow) : Prop where
  mem : row ∈ cat.models
  sets : row.config.setsSomething = true
  startsWith : startsWith m row.modelId = true

/--
A row other than `k`'s that `config_for` prefers to it: it claims `m`, and if `k`'s row sets
something its id is longer than `k`.
-/
def Rival (cat : Catalog) (m k : String) (row : ModelRow) : Prop :=
  cat.Claims m row ∧ row.modelId ≠ k ∧
    ((cat.configOf k).setsSomething = true → k.utf8ByteSize < row.modelId.utf8ByteSize)

/-- There is no rival, or the longest one sets what `k`'s row sets. -/
def Undisturbed (cat : Catalog) (m k : String) : Prop :=
  ∀ row, cat.Rival m k row →
    (∀ row', cat.Rival m k row' → row'.modelId.utf8ByteSize ≤ row.modelId.utf8ByteSize) →
    row.config = cat.configOf k

theorem configOf_of_mem (h : row ∈ cat.models) : cat.configOf row.modelId = row.config := by
  unfold configOf
  rw [find?_eq_some_of_nodup cat.modelIds h]

/-- An id whose configuration sets something is the id of such a row. -/
theorem exists_row_of_configOf (h : (cat.configOf k).setsSomething = true) :
    ∃ row ∈ cat.models, row.modelId = k ∧ row.config.setsSomething = true := by
  unfold configOf at h
  cases hf : cat.models.find? fun r => r.modelId = k with
  | none =>
    rw [hf] at h
    cases h
  | some r =>
    rw [hf] at h
    exact ⟨r, List.mem_of_find?_eq_some hf, by simpa using List.find?_some hf, h⟩

theorem matches_configs {id : String} {cfg : ModelRoutingConfig} :
    TextMap.Matches cat.loadProvidersIntoRouter.configs (fun _ => true) m id cfg ↔
      ∃ row, cat.Claims m row ∧ row.modelId = id ∧ row.config = cfg := by
  unfold TextMap.Matches
  rw [lookup_configs_load]
  constructor
  · rintro ⟨⟨row, hrow, rfl, hset, rfl⟩, hpre, -⟩
    exact ⟨row, ⟨hrow, hset, hpre⟩, rfl, rfl⟩
  · rintro ⟨row, ⟨hrow, hset, hpre⟩, rfl, rfl⟩
    exact ⟨⟨row, hrow, rfl, hset, rfl⟩, hpre, rfl⟩

/-- `config_for` is the configuration of the longest row that claims the name. -/
theorem configFor_of_longest (h : cat.Claims m row)
    (hmax : ∀ row', cat.Claims m row' → row'.modelId.utf8ByteSize ≤ row.modelId.utf8ByteSize) :
    cat.loadProvidersIntoRouter.configFor m = row.config := by
  have hfind : TextMap.find cat.loadProvidersIntoRouter.configs (fun _ => true) m =
      some ⟨row.modelId, row.config⟩ := by
    refine TextMap.find_eq_some.mpr ⟨matches_configs.mpr ⟨row, h, rfl, rfl⟩, fun id cfg hid => ?_⟩
    obtain ⟨row', h', rfl, -⟩ := matches_configs.mp hid
    exact hmax row' h'
  rw [ModelRouter.configFor, hfind]

/-- The longest claiming row, when some row claims the name. -/
theorem exists_longest_claim (h : ∃ row, cat.Claims m row) :
    ∃ row, cat.Claims m row ∧
      ∀ row', cat.Claims m row' → row'.modelId.utf8ByteSize ≤ row.modelId.utf8ByteSize := by
  cases hf : TextMap.find cat.loadProvidersIntoRouter.configs (fun _ => true) m with
  | none =>
    obtain ⟨row, hrow⟩ := h
    exact absurd (matches_configs.mpr ⟨row, hrow, rfl, rfl⟩) (TextMap.find_eq_none.mp hf _ _)
  | some e =>
    obtain ⟨hm, hmax⟩ := TextMap.find_eq_some.mp hf
    obtain ⟨row, hrow, hid, hcfg⟩ := matches_configs.mp hm
    refine ⟨row, hrow, fun row' hrow' => ?_⟩
    exact hid ▸ hmax _ _ (matches_configs.mpr ⟨row', hrow', rfl, rfl⟩)

theorem configFor_of_unclaimed (h : ∀ row, ¬ cat.Claims m row) :
    cat.loadProvidersIntoRouter.configFor m = .unset := by
  have hfind : TextMap.find cat.loadProvidersIntoRouter.configs (fun _ => true) m = none := by
    refine TextMap.find_eq_none.mpr fun id cfg hid => ?_
    obtain ⟨row, hrow, -⟩ := matches_configs.mp hid
    exact h row hrow
  rw [ModelRouter.configFor, hfind]

/-- The answering row claims the name when it sets something. -/
theorem claims_of_configOf (hk : startsWith m k = true)
    (h : (cat.configOf k).setsSomething = true) : ∃ row, cat.Claims m row ∧ row.modelId = k := by
  obtain ⟨row, hrow, rfl, hset⟩ := exists_row_of_configOf h
  exact ⟨row, ⟨hrow, hset, hk⟩, rfl⟩

/-- Two claiming rows whose ids have one size are one. -/
theorem Claims.eq_of_size {row' : ModelRow} (h : cat.Claims m row) (h' : cat.Claims m row')
    (he : row.modelId.utf8ByteSize = row'.modelId.utf8ByteSize) : row = row' :=
  List.inj_on_of_nodup_map cat.modelIds h.mem h'.mem
    (eq_of_startsWith_of_size_eq h.startsWith h'.startsWith he)

/-- A claiming row that is longest and not `k`'s is a rival. -/
theorem rival_of_longest (hk : startsWith m k = true) (h : cat.Claims m row)
    (hmax : ∀ row', cat.Claims m row' → row'.modelId.utf8ByteSize ≤ row.modelId.utf8ByteSize)
    (hne : row.modelId ≠ k) : cat.Rival m k row := by
  refine ⟨h, hne, fun hset => ?_⟩
  obtain ⟨own, hown, rfl⟩ := claims_of_configOf hk hset
  refine lt_of_le_of_ne (hmax own hown) fun he => ?_
  exact hne (congrArg ModelRow.modelId (h.eq_of_size hown he.symm))

/--
The settings of a requested name are those of the model that answers it exactly when no other
row disturbs the lookup.
-/
theorem settings_of_answering_model_iff {entries : List RouteEntry}
    (h : cat.loadProvidersIntoRouter.routeMatch m = some ⟨k, entries⟩) :
    cat.loadProvidersIntoRouter.configFor m = cat.configOf k ↔ cat.Undisturbed m k := by
  have hk : startsWith m k = true := (answers_of_routeMatch h).1.startsWith
  by_cases hclaim : ∃ row, cat.Claims m row
  · obtain ⟨row, hrow, hmax⟩ := exists_longest_claim hclaim
    rw [configFor_of_longest hrow hmax]
    by_cases hid : row.modelId = k
    · -- the answering row itself: a rival would have to be longer
      subst hid
      refine iff_of_true (configOf_of_mem hrow.mem).symm fun row' hrival _ => ?_
      have hlt := hrival.2.2 ((configOf_of_mem hrow.mem).symm ▸ hrow.sets)
      exact absurd (hmax row' hrival.1) (not_le.mpr hlt)
    · have hrival : cat.Rival m k row := rival_of_longest hk hrow hmax hid
      constructor
      · intro he row' hrow' hmax'
        have hsize := le_antisymm (hmax row' hrow'.1) (hmax' row hrival)
        obtain rfl : row' = row := hrow'.1.eq_of_size hrow hsize
        exact he
      · exact fun hu => hu row hrival fun row' h' => hmax row' h'.1
  · rw [not_exists] at hclaim
    have hunset : cat.configOf k = .unset := by
      refine ModelRoutingConfig.setsSomething_eq_false.mp (Bool.eq_false_iff.mpr fun hset => ?_)
      obtain ⟨row, hrow, -⟩ := claims_of_configOf hk hset
      exact hclaim row hrow
    exact iff_of_true ((configFor_of_unclaimed hclaim).trans hunset.symm)
      fun row hrival _ => absurd hrival.1 (hclaim row)

end Catalog

/-! ## Access to the answering model -/

/-- `check_access` on the chat surface: `allowed` is the identity's `allowed_models`. -/
def checkAccess (allowed : Option (List String)) (candidate : String) : Except String Unit :=
  if Policy.mayCall allowed candidate then .ok ()
  else .error ("Model '" ++ candidate ++ "' is not allowed for this API key")

theorem checkAccess_ok {allowed : Option (List String)} {candidate : String} :
    checkAccess allowed candidate = .ok () ↔ Policy.mayCall allowed candidate = true := by
  unfold checkAccess
  split
  next h => exact iff_of_true rfl h
  next h => exact iff_of_false nofun h

theorem modelEntryMatches_iff {model entry : String} :
    Policy.modelEntryMatches model entry = true ↔ startsWith model entry = true := by
  unfold Policy.modelEntryMatches
  rw [Bool.or_eq_true, beq_iff_eq]
  exact or_iff_right_of_imp fun h => h ▸ startsWith_self model

/-- Who may call a model may call every name that starts with it. -/
theorem mayCall_of_startsWith {allowed : Option (List String)} {model id : String}
    (hid : startsWith model id = true) (h : Policy.mayCall allowed id = true) :
    Policy.mayCall allowed model = true := by
  cases allowed with
  | none => rfl
  | some entries =>
    obtain ⟨entry, hmem, hentry⟩ := List.any_eq_true.mp h
    refine List.any_eq_true.mpr ⟨entry, hmem, modelEntryMatches_iff.mpr ?_⟩
    exact startsWith_trans hid (modelEntryMatches_iff.mp hentry)

namespace Catalog

/-- If `m` passes the access check, every route row that serves it is of a model that does. -/
def AccessCovered (cat : Catalog) (allowed : Option (List String)) (m : String) : Prop :=
  checkAccess allowed m = .ok () →
    ∀ row, cat.Serves m row → checkAccess allowed row.modelId = .ok ()

/--
Some id with routes that `m` starts with may itself be called; or every route row whose model id
`m` starts with stands behind a longer id with routes.
-/
def Guarded (cat : Catalog) (allowed : Option (List String)) (m : String) : Prop :=
  (∃ id, cat.HasRoutes id ∧ startsWith m id = true ∧ Policy.mayCall allowed id = true) ∨
    ∀ row ∈ cat.routeRows, startsWith m row.modelId = true →
      ∃ id, cat.HasRoutes id ∧ startsWith m id = true ∧
        row.modelId.utf8ByteSize < id.utf8ByteSize

theorem serves_allowed_iff (cat : Catalog) (allowed : Option (List String)) (m : String) :
    (∀ row, cat.Serves m row → Policy.mayCall allowed row.modelId = true) ↔
      cat.Guarded allowed m := by
  constructor
  · intro h
    by_cases hserved : ∃ row, cat.Serves m row
    · obtain ⟨row, hrow⟩ := hserved
      have hans := (serves_iff.mp hrow).2
      exact .inl ⟨row.modelId, hans.hasRoutes, hans.startsWith, h row hrow⟩
    · -- no row serves `m`, so none of the rows in question is of the answering id
      refine .inr fun row hrow hpre => ?_
      by_contra hlonger
      refine hserved ⟨row, serves_iff.mpr ⟨hrow, hasRoutes_of_mem hrow, hpre, ?_⟩⟩
      intro id hid hroutes
      exact not_lt.mp fun hlt => hlonger ⟨id, hroutes, hid, hlt⟩
  · intro h row hserves
    obtain ⟨hrow, hans⟩ := serves_iff.mp hserves
    rcases h with ⟨id, hroutes, hid, hcall⟩ | h
    · exact mayCall_of_startsWith
        (startsWith_of_size_le hid hans.startsWith (hans.longest id hid hroutes)) hcall
    · obtain ⟨id, hroutes, hid, hlt⟩ := h row hrow hans.startsWith
      exact absurd (hans.longest id hid hroutes) (not_le.mpr hlt)

/-- The access check covers the model that answers exactly where the fallback is guarded. -/
theorem access_covered_iff (cat : Catalog) (allowed : Option (List String)) (m : String) :
    cat.AccessCovered allowed m ↔ (checkAccess allowed m = .ok () → cat.Guarded allowed m) := by
  refine imp_congr_right fun _ => ?_
  simp only [checkAccess_ok]
  exact cat.serves_allowed_iff allowed m

end Catalog

/-! ## Two models, the id of one a prefix of the other's -/

/-- A model row that sets at most the limit on output tokens. -/
def plainModel (modelId : String) (enabled : Bool) (limit : Option Int) : ModelRow :=
  ⟨modelId, enabled, none, none, none, limit, none⟩

/-- An enabled route to the provider 1. -/
def plainRoute (id : Uuid) (modelId : String) : RouteRow :=
  ⟨id, modelId, 1, modelId, 100, none, none, none, none, true⟩

def openaiProvider : Provider := ⟨1, "openai-eu", "openai", true, false⟩

/-- Only the shorter one has a limit. -/
def twoModels (miniEnabled : Bool) : Catalog where
  providers := [openaiProvider]
  models := [plainModel "gpt-4o" true (some 100), plainModel "gpt-4o-mini" miniEnabled none]
  routes := [plainRoute 10 "gpt-4o", plainRoute 11 "gpt-4o-mini"]
  providerIds := by decide
  modelIds := by cases miniEnabled <;> decide
  routeIds := by decide

/-- The limit of `gpt-4o` is looked up for `gpt-4o` itself. -/
theorem gpt4o_settings :
    ((twoModels true).loadProvidersIntoRouter.configFor "gpt-4o" =
      (twoModels true).configOf "gpt-4o") ↔ (twoModels true).Undisturbed "gpt-4o" "gpt-4o" :=
  Catalog.settings_of_answering_model_iff
    (show (twoModels true).loadProvidersIntoRouter.routeMatch "gpt-4o" =
      some ⟨"gpt-4o", [(plainRoute 10 "gpt-4o").entry openaiProvider]⟩ from rfl)

/-- `gpt-4o-mini` answers with its own routes, under the limit of `gpt-4o`. -/
theorem mini_gets_foreign_limit :
    (twoModels true).loadProvidersIntoRouter.routeMatch "gpt-4o-mini" =
        some ⟨"gpt-4o-mini", [(plainRoute 11 "gpt-4o-mini").entry openaiProvider]⟩ ∧
      (twoModels true).configOf "gpt-4o-mini" = .unset ∧
      ((twoModels true).loadProvidersIntoRouter.configFor "gpt-4o-mini").maxOutputTokens =
        some 100 :=
  ⟨rfl, by decide, by decide⟩

/-- With `gpt-4o-mini` disabled, a caller restricted to it is served by `gpt-4o`. -/
theorem disabled_model_falls_back :
    ¬ (twoModels false).AccessCovered (some ["gpt-4o-mini"]) "gpt-4o-mini" := by
  intro h
  have hserves : (twoModels false).Serves "gpt-4o-mini" (plainRoute 10 "gpt-4o") := by
    refine ⟨by decide, [(plainRoute 10 "gpt-4o").entry openaiProvider], rfl, ?_⟩
    exact ⟨_, List.mem_singleton_self _, rfl, rfl⟩
  have hdenied : checkAccess (some ["gpt-4o-mini"]) "gpt-4o" =
      .error "Model 'gpt-4o' is not allowed for this API key" := by rfl
  have hok : checkAccess (some ["gpt-4o-mini"]) "gpt-4o-mini" = .ok () := by rfl
  exact nomatch hdenied.symm.trans (h hok _ hserves)

end ThinkWatch.Gateway
