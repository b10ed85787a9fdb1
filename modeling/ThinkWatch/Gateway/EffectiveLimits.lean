import ThinkWatch.Lib.KeyedList
import ThinkWatch.Limits.BulkEdits
import ThinkWatch.Policy.Serialize

/-!
# The limits a request is held to

`merge_most_restrictive`, `side_table_as_constraints` and `apply_user_overrides` of
`crates/common/src/limits/mod.rs`, as `compute_user_surface_constraints` of `crates/auth/src/rbac.rs`
puts them together for the owner and `compute_key_surface_constraints` for a key.
`effective_limits`: what `RequestLimits::for_request` then lists is, for the owner, the override or
else the strictest role for every slot that one of them names, and the rows of the key beside it.
-/

namespace ThinkWatch.Gateway

open Lib Limits

/-! ## Roles -/

/-- The order in which a hash map gives its entries, which nothing is known of. -/
structure Iteration (α : Type) where
  order : List α → List α
  perm : ∀ l, (order l).Perm l

/-- The orders of `rule_min` and `budget_min`. -/
structure Iterations where
  rules : Iteration (RuleSlot × Int)
  budgets : Iteration ((LimitSurface × BudgetPeriod) × Int)

abbrev SurfaceRule.key (r : SurfaceRule) : RateMetric × Int := (r.metric, r.windowSecs)

/-- The entries `rule_min` is made of: what is enabled and positive, of both surfaces. -/
def ruleEntries (inputs : List SurfaceConstraints) : List (RuleSlot × Int) :=
  inputs.flatMap fun cons => [LimitSurface.aiGateway, .mcpGateway].flatMap fun surface =>
    match cons.block surface with
    | none => []
    | some block =>
      (block.rules.filter fun r => r.enabled && 0 < r.maxCount).map fun r =>
        ((surface, r.metric, r.windowSecs), r.maxCount)

def budgetEntries (inputs : List SurfaceConstraints) :
    List ((LimitSurface × BudgetPeriod) × Int) :=
  inputs.flatMap fun cons => [LimitSurface.aiGateway, .mcpGateway].flatMap fun surface =>
    match cons.block surface with
    | none => []
    | some block =>
      (block.budgets.filter fun b => b.enabled && 0 < b.limitTokens).map fun b =>
        ((surface, b.period), b.limitTokens)

/-- One surface of what the two maps are turned into. -/
def mergedBlock (rules : List (RuleSlot × Int))
    (budgets : List ((LimitSurface × BudgetPeriod) × Int)) (surface : LimitSurface) :
    Option SurfaceBlock :=
  let block : SurfaceBlock :=
    { rules := (rules.filter (·.1.1 = surface)).map fun e => ⟨e.1.2.1, e.1.2.2, e.2, true⟩
      budgets := (budgets.filter (·.1.1 = surface)).map fun e => ⟨e.1.2, e.2, true⟩ }
  if block.rules ≠ [] ∨ block.budgets ≠ [] then some block else none

def mergeMostRestrictive (its : Iterations)
    (inputs : List SurfaceConstraints) : SurfaceConstraints :=
  let rules := its.rules.order (minima (ruleEntries inputs))
  let budgets := its.budgets.order (minima (budgetEntries inputs))
  ⟨mergedBlock rules budgets .aiGateway, mergedBlock rules budgets .mcpGateway⟩

/-! ## Overrides -/

abbrev RuleRow := LimitRow RateLimitSubject RuleSlot

abbrev CapRow := LimitRow BudgetSubject BudgetPeriod

def SurfaceBlock.empty : SurfaceBlock := ⟨[], []⟩

/-- `block_mut(surface).get_or_insert_with(SurfaceBlock::default)`, and what happens to it. -/
def SurfaceConstraints.update (c : SurfaceConstraints) (f : SurfaceBlock → SurfaceBlock) :
    LimitSurface → SurfaceConstraints
  | .aiGateway => { c with aiGateway := some (f (c.aiGateway.getD .empty)) }
  | .mcpGateway => { c with mcpGateway := some (f (c.mcpGateway.getD .empty)) }

def rowRule (row : RuleRow) : SurfaceRule := ⟨row.slot.2.1, row.slot.2.2, row.amount, true⟩

def rowBudget (row : CapRow) : SurfaceBudget := ⟨row.slot, row.amount, true⟩

def pushRow (out : SurfaceConstraints) (row : RuleRow) : SurfaceConstraints :=
  if row.enabled then
    out.update (fun block => { block with rules := block.rules ++ [rowRule row] }) row.slot.1
  else out

/-- A cap has no surface, and goes to both. -/
def pushCap (out : SurfaceConstraints) (row : CapRow) : SurfaceConstraints :=
  if row.enabled then
    [LimitSurface.aiGateway, .mcpGateway].foldl
      (SurfaceConstraints.update · fun block =>
        { block with budgets := block.budgets ++ [rowBudget row] }) out
  else out

def sideTableAsConstraints (rules : List RuleRow) (caps : List CapRow) : SurfaceConstraints :=
  caps.foldl pushCap (rules.foldl pushRow ⟨none, none⟩)

def applyBlockOverrides (target overrides : Option SurfaceBlock) : Option SurfaceBlock :=
  match overrides with
  | none => target
  | some ov =>
    let block := target.getD .empty
    some ⟨puts SurfaceRule.key ov.rules block.rules,
      puts SurfaceBudget.period ov.budgets block.budgets⟩

def applyUserOverrides (base overrides : SurfaceConstraints) : SurfaceConstraints :=
  ⟨applyBlockOverrides base.aiGateway overrides.aiGateway,
    applyBlockOverrides base.mcpGateway overrides.mcpGateway⟩

/-- The active rows of one subject. The tables have at most one for a slot. -/
structure SubjectRows where
  rules : List RuleRow
  caps : List CapRow
  rules_nodup : (rules.map (·.slot)).Nodup
  caps_nodup : (caps.map (·.slot)).Nodup

def computeUserSurfaceConstraints (its : Iterations)
    (roles : List SurfaceConstraints) (overrides : SubjectRows) : SurfaceConstraints :=
  let roleMerged := mergeMostRestrictive its roles
  let constraints := sideTableAsConstraints overrides.rules overrides.caps
  if constraints = ⟨none, none⟩ then roleMerged else applyUserOverrides roleMerged constraints

def computeKeySurfaceConstraints (rows : SubjectRows) : SurfaceConstraints :=
  sideTableAsConstraints rows.rules rows.caps

/-! ## The block of a surface -/

/-- The limits on a surface; no block is an empty one. -/
def SurfaceConstraints.blockAt (c : SurfaceConstraints) (surface : LimitSurface) : SurfaceBlock :=
  (c.block surface).getD .empty

section Blocks

variable {c : SurfaceConstraints}

theorem blockAt_mergeMostRestrictive (its : Iterations)
    (inputs : List SurfaceConstraints) (surface : LimitSurface) :
    (mergeMostRestrictive its inputs).blockAt surface =
      ⟨((its.rules.order (minima (ruleEntries inputs))).filter (·.1.1 = surface)).map fun e =>
          ⟨e.1.2.1, e.1.2.2, e.2, true⟩,
        ((its.budgets.order (minima (budgetEntries inputs))).filter (·.1.1 = surface)).map fun e =>
          ⟨e.1.2, e.2, true⟩⟩ := by
  have hblock : ∀ rules budgets, (mergedBlock rules budgets surface).getD .empty =
      ⟨(rules.filter (·.1.1 = surface)).map fun e => ⟨e.1.2.1, e.1.2.2, e.2, true⟩,
        (budgets.filter (·.1.1 = surface)).map fun e => ⟨e.1.2, e.2, true⟩⟩ := by
    intro rules budgets
    unfold mergedBlock
    dsimp only
    split
    next => rfl
    next h =>
      obtain ⟨hrules, hbudgets⟩ := not_or.mp h
      rw [not_not.mp hrules, not_not.mp hbudgets]
      rfl
  cases surface with
  | aiGateway => exact hblock _ _
  | mcpGateway => exact hblock _ _

theorem blockAt_update (c : SurfaceConstraints) (f : SurfaceBlock → SurfaceBlock)
    (changed surface : LimitSurface) :
    (c.update f changed).blockAt surface =
      if changed = surface then f (c.blockAt surface) else c.blockAt surface := by
  cases changed <;> cases surface <;> rfl

theorem blockAt_pushRow (out : SurfaceConstraints) (row : RuleRow) (surface : LimitSurface) :
    (pushRow out row).blockAt surface =
      ⟨(out.blockAt surface).rules ++
          ([row].filter fun r => r.enabled && r.slot.1 = surface).map rowRule,
        (out.blockAt surface).budgets⟩ := by
  unfold pushRow
  by_cases henabled : row.enabled
  · rw [if_pos henabled, blockAt_update]
    by_cases hsurface : row.slot.1 = surface
    · simp [henabled, hsurface]
    · simp [henabled, hsurface]
  · simp [henabled]

theorem blockAt_pushCap (out : SurfaceConstraints) (row : CapRow) (surface : LimitSurface) :
    (pushCap out row).blockAt surface =
      ⟨(out.blockAt surface).rules,
        (out.blockAt surface).budgets ++ ([row].filter (·.enabled)).map rowBudget⟩ := by
  unfold pushCap
  by_cases henabled : row.enabled
  · rw [if_pos henabled, List.foldl_cons, List.foldl_cons, List.foldl_nil, blockAt_update,
      blockAt_update]
    cases surface <;> simp [henabled]
  · simp [henabled]

/-- The rows of the surface, and the caps on either. -/
theorem blockAt_sideTableAsConstraints (rules : List RuleRow) (caps : List CapRow)
    (surface : LimitSurface) :
    (sideTableAsConstraints rules caps).blockAt surface =
      ⟨(rules.filter fun r => r.enabled && r.slot.1 = surface).map rowRule,
        (caps.filter (·.enabled)).map rowBudget⟩ := by
  have hrules : ∀ (rules : List RuleRow) (out : SurfaceConstraints),
      (rules.foldl pushRow out).blockAt surface =
        ⟨(out.blockAt surface).rules ++
            (rules.filter fun r => r.enabled && r.slot.1 = surface).map rowRule,
          (out.blockAt surface).budgets⟩ := by
    intro rules
    induction rules with
    | nil => simp
    | cons row rules ih =>
      intro out
      rw [List.foldl_cons, ih, blockAt_pushRow, show row :: rules = [row] ++ rules from rfl,
        List.filter_append, List.map_append, List.append_assoc]
  have hcaps : ∀ (caps : List CapRow) (out : SurfaceConstraints),
      (caps.foldl pushCap out).blockAt surface =
        ⟨(out.blockAt surface).rules,
          (out.blockAt surface).budgets ++ (caps.filter (·.enabled)).map rowBudget⟩ := by
    intro caps
    induction caps with
    | nil => simp
    | cons row caps ih =>
      intro out
      rw [List.foldl_cons, ih, blockAt_pushCap, show row :: caps = [row] ++ caps from rfl,
        List.filter_append, List.map_append, List.append_assoc]
  have hnone : SurfaceConstraints.blockAt ⟨none, none⟩ surface = .empty := by
    cases surface <;> rfl
  rw [sideTableAsConstraints, hcaps, hrules, hnone]
  rfl

theorem blockAt_applyUserOverrides (base overrides : SurfaceConstraints)
    (surface : LimitSurface) :
    (applyUserOverrides base overrides).blockAt surface =
      ⟨puts SurfaceRule.key (overrides.blockAt surface).rules (base.blockAt surface).rules,
        puts SurfaceBudget.period (overrides.blockAt surface).budgets
          (base.blockAt surface).budgets⟩ := by
  have hblock : ∀ target ov, (applyBlockOverrides target ov).getD .empty =
      ⟨puts SurfaceRule.key (ov.getD .empty).rules (target.getD .empty).rules,
        puts SurfaceBudget.period (ov.getD .empty).budgets (target.getD .empty).budgets⟩ := by
    intro target ov
    cases ov <;> rfl
  cases surface with
  | aiGateway => exact hblock _ _
  | mcpGateway => exact hblock _ _

/-- Without overrides nothing is replaced, so the short cut makes no difference. -/
theorem blockAt_computeUserSurfaceConstraints (its : Iterations)
    (roles : List SurfaceConstraints) (overrides : SubjectRows) (surface : LimitSurface) :
    (computeUserSurfaceConstraints its roles overrides).blockAt surface =
      (applyUserOverrides (mergeMostRestrictive its roles)
        (sideTableAsConstraints overrides.rules overrides.caps)).blockAt surface := by
  unfold computeUserSurfaceConstraints
  dsimp only
  split
  next h =>
    rw [h]
    cases surface <;> rfl
  next => rfl

end Blocks

/-! ## The limits of a request by their subject -/

theorem forRequest_blocks (surface : LimitSurface) (owner : Uuid) (user : SurfaceConstraints)
    (key : Option (Uuid × SurfaceConstraints)) :
    (RequestLimits.forRequest surface owner user key).rules =
        RequestLimits.blockRules surface .user owner (user.blockAt surface) ++
          key.toList.flatMap (fun k =>
            RequestLimits.blockRules surface .apiKeyLineage k.1 (k.2.blockAt surface)) ∧
      (RequestLimits.forRequest surface owner user key).caps =
        RequestLimits.blockCaps .user owner (user.blockAt surface) ++
          key.toList.flatMap (fun k =>
            RequestLimits.blockCaps .apiKeyLineage k.1 (k.2.blockAt surface)) := by
  have hadd : ∀ (out : RequestLimits) kind id (c : SurfaceConstraints),
      (out.add surface kind id c).rules =
          out.rules ++ RequestLimits.blockRules surface kind id (c.blockAt surface) ∧
        (out.add surface kind id c).caps =
          out.caps ++ RequestLimits.blockCaps kind id (c.blockAt surface) := by
    intro out kind id c
    unfold RequestLimits.add SurfaceConstraints.blockAt
    cases c.block surface with
    | none => exact ⟨(List.append_nil _).symm, (List.append_nil _).symm⟩
    | some block => exact ⟨rfl, rfl⟩
  unfold RequestLimits.forRequest
  cases key with
  | none =>
    obtain ⟨hrules, hcaps⟩ := hadd ⟨owner, none, [], []⟩ .user owner user
    exact ⟨hrules.trans (List.append_nil _).symm, hcaps.trans (List.append_nil _).symm⟩
  | some k =>
    dsimp only
    obtain ⟨hrules, hcaps⟩ := hadd ⟨owner, some k.1, [], []⟩ .user owner user
    obtain ⟨hrules', hcaps'⟩ :=
      hadd (RequestLimits.add ⟨owner, some k.1, [], []⟩ surface .user owner user) .apiKeyLineage k.1
        k.2
    rw [Option.map_some, hrules', hcaps', hrules, hcaps]
    simp

/-! ## What the limits are to be -/

/-- The maxima that the roles have for a slot, of what is enabled and positive. -/
def roleMaxima (roles : List SurfaceConstraints) (surface : LimitSurface)
    (slot : RateMetric × Int) : Set Int :=
  {n | ∃ role ∈ roles, ∃ r ∈ (role.blockAt surface).rules,
    r.enabled = true ∧ 0 < r.maxCount ∧ r.key = slot ∧ r.maxCount = n}

def roleCaps (roles : List SurfaceConstraints) (surface : LimitSurface) (period : BudgetPeriod) :
    Set Int :=
  {n | ∃ role ∈ roles, ∃ b ∈ (role.blockAt surface).budgets,
    b.enabled = true ∧ 0 < b.limitTokens ∧ b.period = period ∧ b.limitTokens = n}

/-- What an override says, or else the least that a role says. -/
def Decided (overridden byRoles : Set Int) (n : Int) : Prop :=
  n ∈ overridden ∨ overridden = ∅ ∧ IsLeast byRoles n

/-- What the overrides say of a slot on a surface. -/
def overrideMaxima (overrides : SubjectRows) (surface : LimitSurface) (slot : RateMetric × Int) :
    Set Int :=
  {n | ∃ row ∈ overrides.rules, row.enabled = true ∧ row.slot = (surface, slot) ∧ row.amount = n}

/-- A cap has no surface. -/
def overrideCaps (overrides : SubjectRows) (period : BudgetPeriod) : Set Int :=
  {n | ∃ row ∈ overrides.caps, row.enabled = true ∧ row.slot = period ∧ row.amount = n}

/--
The limits of a request: those of the owner are what `Decided` says, one for each slot that is named
at all; those of the key are its rows; no two rules have one counter, and no two caps.
-/
structure Effective (roles : List SurfaceConstraints) (overrides : SubjectRows) (owner : Uuid)
    (key : Option (Uuid × SubjectRows)) (surface : LimitSurface) (limits : RequestLimits) :
    Prop where
  ownerRules : ∀ rule ∈ limits.rules, rule.subjectKind = .user →
    rule.subjectId = owner ∧ rule.surface = surface
  ownerRule : ∀ metric window n, ⟨.user, owner, surface, metric, window, n⟩ ∈ limits.rules ↔
    Decided (overrideMaxima overrides surface (metric, window))
      (roleMaxima roles surface (metric, window)) n
  ownerNamed : ∀ metric window, (overrideMaxima overrides surface (metric, window) ∪
      roleMaxima roles surface (metric, window)).Nonempty →
    (limits.rules.filter fun r => r.subjectKind = .user && r.metric = metric &&
      r.windowSecs = window).length = 1
  ownerCaps : ∀ cap ∈ limits.caps, cap.subjectKind = .user → cap.id = 0 ∧ cap.subjectId = owner
  ownerCap : ∀ period n, ⟨0, .user, owner, period, n⟩ ∈ limits.caps ↔
    Decided (overrideCaps overrides period) (roleCaps roles surface period) n
  ownerCapNamed : ∀ period, (overrideCaps overrides period ∪ roleCaps roles surface period).Nonempty →
    (limits.caps.filter fun c => c.subjectKind = .user && c.period = period).length = 1
  keyRules : limits.rules.filter (·.subjectKind = .apiKeyLineage) =
    key.toList.flatMap fun k => (k.2.rules.filter fun r => r.enabled && r.slot.1 = surface).map fun r =>
      ⟨.apiKeyLineage, k.1, surface, r.slot.2.1, r.slot.2.2, r.amount⟩
  keyCaps : limits.caps.filter (·.subjectKind = .apiKeyLineage) =
    key.toList.flatMap fun k => (k.2.caps.filter (·.enabled)).map fun r =>
      ⟨0, .apiKeyLineage, k.1, r.slot, r.amount⟩
  counters : (limits.rules.map (Sliding.counterKey limits.owner)).Nodup
  capCounters : (limits.caps.map fun c => (c.subjectKind, c.subjectId, c.period)).Nodup

/-- The limits of a request, from the roles and the rows of the tables. -/
def limitsOf (its : Iterations) (roles : List SurfaceConstraints)
    (overrides : SubjectRows) (owner : Uuid) (key : Option (Uuid × SubjectRows))
    (surface : LimitSurface) : RequestLimits :=
  RequestLimits.forRequest surface owner
    (computeUserSurfaceConstraints its roles overrides)
    (key.map fun k => (k.1, computeKeySurfaceConstraints k.2))

/-! ## The slots of a block -/

section Slots

variable {roles : List SurfaceConstraints} {overrides rows : SubjectRows} {surface : LimitSurface}
  {its : Iterations}

theorem mem_ruleEntries {slot : RateMetric × Int} {n : Int} :
    ((surface, slot), n) ∈ ruleEntries roles ↔ n ∈ roleMaxima roles surface slot := by
  have hblock : ∀ (cons : SurfaceConstraints) (on : LimitSurface),
      (match cons.block on with
        | none => []
        | some block =>
          (block.rules.filter fun r => r.enabled && 0 < r.maxCount).map fun r =>
            ((on, r.metric, r.windowSecs), r.maxCount)) =
        ((cons.blockAt on).rules.filter fun r => r.enabled && 0 < r.maxCount).map fun r =>
          ((on, r.key), r.maxCount) := by
    intro cons on
    unfold SurfaceConstraints.blockAt
    cases cons.block on <;> rfl
  unfold ruleEntries roleMaxima
  simp only [hblock, List.mem_flatMap, List.mem_map, List.mem_filter, Bool.and_eq_true,
    decide_eq_true_eq, Prod.mk.injEq, Set.mem_ofPred_eq]
  constructor
  · rintro ⟨role, hrole, on, -, r, ⟨hr, henabled, hpos⟩, ⟨rfl, hkey⟩, hn⟩
    exact ⟨role, hrole, r, hr, henabled, hpos, hkey, hn⟩
  · rintro ⟨role, hrole, r, hr, henabled, hpos, hkey, hn⟩
    refine ⟨role, hrole, surface, ?_, r, ⟨hr, henabled, hpos⟩, ⟨rfl, hkey⟩, hn⟩
    cases surface <;> simp

theorem mem_budgetEntries {period : BudgetPeriod} {n : Int} :
    ((surface, period), n) ∈ budgetEntries roles ↔ n ∈ roleCaps roles surface period := by
  have hblock : ∀ (cons : SurfaceConstraints) (on : LimitSurface),
      (match cons.block on with
        | none => []
        | some block =>
          (block.budgets.filter fun b => b.enabled && 0 < b.limitTokens).map fun b =>
            ((on, b.period), b.limitTokens)) =
        ((cons.blockAt on).budgets.filter fun b => b.enabled && 0 < b.limitTokens).map fun b =>
          ((on, b.period), b.limitTokens) := by
    intro cons on
    unfold SurfaceConstraints.blockAt
    cases cons.block on <;> rfl
  unfold budgetEntries roleCaps
  simp only [hblock, List.mem_flatMap, List.mem_map, List.mem_filter, Bool.and_eq_true,
    decide_eq_true_eq, Prod.mk.injEq, Set.mem_ofPred_eq]
  constructor
  · rintro ⟨role, hrole, on, -, b, ⟨hb, henabled, hpos⟩, ⟨rfl, hperiod⟩, hn⟩
    exact ⟨role, hrole, b, hb, henabled, hpos, hperiod, hn⟩
  · rintro ⟨role, hrole, b, hb, henabled, hpos, hperiod, hn⟩
    refine ⟨role, hrole, surface, ?_, b, ⟨hb, henabled, hpos⟩, ⟨rfl, hperiod⟩, hn⟩
    cases surface <;> simp

/-- What an iteration gives of the entries of a surface has the keys of that surface once. -/
theorem nodup_iteration {κ : Type} [DecidableEq κ] (it : Iteration ((LimitSurface × κ) × Int))
    (l : List ((LimitSurface × κ) × Int)) (surface : LimitSurface) :
    (((it.order (minima l)).filter (·.1.1 = surface)).map (·.1.2)).Nodup := by
  have hkeys : ((it.order (minima l)).map Prod.fst).Nodup :=
    ((it.perm _).map Prod.fst).nodup_iff.mpr (nodup_minima l)
  rw [List.Nodup, List.pairwise_map] at hkeys ⊢
  refine (hkeys.sublist List.filter_sublist).imp_of_mem fun {e e'} he he' hne heq => ?_
  have hsurface := of_decide_eq_true (List.mem_filter.mp he).2
  have hsurface' := of_decide_eq_true (List.mem_filter.mp he').2
  exact hne (Prod.ext (hsurface.trans hsurface'.symm) heq)

/-- The rows on a surface have different slots there. -/
theorem nodup_rowRules (rows : SubjectRows) (surface : LimitSurface) :
    (((rows.rules.filter fun r => r.enabled && r.slot.1 = surface).map rowRule).map
      SurfaceRule.key).Nodup := by
  have hslots := rows.rules_nodup
  rw [List.map_map]
  rw [List.Nodup, List.pairwise_map] at hslots ⊢
  refine (hslots.sublist List.filter_sublist).imp_of_mem fun {r r'} hr hr' hne heq => ?_
  have hsurface := (List.mem_filter.mp hr).2
  have hsurface' := (List.mem_filter.mp hr').2
  rw [Bool.and_eq_true, decide_eq_true_eq] at hsurface hsurface'
  exact hne (Prod.ext (hsurface.2.trans hsurface'.2.symm) heq)

theorem nodup_rowBudgets (rows : SubjectRows) :
    (((rows.caps.filter (·.enabled)).map rowBudget).map SurfaceBudget.period).Nodup := by
  rw [List.map_map]
  exact rows.caps_nodup.sublist (List.filter_sublist.map _)

theorem mem_iteration {κ : Type} [DecidableEq κ] (it : Iteration ((LimitSurface × κ) × Int))
    {l : List ((LimitSurface × κ) × Int)} {slot : κ} {n : Int} :
    ((surface, slot), n) ∈ (it.order (minima l)).filter (·.1.1 = surface) ↔
      IsLeast {x | ((surface, slot), x) ∈ l} n := by
  rw [List.mem_filter, (it.perm _).mem_iff, mem_minima]
  simp

theorem mem_overrideRules {r : SurfaceRule} :
    r ∈ (overrides.rules.filter fun o => o.enabled && o.slot.1 = surface).map rowRule ↔
      r.enabled = true ∧ r.maxCount ∈ overrideMaxima overrides surface r.key := by
  unfold overrideMaxima
  simp only [List.mem_map, List.mem_filter, Bool.and_eq_true, decide_eq_true_eq, Set.mem_ofPred_eq]
  constructor
  · rintro ⟨row, ⟨hrow, henabled, rfl⟩, rfl⟩
    exact ⟨rfl, row, hrow, henabled, rfl, rfl⟩
  · rintro ⟨hr, row, hrow, henabled, hslot, hamount⟩
    refine ⟨row, ⟨hrow, henabled, by rw [hslot]⟩, ?_⟩
    obtain ⟨metric, window, n, enabled⟩ := r
    obtain rfl : enabled = true := hr
    obtain rfl : row.amount = n := hamount
    unfold rowRule
    rw [hslot]

theorem mem_overrideBudgets {b : SurfaceBudget} :
    b ∈ (overrides.caps.filter (·.enabled)).map rowBudget ↔
      b.enabled = true ∧ b.limitTokens ∈ overrideCaps overrides b.period := by
  unfold overrideCaps
  simp only [List.mem_map, List.mem_filter, Set.mem_ofPred_eq]
  constructor
  · rintro ⟨row, ⟨hrow, henabled⟩, rfl⟩
    exact ⟨rfl, row, hrow, henabled, rfl, rfl⟩
  · rintro ⟨hb, row, hrow, henabled, hslot, hamount⟩
    refine ⟨row, ⟨hrow, henabled⟩, ?_⟩
    obtain ⟨period, n, enabled⟩ := b
    obtain rfl : enabled = true := hb
    obtain rfl : row.amount = n := hamount
    obtain rfl : row.slot = period := hslot
    rfl

/--
Limits of a kind that are put over the least ones that an iteration gives. `make` makes the limit of
a slot, and `on` says which limits are made so.
-/
theorem mem_puts_decided {β κ : Type} [DecidableEq κ] (key : β → κ) (amount : β → Int)
    (on : β → Prop) (make : κ → Int → β) (overridden byRoles : κ → Set Int)
    (it : Iteration ((LimitSurface × κ) × Int)) {l : List ((LimitSurface × κ) × Int)} {os : List β}
    (hmake : ∀ k n, on (make k n) ∧ key (make k n) = k ∧ amount (make k n) = n)
    (hon : ∀ r, on r → make (key r) (amount r) = r) (hnodup : (os.map key).Nodup)
    (hos : ∀ r, r ∈ os ↔ on r ∧ amount r ∈ overridden (key r))
    (hl : ∀ k n, ((surface, k), n) ∈ l ↔ n ∈ byRoles k) (r : β) :
    r ∈ puts key os (((it.order (minima l)).filter (·.1.1 = surface)).map fun e => make e.1.2 e.2) ↔
      on r ∧ Decided (overridden (key r)) (byRoles (key r)) (amount r) := by
  have hmerged : r ∈ ((it.order (minima l)).filter (·.1.1 = surface)).map
      (fun e => make e.1.2 e.2) ↔ on r ∧ IsLeast (byRoles (key r)) (amount r) := by
    have hset : byRoles (key r) = {n | ((surface, key r), n) ∈ l} :=
      Set.ext fun n => (hl (key r) n).symm
    rw [hset, ← mem_iteration it, List.mem_map]
    constructor
    · rintro ⟨⟨⟨on', slot⟩, n⟩, he, rfl⟩
      obtain rfl : on' = surface := of_decide_eq_true (List.mem_filter.mp he).2
      obtain ⟨hr, hkey, hamount⟩ := hmake slot n
      rw [hkey, hamount]
      exact ⟨hr, he⟩
    · rintro ⟨hr, he⟩
      exact ⟨_, he, hon r hr⟩
  have hnone : key r ∉ os.map key ↔ overridden (key r) = ∅ := by
    rw [Set.eq_empty_iff_forall_notMem]
    constructor
    · intro h n hn
      obtain ⟨hr, hkey, hamount⟩ := hmake (key r) n
      have hmem := (hos (make (key r) n)).mpr ⟨hr, by rwa [hkey, hamount]⟩
      exact h (List.mem_map.mpr ⟨_, hmem, hkey⟩)
    · intro h hkey
      obtain ⟨o, ho, hkey⟩ := List.mem_map.mp hkey
      have hmem := ((hos o).mp ho).2
      rw [hkey] at hmem
      exact h _ hmem
  rw [mem_puts hnodup, hos, hmerged, hnone]
  unfold Decided
  tauto

/-- The owner's rules on a surface are enabled, with the maximum that is decided for their slot. -/
theorem mem_ownerRules (its : Iterations) {r : SurfaceRule} :
    r ∈ ((computeUserSurfaceConstraints its roles overrides).blockAt surface).rules ↔
      r.enabled = true ∧ Decided (overrideMaxima overrides surface r.key)
        (roleMaxima roles surface r.key) r.maxCount := by
  rw [blockAt_computeUserSurfaceConstraints, blockAt_applyUserOverrides,
    blockAt_sideTableAsConstraints, blockAt_mergeMostRestrictive]
  refine mem_puts_decided SurfaceRule.key SurfaceRule.maxCount (·.enabled = true)
    (fun slot n => ⟨slot.1, slot.2, n, true⟩) (overrideMaxima overrides surface)
    (roleMaxima roles surface) its.rules ?_ ?_ (nodup_rowRules overrides surface) ?_ ?_ r
  · exact fun _ _ => ⟨rfl, rfl, rfl⟩
  · rintro ⟨metric, window, n, enabled⟩ (rfl : enabled = true)
    rfl
  · exact fun _ => mem_overrideRules
  · exact fun _ _ => mem_ruleEntries

theorem mem_ownerBudgets (its : Iterations) {b : SurfaceBudget} :
    b ∈ ((computeUserSurfaceConstraints its roles overrides).blockAt
        surface).budgets ↔
      b.enabled = true ∧ Decided (overrideCaps overrides b.period)
        (roleCaps roles surface b.period) b.limitTokens := by
  rw [blockAt_computeUserSurfaceConstraints, blockAt_applyUserOverrides,
    blockAt_sideTableAsConstraints, blockAt_mergeMostRestrictive]
  refine mem_puts_decided SurfaceBudget.period SurfaceBudget.limitTokens (·.enabled = true)
    (fun period n => ⟨period, n, true⟩) (overrideCaps overrides) (roleCaps roles surface)
    its.budgets ?_ ?_ (nodup_rowBudgets overrides) ?_ ?_ b
  · exact fun _ _ => ⟨rfl, rfl, rfl⟩
  · rintro ⟨period, n, enabled⟩ (rfl : enabled = true)
    rfl
  · exact fun _ => mem_overrideBudgets
  · exact fun _ _ => mem_budgetEntries

/-- One rule of the owner for a slot. -/
theorem nodup_ownerRules :
    (((computeUserSurfaceConstraints its roles overrides).blockAt surface).rules.map
      SurfaceRule.key).Nodup := by
  rw [blockAt_computeUserSurfaceConstraints, blockAt_applyUserOverrides,
    blockAt_mergeMostRestrictive]
  refine nodup_puts _ ?_
  rw [List.map_map]
  exact nodup_iteration its.rules (ruleEntries roles) surface

theorem nodup_ownerBudgets :
    (((computeUserSurfaceConstraints its roles overrides).blockAt
      surface).budgets.map SurfaceBudget.period).Nodup := by
  rw [blockAt_computeUserSurfaceConstraints, blockAt_applyUserOverrides,
    blockAt_mergeMostRestrictive]
  refine nodup_puts _ ?_
  rw [List.map_map]
  exact nodup_iteration its.budgets (budgetEntries roles) surface

/-- What is named at all has a decision. -/
theorem exists_decided {κ : Type} [DecidableEq κ] {l : List (κ × Int)} {k : κ}
    {overridden byRoles : Set Int} (hset : byRoles = {n | (k, n) ∈ l})
    (h : (overridden ∪ byRoles).Nonempty) : ∃ n, Decided overridden byRoles n := by
  rcases overridden.eq_empty_or_nonempty with hempty | ⟨n, hn⟩
  · rw [hempty, Set.empty_union, hset] at h
    obtain ⟨n, hn⟩ := h
    obtain ⟨⟨_, x⟩, hx, rfl⟩ :=
      List.mem_map.mp (mem_keys_minima.mpr (List.mem_map.mpr ⟨(k, n), hn, rfl⟩))
    exact ⟨x, Or.inr ⟨hempty, hset ▸ mem_minima.mp hx⟩⟩
  · exact ⟨n, Or.inl hn⟩

end Slots

/-! ## The limits of a request -/

section Request

variable {block : SurfaceBlock} {surface : LimitSurface} {kind : RateLimitSubject} {id : Uuid}

/-- What tells the rules of a request apart. -/
abbrev ruleSlotOf (r : RateLimitRule) : RateLimitSubject × RateMetric × Int :=
  (r.subjectKind, r.metric, r.windowSecs)

abbrev capSlotOf (c : BudgetCap) : BudgetSubject × BudgetPeriod := (c.subjectKind, c.period)

theorem mem_blockRules {rule : RateLimitRule} :
    rule ∈ RequestLimits.blockRules surface kind id block ↔
      ∃ r ∈ block.rules, r.enabled = true ∧
        rule = ⟨kind, id, surface, r.metric, r.windowSecs, r.maxCount⟩ := by
  unfold RequestLimits.blockRules
  simp only [List.mem_map, List.mem_filter, and_assoc, eq_comm]

theorem mem_blockCaps {cap : BudgetCap} :
    cap ∈ RequestLimits.blockCaps kind id block ↔
      ∃ b ∈ block.budgets, b.enabled = true ∧
        cap = ⟨0, RequestLimits.budgetKind kind, id, b.period, b.limitTokens⟩ := by
  unfold RequestLimits.blockCaps
  simp only [List.mem_map, List.mem_filter, and_assoc, eq_comm]

/-- Different keys stay different beside a kind. -/
theorem nodup_kind {β κ γ : Type} {l : List β} {key : β → κ} (on : β → Bool) (k : γ)
    (h : (l.map key).Nodup) : ((l.filter on).map fun x => (k, key x)).Nodup := by
  have hkeys := h.sublist ((List.filter_sublist (p := on)).map key)
  rw [List.Nodup, List.pairwise_map] at hkeys ⊢
  exact hkeys.imp fun hne heq => hne (congrArg Prod.snd heq)

theorem nodup_blockRules (h : (block.rules.map SurfaceRule.key).Nodup) :
    ((RequestLimits.blockRules surface kind id block).map ruleSlotOf).Nodup := by
  unfold RequestLimits.blockRules
  rw [List.map_map]
  exact nodup_kind SurfaceRule.enabled kind h

theorem nodup_blockCaps (h : (block.budgets.map SurfaceBudget.period).Nodup) :
    ((RequestLimits.blockCaps kind id block).map capSlotOf).Nodup := by
  unfold RequestLimits.blockCaps
  rw [List.map_map]
  exact nodup_kind SurfaceBudget.enabled (RequestLimits.budgetKind kind) h

theorem toList_toString (n : Int) : (toString n).toList = Policy.Json.intText n := by
  unfold Policy.Json.intText
  cases n with
  | ofNat m =>
    show (Nat.repr m).toList = if (m : Int) < 0 then _ else Nat.toDigits 10 m
    rw [if_neg (Int.not_lt.mpr (Int.natCast_nonneg m)), Nat.repr, String.toList_ofList]
  | negSucc m =>
    rw [if_pos (Int.negSucc_lt_zero m)]
    show ("-" ++ Nat.repr (m + 1)).toList = _
    simp only [String.toList_append, Nat.repr, String.toList_ofList]
    rfl

theorem toString_int_inj {m n : Int} (h : toString m = toString n) : m = n := by
  refine Policy.Json.intText_inj ?_
  rw [← toList_toString, h, toList_toString]

/-- The counter of a rule says its slot, whatever the window is. -/
theorem slot_of_counterKey {owner : Uuid} {r r' : RateLimitRule} (hsurface : r.surface = r'.surface)
    (hid : r.subjectKind = r'.subjectKind → r.subjectId = r'.subjectId)
    (h : Sliding.counterKey owner r = Sliding.counterKey owner r') :
    ruleSlotOf r = ruleSlotOf r' := by
  obtain ⟨kind, sid, on, metric, window, n⟩ := r
  obtain ⟨kind', sid', on', metric', window', n'⟩ := r'
  obtain rfl : on = on' := hsurface
  have hkind : kind = kind' := by
    cases kind <;> cases kind'
    · rfl
    · exact absurd h Sliding.counterKey_kind_ne
    · exact absurd h.symm Sliding.counterKey_kind_ne
    · rfl
  subst hkind
  obtain rfl : sid = sid' := hid rfl
  unfold Sliding.counterKey at h
  rw [String.append_right_inj, String.append_right_inj, String.append_right_inj] at h
  have hslot : metric = metric' ∧ window = window' := by
    cases metric <;> cases metric'
    · rw [String.append_right_inj] at h
      exact ⟨rfl, toString_int_inj h⟩
    · rw [String.append_assoc, String.append_assoc] at h
      exact absurd h (Sliding.metric_ne _ _)
    · rw [String.append_assoc, String.append_assoc] at h
      exact absurd h.symm (Sliding.metric_ne _ _)
    · rw [String.append_right_inj] at h
      exact ⟨rfl, toString_int_inj h⟩
  rw [hslot.1, hslot.2]

end Request

section Effective

variable {roles roles' : List SurfaceConstraints} {overrides overrides' : SubjectRows}
  {owner : Uuid} {key : Option (Uuid × SubjectRows)} {surface : LimitSurface} {its its' : Iterations}

/-- The rules of a request are the owner's and the key's. -/
theorem limitsOf_rules :
    (limitsOf its roles overrides owner key surface).rules =
      RequestLimits.blockRules surface .user owner
          ((computeUserSurfaceConstraints its roles overrides).blockAt surface) ++
        key.toList.flatMap fun k => RequestLimits.blockRules surface .apiKeyLineage k.1
          ((computeKeySurfaceConstraints k.2).blockAt surface) := by
  unfold limitsOf
  rw [(forRequest_blocks surface owner _ _).1]
  cases key <;> rfl

theorem limitsOf_caps :
    (limitsOf its roles overrides owner key surface).caps =
      RequestLimits.blockCaps .user owner
          ((computeUserSurfaceConstraints its roles overrides).blockAt surface) ++
        key.toList.flatMap fun k => RequestLimits.blockCaps .apiKeyLineage k.1
          ((computeKeySurfaceConstraints k.2).blockAt surface) := by
  unfold limitsOf
  rw [(forRequest_blocks surface owner _ _).2]
  cases key <;> rfl

/-- The rules of a request's key are its rows, and those of the owner are the owner's. -/
theorem rules_cases {rule : RateLimitRule}
    (h : rule ∈ (limitsOf its roles overrides owner key surface).rules) :
    rule.surface = surface ∧ (rule.subjectKind = .user ∧ rule.subjectId = owner ∨
      rule.subjectKind = .apiKeyLineage ∧ ∃ k ∈ key, rule.subjectId = k.1) := by
  rw [limitsOf_rules] at h
  rcases List.mem_append.mp h with h | h
  · obtain ⟨r, -, -, rfl⟩ := mem_blockRules.mp h
    exact ⟨rfl, Or.inl ⟨rfl, rfl⟩⟩
  · obtain ⟨k, hk, h⟩ := List.mem_flatMap.mp h
    obtain ⟨r, -, -, rfl⟩ := mem_blockRules.mp h
    exact ⟨rfl, Or.inr ⟨rfl, k, Option.mem_toList.mp hk, rfl⟩⟩

theorem caps_cases {cap : BudgetCap}
    (h : cap ∈ (limitsOf its roles overrides owner key surface).caps) :
    cap.id = 0 ∧ (cap.subjectKind = .user ∧ cap.subjectId = owner ∨
      cap.subjectKind = .apiKeyLineage ∧ ∃ k ∈ key, cap.subjectId = k.1) := by
  rw [limitsOf_caps] at h
  rcases List.mem_append.mp h with h | h
  · obtain ⟨b, -, -, rfl⟩ := mem_blockCaps.mp h
    exact ⟨rfl, Or.inl ⟨rfl, rfl⟩⟩
  · obtain ⟨k, hk, h⟩ := List.mem_flatMap.mp h
    obtain ⟨b, -, -, rfl⟩ := mem_blockCaps.mp h
    exact ⟨rfl, Or.inr ⟨rfl, k, Option.mem_toList.mp hk, rfl⟩⟩

/-- One rule for a subject and a slot. -/
theorem nodup_rules :
    ((limitsOf its roles overrides owner key surface).rules.map ruleSlotOf).Nodup := by
  rw [limitsOf_rules, List.map_append]
  refine List.nodup_append.mpr ⟨nodup_blockRules nodup_ownerRules, ?_, ?_⟩
  · cases key with
    | none => exact List.nodup_nil
    | some k =>
      rw [Option.toList_some, List.flatMap_singleton]
      refine nodup_blockRules ?_
      rw [computeKeySurfaceConstraints, blockAt_sideTableAsConstraints]
      exact nodup_rowRules k.2 surface
  · rintro s hs s' hs' rfl
    obtain ⟨r, hr, heq⟩ := List.mem_map.mp hs
    obtain ⟨r', hr', heq'⟩ := List.mem_map.mp hs'
    obtain ⟨_, _, _, rfl⟩ := mem_blockRules.mp hr
    obtain ⟨k, -, hr'⟩ := List.mem_flatMap.mp hr'
    obtain ⟨_, _, _, rfl⟩ := mem_blockRules.mp hr'
    have hkind := congrArg Prod.fst (heq.trans heq'.symm)
    cases hkind

theorem nodup_caps :
    ((limitsOf its roles overrides owner key surface).caps.map capSlotOf).Nodup := by
  rw [limitsOf_caps, List.map_append]
  refine List.nodup_append.mpr ⟨nodup_blockCaps nodup_ownerBudgets, ?_, ?_⟩
  · cases key with
    | none => exact List.nodup_nil
    | some k =>
      rw [Option.toList_some, List.flatMap_singleton]
      refine nodup_blockCaps ?_
      rw [computeKeySurfaceConstraints, blockAt_sideTableAsConstraints]
      exact nodup_rowBudgets k.2
  · rintro s hs s' hs' rfl
    obtain ⟨c, hc, heq⟩ := List.mem_map.mp hs
    obtain ⟨c', hc', heq'⟩ := List.mem_map.mp hs'
    obtain ⟨_, _, _, rfl⟩ := mem_blockCaps.mp hc
    obtain ⟨k, -, hc'⟩ := List.mem_flatMap.mp hc'
    obtain ⟨_, _, _, rfl⟩ := mem_blockCaps.mp hc'
    have hkind := congrArg Prod.fst (heq.trans heq'.symm)
    cases hkind

/-- The owner's rules are the ones that are decided. -/
theorem mem_limitsOf_rules {metric : RateMetric} {window n : Int} :
    ⟨.user, owner, surface, metric, window, n⟩ ∈
        (limitsOf its roles overrides owner key surface).rules ↔
      Decided (overrideMaxima overrides surface (metric, window))
        (roleMaxima roles surface (metric, window)) n := by
  rw [limitsOf_rules, List.mem_append]
  constructor
  · rintro (h | h)
    · obtain ⟨r, hr, -, heq⟩ := mem_blockRules.mp h
      cases heq
      exact ((mem_ownerRules its).mp hr).2
    · obtain ⟨k, -, h⟩ := List.mem_flatMap.mp h
      obtain ⟨r, -, -, heq⟩ := mem_blockRules.mp h
      cases heq
  · intro h
    have hmem := (mem_ownerRules its (r := ⟨metric, window, n, true⟩)).mpr ⟨rfl, h⟩
    exact Or.inl (mem_blockRules.mpr ⟨_, hmem, rfl, rfl⟩)

theorem mem_limitsOf_caps {period : BudgetPeriod} {n : Int} :
    ⟨0, .user, owner, period, n⟩ ∈
        (limitsOf its roles overrides owner key surface).caps ↔
      Decided (overrideCaps overrides period) (roleCaps roles surface period) n := by
  rw [limitsOf_caps, List.mem_append]
  constructor
  · rintro (h | h)
    · obtain ⟨b, hb, -, heq⟩ := mem_blockCaps.mp h
      cases heq
      exact ((mem_ownerBudgets its).mp hb).2
    · obtain ⟨k, -, h⟩ := List.mem_flatMap.mp h
      obtain ⟨b, -, -, heq⟩ := mem_blockCaps.mp h
      cases heq
  · intro h
    have hmem := (mem_ownerBudgets its (b := ⟨period, n, true⟩)).mpr ⟨rfl, h⟩
    exact Or.inl (mem_blockCaps.mpr ⟨_, hmem, rfl, rfl⟩)

/-- Of the rules of a request, those of the key are its active rows on the surface. -/
theorem filter_keyRules :
    (limitsOf its roles overrides owner key surface).rules.filter
        (·.subjectKind = .apiKeyLineage) =
      key.toList.flatMap fun k =>
        (k.2.rules.filter fun r => r.enabled && r.slot.1 = surface).map fun r =>
          ⟨.apiKeyLineage, k.1, surface, r.slot.2.1, r.slot.2.2, r.amount⟩ := by
  have howner : ∀ block, (RequestLimits.blockRules surface .user owner block).filter
      (·.subjectKind = .apiKeyLineage) = [] := by
    intro block
    refine List.filter_eq_nil_iff.mpr fun rule h hkind => ?_
    obtain ⟨r, _, _, rfl⟩ := mem_blockRules.mp h
    cases of_decide_eq_true hkind
  rw [limitsOf_rules, List.filter_append, howner, List.nil_append]
  cases key with
  | none => rfl
  | some k =>
    rw [Option.toList_some, List.flatMap_singleton, List.flatMap_singleton,
      computeKeySurfaceConstraints, blockAt_sideTableAsConstraints]
    unfold RequestLimits.blockRules
    simp [List.filter_map, Function.comp_def, rowRule]

theorem filter_keyCaps :
    (limitsOf its roles overrides owner key surface).caps.filter
        (·.subjectKind = .apiKeyLineage) =
      key.toList.flatMap fun k => (k.2.caps.filter (·.enabled)).map fun r =>
        ⟨0, .apiKeyLineage, k.1, r.slot, r.amount⟩ := by
  have howner : ∀ block, (RequestLimits.blockCaps .user owner block).filter
      (·.subjectKind = .apiKeyLineage) = [] := by
    intro block
    refine List.filter_eq_nil_iff.mpr fun cap h hkind => ?_
    obtain ⟨b, _, _, rfl⟩ := mem_blockCaps.mp h
    cases of_decide_eq_true hkind
  rw [limitsOf_caps, List.filter_append, howner, List.nil_append]
  cases key with
  | none => rfl
  | some k =>
    rw [Option.toList_some, List.flatMap_singleton, List.flatMap_singleton,
      computeKeySurfaceConstraints, blockAt_sideTableAsConstraints]
    unfold RequestLimits.blockCaps
    simp [List.filter_map, Function.comp_def, rowBudget, RequestLimits.budgetKind]

/-- The kind of a rule's subject says whose it is. -/
theorem subjectId_eq {r r' : RateLimitRule}
    (h : r.subjectKind = .user ∧ r.subjectId = owner ∨
      r.subjectKind = .apiKeyLineage ∧ ∃ k ∈ key, r.subjectId = k.1)
    (h' : r'.subjectKind = .user ∧ r'.subjectId = owner ∨
      r'.subjectKind = .apiKeyLineage ∧ ∃ k ∈ key, r'.subjectId = k.1)
    (hkind : r.subjectKind = r'.subjectKind) : r.subjectId = r'.subjectId := by
  rcases h with ⟨hr, hid⟩ | ⟨hr, k, hk, hid⟩
  · rcases h' with ⟨-, hid'⟩ | ⟨hr', -⟩
    · rw [hid, hid']
    · rw [hr, hr'] at hkind
      cases hkind
  · rcases h' with ⟨hr', -⟩ | ⟨-, k', hk', hid'⟩
    · rw [hr, hr'] at hkind
      cases hkind
    · rw [hid, hid', Option.mem_unique hk hk']

/-- The limits of a request are what they are to be. -/
theorem limitsOf_effective :
    Effective roles overrides owner key surface
      (limitsOf its roles overrides owner key surface) where
  ownerRules rule h hkind := by
    obtain ⟨hsurface, ⟨-, hid⟩ | ⟨hkey, -⟩⟩ := rules_cases h
    · exact ⟨hid, hsurface⟩
    · rw [hkind] at hkey
      cases hkey
  ownerRule _ _ _ := mem_limitsOf_rules
  ownerNamed metric window h := by
    obtain ⟨n, hn⟩ := exists_decided (l := ruleEntries roles) (k := (surface, metric, window))
      (Set.ext fun _ => mem_ruleEntries.symm) h
    have hmem : ⟨.user, owner, surface, metric, window, n⟩ ∈
        (limitsOf its roles overrides owner key surface).rules := mem_limitsOf_rules.mpr hn
    have hone := length_filter_key nodup_rules hmem
    simpa [Bool.and_assoc] using hone
  ownerCaps cap h hkind := by
    obtain ⟨hnil, ⟨-, hid⟩ | ⟨hkey, -⟩⟩ := caps_cases h
    · exact ⟨hnil, hid⟩
    · rw [hkind] at hkey
      cases hkey
  ownerCap _ _ := mem_limitsOf_caps
  ownerCapNamed period h := by
    obtain ⟨n, hn⟩ := exists_decided (l := budgetEntries roles) (k := (surface, period))
      (Set.ext fun _ => mem_budgetEntries.symm) h
    have hmem : ⟨0, .user, owner, period, n⟩ ∈
        (limitsOf its roles overrides owner key surface).caps := mem_limitsOf_caps.mpr hn
    have hone := length_filter_key nodup_caps hmem
    simpa using hone
  keyRules := filter_keyRules
  keyCaps := filter_keyCaps
  counters := by
    have hslots : ((limitsOf its roles overrides owner key surface).rules.map ruleSlotOf).Nodup :=
      nodup_rules
    rw [limitsOf, forRequest_owner]
    rw [List.Nodup, List.pairwise_map] at hslots ⊢
    refine hslots.imp_of_mem fun {r r'} hr hr' hne heq => hne (slot_of_counterKey ?_ ?_ heq)
    · exact (rules_cases hr).1.trans (rules_cases hr').1.symm
    · exact subjectId_eq (rules_cases hr).2 (rules_cases hr').2
  capCounters := by
    have hslots : ((limitsOf its roles overrides owner key surface).caps.map capSlotOf).Nodup :=
      nodup_caps
    rw [List.Nodup, List.pairwise_map] at hslots ⊢
    refine hslots.imp fun hne heq => hne ?_
    rw [Prod.mk.injEq, Prod.mk.injEq] at heq
    exact Prod.ext heq.1 heq.2.2

/-! ## The order of roles and rows -/

/-- The same rows in another order. -/
def SubjectRows.Perm (rows rows' : SubjectRows) : Prop :=
  rows.rules.Perm rows'.rules ∧ rows.caps.Perm rows'.caps

theorem roleMaxima_perm (h : roles.Perm roles') (slot : RateMetric × Int) :
    roleMaxima roles surface slot = roleMaxima roles' surface slot := by
  unfold roleMaxima
  simp only [h.mem_iff]

theorem roleCaps_perm (h : roles.Perm roles') (period : BudgetPeriod) :
    roleCaps roles surface period = roleCaps roles' surface period := by
  unfold roleCaps
  simp only [h.mem_iff]

theorem overrideMaxima_perm (h : overrides.Perm overrides') (slot : RateMetric × Int) :
    overrideMaxima overrides surface slot = overrideMaxima overrides' surface slot := by
  unfold overrideMaxima
  simp only [h.1.mem_iff]

theorem overrideCaps_perm (h : overrides.Perm overrides') (period : BudgetPeriod) :
    overrideCaps overrides period = overrideCaps overrides' period := by
  unfold overrideCaps
  simp only [h.2.mem_iff]

/-- Roles and rows in another order, and other hash maps, make no other limits. -/
theorem mem_limitsOf_perm (its its' : Iterations) (owner : Uuid) (surface : LimitSurface)
    {key' : Option (Uuid × SubjectRows)} (hroles : roles.Perm roles')
    (hoverrides : overrides.Perm overrides')
    (hkey : Option.Rel (fun k k' => k.1 = k'.1 ∧ k.2.Perm k'.2) key key') :
    (∀ rule ∈ (limitsOf its roles overrides owner key surface).rules,
        rule ∈ (limitsOf its' roles' overrides' owner key' surface).rules) ∧
      ∀ cap ∈ (limitsOf its roles overrides owner key surface).caps,
        cap ∈ (limitsOf its' roles' overrides' owner key' surface).caps := by
  constructor
  · intro rule h
    obtain ⟨hsurface, ⟨hkind, hid⟩ | ⟨hkind, -⟩⟩ := rules_cases h
    · obtain ⟨kind, id, on, metric, window, n⟩ := rule
      obtain rfl : kind = .user := hkind
      obtain rfl : id = owner := hid
      obtain rfl : on = surface := hsurface
      rw [mem_limitsOf_rules] at h ⊢
      rwa [← roleMaxima_perm hroles, ← overrideMaxima_perm hoverrides]
    · refine List.mem_of_mem_filter (p := (·.subjectKind = .apiKeyLineage)) ?_
      have hmem : rule ∈ (limitsOf its roles overrides owner key surface).rules.filter
          (·.subjectKind = .apiKeyLineage) := List.mem_filter.mpr ⟨h, decide_eq_true hkind⟩
      rw [filter_keyRules] at hmem ⊢
      cases hkey with
      | none => exact hmem
      | some hrows =>
        rename_i k k'
        obtain ⟨hid, hrules, -⟩ := hrows
        rw [Option.toList_some, List.flatMap_singleton] at hmem ⊢
        rw [← hid]
        exact ((hrules.filter _).map _).mem_iff.mp hmem
  · intro cap h
    obtain ⟨hnil, ⟨hkind, hid⟩ | ⟨hkind, -⟩⟩ := caps_cases h
    · obtain ⟨id', kind, id, period, n⟩ := cap
      obtain rfl : id' = 0 := hnil
      obtain rfl : kind = .user := hkind
      obtain rfl : id = owner := hid
      rw [mem_limitsOf_caps] at h ⊢
      rwa [← roleCaps_perm hroles, ← overrideCaps_perm hoverrides]
    · refine List.mem_of_mem_filter (p := (·.subjectKind = .apiKeyLineage)) ?_
      have hmem : cap ∈ (limitsOf its roles overrides owner key surface).caps.filter
          (·.subjectKind = .apiKeyLineage) := List.mem_filter.mpr ⟨h, decide_eq_true hkind⟩
      rw [filter_keyCaps] at hmem ⊢
      cases hkey with
      | none => exact hmem
      | some hrows =>
        rename_i k k'
        obtain ⟨hid, -, hcaps⟩ := hrows
        rw [Option.toList_some, List.flatMap_singleton] at hmem ⊢
        rw [← hid]
        exact ((hcaps.filter _).map _).mem_iff.mp hmem

end Effective

/--
Whatever the hash maps do, the limits of a request are the intended ones; and the order in which
roles and rows come does not matter.
-/
theorem effective_limits (roles : List SurfaceConstraints) (overrides : SubjectRows)
    (owner : Uuid) (key : Option (Uuid × SubjectRows)) (surface : LimitSurface) :
    (∀ its, Effective roles overrides owner key surface
        (limitsOf its roles overrides owner key surface)) ∧
      ∀ its its' roles' overrides' key', roles.Perm roles' → overrides.Perm overrides' →
        Option.Rel (fun k k' => k.1 = k'.1 ∧ k.2.Perm k'.2) key key' →
          (∀ rule, rule ∈ (limitsOf its roles overrides owner key surface).rules ↔
              rule ∈ (limitsOf its' roles' overrides' owner key' surface).rules) ∧
            ∀ cap, cap ∈ (limitsOf its roles overrides owner key surface).caps ↔
              cap ∈ (limitsOf its' roles' overrides' owner key' surface).caps := by
  refine ⟨fun its => limitsOf_effective,
    fun its its' roles' overrides' key' hroles hrows hkey => ?_⟩
  have hkey' : Option.Rel (fun k k' => k.1 = k'.1 ∧ k.2.Perm k'.2) key' key := by
    cases hkey with
    | none => exact .none
    | some h => exact .some ⟨h.1.symm, h.2.1.symm, h.2.2.symm⟩
  obtain ⟨hrules, hcaps⟩ := mem_limitsOf_perm its its' owner surface hroles hrows hkey
  obtain ⟨hrules', hcaps'⟩ := mem_limitsOf_perm its' its owner surface hroles.symm
    ⟨hrows.1.symm, hrows.2.symm⟩ hkey'
  exact ⟨fun rule => ⟨hrules rule, hrules' rule⟩, fun cap => ⟨hcaps cap, hcaps' cap⟩⟩

/-! ## Two roles, an override and a key -/

def inOrder : Iterations := ⟨⟨id, fun l => .refl l⟩, ⟨id, fun l => .refl l⟩⟩

def backwards : Iterations := ⟨⟨List.reverse, List.reverse_perm⟩, ⟨List.reverse, List.reverse_perm⟩⟩

def developer : SurfaceConstraints :=
  ⟨some ⟨[⟨.requests, 60, 100, true⟩, ⟨.tokens, 3600, 5000, true⟩], [⟨.daily, 9000, true⟩]⟩, none⟩

def contractor : SurfaceConstraints :=
  ⟨some ⟨[⟨.requests, 60, 40, true⟩, ⟨.tokens, 3600, 0, true⟩], []⟩, none⟩

/-- User 1 has more requests a minute than any role gives. -/
def moreRequests : SubjectRows where
  rules := [⟨7, .user, 1, (.aiGateway, .requests, 60), 500, true, none, none, none⟩]
  caps := []
  rules_nodup := by decide
  caps_nodup := by decide

/-- The key has a limit of its own for the same window. -/
def keyRequests : SubjectRows where
  rules := [⟨8, .apiKeyLineage, 3, (.aiGateway, .requests, 60), 20, true, none, none, none⟩]
  caps := []
  rules_nodup := by decide
  caps_nodup := by decide

theorem effective_limits_developer :
    limitsOf inOrder [developer, contractor] moreRequests 1 (some (3, keyRequests)) .aiGateway =
        ⟨1, some 3,
          [⟨.user, 1, .aiGateway, .tokens, 3600, 5000⟩, ⟨.user, 1, .aiGateway, .requests, 60, 500⟩,
            ⟨.apiKeyLineage, 3, .aiGateway, .requests, 60, 20⟩],
          [⟨0, .user, 1, .daily, 9000⟩]⟩ ∧
      Effective [developer, contractor] moreRequests 1 (some (3, keyRequests)) .aiGateway
        (limitsOf inOrder [developer, contractor] moreRequests 1 (some (3, keyRequests))
          .aiGateway) ∧
      ∀ rule,
        rule ∈ (limitsOf inOrder [developer, contractor] moreRequests 1 (some (3, keyRequests))
            .aiGateway).rules ↔
          rule ∈ (limitsOf backwards [contractor, developer] moreRequests 1 (some (3, keyRequests))
            .aiGateway).rules := by
  obtain ⟨heffective, horder⟩ :=
    effective_limits [developer, contractor] moreRequests 1 (some (3, keyRequests)) .aiGateway
  refine ⟨by decide, heffective inOrder, ?_⟩
  exact (horder inOrder backwards [contractor, developer] moreRequests (some (3, keyRequests))
    (.swap contractor developer []) ⟨.refl _, .refl _⟩ (.some ⟨rfl, .refl _, .refl _⟩)).1

end ThinkWatch.Gateway
