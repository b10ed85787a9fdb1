import ThinkWatch.Gateway.AnsweringModel
import ThinkWatch.Gateway.RouteCaps
import ThinkWatch.Limits.Budget
import ThinkWatch.Limits.SlidingWindow

/-!
# Before a call

`run_preflight_stages` (`crates/gateway/src/proxy/pipeline.rs`) with its stages `check_budget`,
`check_access` and `check_limits` (`crates/common/src/lifecycle/stages/`), what a request is held to
(`RequestLimits` of `crates/common/src/limits/mod.rs`, `limits_for_ai_gateway`), `sliding::admit` and
the usage counts (`limits/usage.rs`). A Redis command that fails has not run.
-/

namespace ThinkWatch.Gateway

open Lib Limits

/-! ## What a request is held to -/

inductive LimitSurface where
  | aiGateway
  | mcpGateway
deriving DecidableEq, Repr

def LimitSurface.asStr : LimitSurface → String
  | aiGateway => "ai_gateway"
  | mcpGateway => "mcp_gateway"

inductive RateLimitSubject where
  | user
  | apiKeyLineage
deriving DecidableEq, Repr

def RateLimitSubject.asStr : RateLimitSubject → String
  | user => "user"
  | apiKeyLineage => "api_key_lineage"

structure SurfaceRule where
  metric : RateMetric
  windowSecs : Int
  maxCount : Int
  enabled : Bool
deriving DecidableEq, Repr

structure SurfaceBudget where
  period : BudgetPeriod
  limitTokens : Int
  enabled : Bool
deriving DecidableEq, Repr

structure SurfaceBlock where
  rules : List SurfaceRule
  budgets : List SurfaceBudget
deriving DecidableEq, Repr

structure SurfaceConstraints where
  aiGateway : Option SurfaceBlock
  mcpGateway : Option SurfaceBlock
deriving DecidableEq, Repr

def SurfaceConstraints.block (c : SurfaceConstraints) : LimitSurface → Option SurfaceBlock
  | .aiGateway => c.aiGateway
  | .mcpGateway => c.mcpGateway

structure RateLimitRule where
  subjectKind : RateLimitSubject
  subjectId : Uuid
  surface : LimitSurface
  metric : RateMetric
  windowSecs : Int
  maxCount : Int
deriving DecidableEq, Repr

structure RequestLimits where
  owner : Uuid
  keyLineage : Option Uuid
  rules : List RateLimitRule
  caps : List BudgetCap
deriving DecidableEq, Repr

namespace RequestLimits

/-- `RequestLimits::default`, with the nil id. -/
def default : RequestLimits := ⟨0, none, [], []⟩

def budgetKind : RateLimitSubject → BudgetSubject
  | .user => .user
  | .apiKeyLineage => .apiKeyLineage

def blockRules (surface : LimitSurface) (subjectKind : RateLimitSubject) (subjectId : Uuid)
    (block : SurfaceBlock) : List RateLimitRule :=
  (block.rules.filter SurfaceRule.enabled).map fun r =>
    ⟨subjectKind, subjectId, surface, r.metric, r.windowSecs, r.maxCount⟩

def blockCaps (subjectKind : RateLimitSubject) (subjectId : Uuid) (block : SurfaceBlock) :
    List BudgetCap :=
  (block.budgets.filter SurfaceBudget.enabled).map fun b =>
    ⟨0, budgetKind subjectKind, subjectId, b.period, b.limitTokens⟩

def add (out : RequestLimits) (surface : LimitSurface) (subjectKind : RateLimitSubject)
    (subjectId : Uuid) (constraints : SurfaceConstraints) : RequestLimits :=
  match constraints.block surface with
  | none => out
  | some block =>
    { out with
      rules := out.rules ++ blockRules surface subjectKind subjectId block
      caps := out.caps ++ blockCaps subjectKind subjectId block }

def forRequest (surface : LimitSurface) (owner : Uuid) (user : SurfaceConstraints)
    (key : Option (Uuid × SurfaceConstraints)) : RequestLimits :=
  let out : RequestLimits := ⟨owner, key.map Prod.fst, [], []⟩
  let out := out.add surface .user owner user
  match key with
  | some (lineage, constraints) => out.add surface .apiKeyLineage lineage constraints
  | none => out

end RequestLimits

/-- What the stages read of `GatewayRequestIdentity`. -/
structure GatewayRequestIdentity where
  userId : Option String
  apiKeyLineageId : Option String
  allowedModels : Option (List String)
  surfaceConstraints : SurfaceConstraints
  keyConstraints : SurfaceConstraints
deriving DecidableEq, Repr

/-- `parse` is `Uuid::parse_str`. -/
def limitsForAiGateway (parse : String → Option Uuid) (identity : GatewayRequestIdentity) :
    RequestLimits :=
  match identity.userId.bind parse with
  | none => .default
  | some userId =>
    .forRequest .aiGateway userId identity.surfaceConstraints
      ((identity.apiKeyLineageId.bind parse).map fun lineage => (lineage, identity.keyConstraints))

/-! ## `sliding::admit` -/

namespace Sliding

/-- The Redis Cluster hash tag every counter of the owner's requests carries. -/
def hashTag (owner : Uuid) : String := "\x7buser:" ++ toString owner ++ "\x7d"

def counterKey (owner : Uuid) (rule : RateLimitRule) : String :=
  "ratelimit:" ++ hashTag owner ++ ":" ++ rule.surface.asStr ++ ":" ++
    (rule.subjectKind.asStr ++ ":" ++ (toString rule.subjectId ++ ":" ++
      (rule.metric.asStr ++ ":" ++ toString rule.windowSecs)))

def charge : RateMetric → Int
  | .requests => 1
  | .tokens => 0

def counter (owner : Uuid) (rule : RateLimitRule) : Counter :=
  ⟨counterKey owner rule, bucketSecs rule.windowSecs, rule.maxCount, charge rule.metric⟩

def windowLabel (secs : Int) : String :=
  if secs = 60 then "1m" else if secs = 300 then "5m" else if secs = 3600 then "1h"
  else if secs = 18000 then "5h" else if secs = 86400 then "1d" else if secs = 604800 then "1w"
  else toString secs ++ "s"

def rateLabel (rule : RateLimitRule) : String :=
  rule.subjectKind.asStr ++ ":" ++ rule.metric.asStr ++ "/" ++ windowLabel rule.windowSecs

/-- `admit_at`, with Redis answering or not; an error comes out only when failing closed. -/
def admitAt (s : Redis) (answers : Bool) (rules : List RateLimitRule) (owner : Uuid) (nowMs : Int)
    (failOpen : Bool) : Redis × Option CheckOutcome :=
  let counters := rules.map (counter owner)
  if counters.isEmpty then (s, some .open)
  else if answers then
    let r := admitCountersAt s counters nowMs
    (r.1, some r.2)
  else if failOpen then (s, some .open)
  else (s, none)

end Sliding

/-! ## Usage counts -/

structure UsageKey where
  owner : Uuid
  kind : String
  id : Uuid
  period : String
  bucket : BucketId
deriving DecidableEq, Repr

/-- The two fields of a usage hash; an absent one reads as zero. -/
structure UsageHash where
  requests : Int
  tokens : Int
deriving DecidableEq, Repr

abbrev UsageStore := Store UsageKey UsageHash

namespace Usage

def dayTtlSecs : Int := 2 * 86400

def monthTtlSecs : Int := 2 * 31 * 86400

def key (owner : Uuid) (kind : String) (id : Uuid) (period : String) (now : Int) : UsageKey :=
  ⟨owner, kind, id, period, bucketId period now⟩

/-- One round of `LUA_ADD` for the field `requests`. -/
def addRequests (t amount ttlSecs : Int) (s : UsageStore) (k : UsageKey) : UsageStore :=
  let h := (s.get t k).getD ⟨0, 0⟩
  s.setEx t k { h with requests := h.requests + amount } (ttlSecs * 1000)

def recordRequest (s : UsageStore) (owner lineage : Uuid) (now : Int) : UsageStore :=
  let add := fun s kind id =>
    addRequests now 1 monthTtlSecs
      (addRequests now 1 dayTtlSecs s (key owner kind id "daily" now))
      (key owner kind id "monthly" now)
  add (add s "api_key_lineage" lineage) "user" owner

end Usage

/-! ## The stages -/

structure RedisState where
  counters : Redis
  budgets : BudgetStore
  usage : UsageStore

/-- The setting, what Redis answers, and the clock at each reading of it. -/
structure Env where
  failClosed : Bool
  getAnswers : Nat → Bool
  admitAnswers : Bool
  usageAnswers : Bool
  readAt : Int
  checkAt : Int
  admitAt : Int
  countAt : Int

def budgetExhausted (label : String) (retryAfterSecs : Int) : GatewayError :=
  .localRateLimited label (max 1 (min (2 ^ 32 - 1) retryAfterSecs.toNat)) false

def budgetLabel (cap : BudgetCap) : String :=
  cap.subjectKind.asStr ++ ":budget/" ++ cap.period.asStr

/-- `current_spend`: the first read that fails ends it. -/
def currentSpend (s : BudgetStore) (env : Env) : Nat → List BudgetCap → Option (List CapStatus)
  | _, [] => some []
  | i, cap :: caps =>
    if env.getAnswers i then
      (currentSpend s env (i + 1) caps).map (capStatus cap (spend s cap env.readAt) :: ·)
    else none

/-- `Iterator::max_by_key`: of equal ones the last. -/
def maxByKey {α : Type*} (key : α → Int) (l : List α) : Option α :=
  l.foldl (fun best x =>
    match best with
    | some b => if key b ≤ key x then some x else some b
    | none => some x) none

/-- The caps that are spent, with the seconds until their periods end. -/
def spentCaps (now : Int) (caps : List BudgetCap) (statuses : List CapStatus) :
    List (BudgetCap × Int) :=
  ((caps.zip statuses).filter fun p => p.2.limit ≤ p.2.current).map fun p =>
    (p.1, secsUntilPeriodEnd p.1.period now)

def checkBudget (s : BudgetStore) (env : Env) (caps : List BudgetCap) : Except GatewayError Unit :=
  if caps.isEmpty then .ok ()
  else
    match currentSpend s env 0 caps with
    | none => if env.failClosed then .error (limiterUnavailable "budget_unavailable") else .ok ()
    | some statuses =>
      match maxByKey Prod.snd (spentCaps env.checkAt caps statuses) with
      | some (cap, wait) => .error (budgetExhausted (budgetLabel cap) wait)
      | none => .ok ()

def checkLimits (s : Redis) (env : Env) (rules : List RateLimitRule) (owner : Uuid) :
    Redis × Except GatewayError (List Int) :=
  if rules.isEmpty then (s, .ok [])
  else
    match Sliding.admitAt s env.admitAnswers rules owner env.admitAt !env.failClosed with
    | (s, none) => (s, .error (limiterUnavailable "rate_limiter_unavailable"))
    | (s, some outcome) =>
      if outcome.allowed then (s, .ok outcome.currents)
      else
        let label := ((outcome.exceededIndex.bind fun i => rules[i]?).map Sliding.rateLabel).getD
          "rate limit"
        (s, .error (rateLimited label outcome.retryAfterSecs))

/-- The count of a request that has passed; a failure of it is not noticed. -/
def countRequest (s : RedisState) (env : Env) (limits : RequestLimits) : RedisState :=
  match limits.keyLineage with
  | some lineage =>
    if env.usageAnswers then
      { s with usage := Usage.recordRequest s.usage limits.owner lineage env.countAt }
    else s
  | none => s

def runPreflightStages (parse : String → Option Uuid) (env : Env)
    (identity : GatewayRequestIdentity) (model : String) (s : RedisState) :
    RedisState × Except GatewayError RequestLimits :=
  let limits := limitsForAiGateway parse identity
  match checkBudget s.budgets env limits.caps with
  | .error e => (s, .error e)
  | .ok () =>
    match checkAccess identity.allowedModels model with
    | .error said => (s, .error (.transformError said))
    | .ok () =>
      match checkLimits s.counters env limits.rules limits.owner with
      | (counters, .error e) => ({ s with counters := counters }, .error e)
      | (counters, .ok _) => (countRequest { s with counters := counters } env limits, .ok limits)

/-! ## Which budget is named -/

section Budget

variable {s : BudgetStore} {env : Env} {caps : List BudgetCap} {p p' : BudgetPeriod} {now : Int}

/-- The cap's counter, as it is read, has reached the limit. -/
def Spent (s : BudgetStore) (env : Env) (cap : BudgetCap) : Prop :=
  cap.limitTokens ≤ spend s cap env.readAt

theorem currentSpend_eq_some {i : Nat} {statuses : List CapStatus}
    (h : currentSpend s env i caps = some statuses) :
    statuses = caps.map fun cap => capStatus cap (spend s cap env.readAt) := by
  induction caps generalizing i statuses with
  | nil => exact (Option.some.inj h).symm
  | cons cap caps ih =>
    rw [currentSpend] at h
    split at h
    · obtain ⟨rest, hrest, rfl⟩ := Option.map_eq_some_iff.mp h
      rw [ih hrest, List.map_cons]
    · cases h

theorem maxByKey_append {α : Type*} (key : α → Int) (l : List α) (x : α) :
    maxByKey key (l ++ [x]) =
      match maxByKey key l with
      | some b => if key b ≤ key x then some x else some b
      | none => some x := by
  unfold maxByKey
  rw [List.foldl_append]
  rfl

/-- `max_by_key` gives an element with the greatest key. -/
theorem maxByKey_spec {α : Type*} (key : α → Int) (l : List α) :
    match maxByKey key l with
    | some x => x ∈ l ∧ ∀ y ∈ l, key y ≤ key x
    | none => l = [] := by
  induction l using List.reverseRecOn with
  | nil => rfl
  | append_singleton l x ih =>
    rw [maxByKey_append]
    cases hmax : maxByKey key l with
    | none =>
      rw [hmax] at ih
      simp only at ih
      simp [ih]
    | some b =>
      rw [hmax] at ih
      obtain ⟨hb, hle⟩ := ih
      simp only
      by_cases hbx : key b ≤ key x
      · rw [if_pos hbx]
        refine ⟨by simp, fun y hy => ?_⟩
        rcases List.mem_append.mp hy with hy | hy
        · exact (hle y hy).trans hbx
        · rw [List.mem_singleton.mp hy]
      · rw [if_neg hbx]
        refine ⟨List.mem_append_left _ hb, fun y hy => ?_⟩
        rcases List.mem_append.mp hy with hy | hy
        · exact hle y hy
        · rw [List.mem_singleton.mp hy]
          exact Int.le_of_lt (Int.not_le.mp hbx)

/-- The one to wait longer for ends later: periods end at midnights. -/
theorem periodEnd_le_of_secs (h : secsUntilPeriodEnd p now ≤ secsUntilPeriodEnd p' now) :
    periodEnd p now ≤ periodEnd p' now := by
  have hp := (periodEnd_spec p now).1
  have hp' := (periodEnd_spec p' now).1
  unfold secsUntilPeriodEnd retryAfterSecs at h
  unfold periodEnd msPerDay at *
  omega

theorem secsUntilPeriodEnd_bounds (p : BudgetPeriod) (now : Int) :
    1 ≤ secsUntilPeriodEnd p now ∧ secsUntilPeriodEnd p now ≤ 31 * 86400 := by
  obtain ⟨hlt, hle⟩ := periodEnd_spec p now
  have hlen : maxLength p ≤ 31 * 86400 * 1000 := by
    cases p <;> decide
  unfold secsUntilPeriodEnd retryAfterSecs
  omega

/-- What is compared with its limit is what is spent. -/
theorem mem_spentCaps {x : BudgetCap × Int} :
    x ∈ spentCaps now caps (caps.map fun cap => capStatus cap (spend s cap env.readAt)) ↔
      x.1 ∈ caps ∧ Spent s env x.1 ∧ x.2 = secsUntilPeriodEnd x.1.period now := by
  unfold spentCaps
  rw [← List.map_prod_left_eq_zip]
  simp only [List.mem_map, List.mem_filter, decide_eq_true_eq]
  constructor
  · rintro ⟨_, ⟨⟨cap, hcap, rfl⟩, hle⟩, rfl⟩
    exact ⟨hcap, hle, rfl⟩
  · rintro ⟨hcap, hle, hx⟩
    exact ⟨_, ⟨⟨x.1, hcap, rfl⟩, hle⟩, by rw [← hx]⟩

/-- A budget refusal names a spent cap, and of these one whose period ends last. -/
theorem checkBudget_error {e : GatewayError} (h : checkBudget s env caps = .error e) :
    e = limiterUnavailable "budget_unavailable" ∨
      ∃ cap ∈ caps, Spent s env cap ∧
        e = budgetExhausted (budgetLabel cap) (secsUntilPeriodEnd cap.period env.checkAt) ∧
        ∀ c ∈ caps, Spent s env c →
          periodEnd c.period env.checkAt ≤ periodEnd cap.period env.checkAt := by
  unfold checkBudget at h
  split at h
  · cases h
  · split at h
    · split at h
      · exact Or.inl (Except.error.inj h).symm
      · cases h
    · next statuses hstatuses =>
      rw [currentSpend_eq_some hstatuses] at h
      have hmax := maxByKey_spec Prod.snd (spentCaps env.checkAt caps
        (caps.map fun cap => capStatus cap (spend s cap env.readAt)))
      split at h
      · next cap wait hfound =>
        rw [hfound] at hmax
        obtain ⟨hmem, hle⟩ := hmax
        obtain ⟨hcap, hcapSpent, hwait⟩ := mem_spentCaps.mp hmem
        simp only at hcap hcapSpent hwait
        rw [hwait] at h hle
        refine Or.inr ⟨cap, hcap, hcapSpent, (Except.error.inj h).symm, fun c hc hcSpent => ?_⟩
        exact periodEnd_le_of_secs (hle (c, _) (mem_spentCaps.mpr ⟨hc, hcSpent, rfl⟩))
      · cases h

end Budget

/-! ## The counters of a request -/

def allowedWindowSecs : List Int := [60, 300, 3600, 18000, 86400, 604800]

/--
What the limits are merged and stored as: windows of the allowed lengths, and no two rules on one
metric and window.
-/
structure SurfaceBlock.WellFormed (b : SurfaceBlock) : Prop where
  windows : ∀ r ∈ b.rules, r.windowSecs ∈ allowedWindowSecs
  nodup : (b.rules.map fun r => (r.metric, r.windowSecs)).Nodup

def SurfaceConstraints.WellFormed (c : SurfaceConstraints) : Prop :=
  ∀ surface b, c.block surface = some b → b.WellFormed

namespace Sliding

theorem append_ne_of_head {a b x y : String} {c d : Char} (ha : a.toList.head? = some c)
    (hb : b.toList.head? = some d) (hne : c ≠ d) : a ++ x ≠ b ++ y := by
  intro heq
  have hhead := congrArg (fun s : String => s.toList.head?) heq
  simp only [String.toList_append, List.head?_append, ha, hb, Option.some_or,
    Option.some.injEq] at hhead
  exact hne hhead

theorem metric_ne (x y : String) : RateMetric.requests.asStr ++ x ≠ RateMetric.tokens.asStr ++ y :=
  append_ne_of_head (c := 'r') (d := 't') (by decide) (by decide) (by decide)

theorem subject_ne (x y : String) :
    RateLimitSubject.user.asStr ++ x ≠ RateLimitSubject.apiKeyLineage.asStr ++ y :=
  append_ne_of_head (c := 'u') (d := 'a') (by decide) (by decide) (by decide)

theorem toString_window_inj : ∀ w ∈ allowedWindowSecs, ∀ w' ∈ allowedWindowSecs,
    toString w = toString w' → w = w' := by
  decide +kernel

variable {owner sid sid' : Uuid} {surface : LimitSurface} {kind : RateLimitSubject}
  {m m' : RateMetric} {w w' n n' : Int}

/-- A counter's key says its metric and window. -/
theorem counterKey_inj (hw : w ∈ allowedWindowSecs) (hw' : w' ∈ allowedWindowSecs)
    (h : counterKey owner ⟨kind, sid, surface, m, w, n⟩ =
      counterKey owner ⟨kind, sid, surface, m', w', n'⟩) : m = m' ∧ w = w' := by
  unfold counterKey at h
  rw [String.append_right_inj, String.append_right_inj, String.append_right_inj] at h
  cases m with
  | requests =>
    cases m' with
    | requests =>
      rw [String.append_right_inj] at h
      exact ⟨rfl, toString_window_inj w hw w' hw' h⟩
    | tokens =>
      rw [String.append_assoc, String.append_assoc] at h
      exact absurd h (metric_ne _ _)
  | tokens =>
    cases m' with
    | requests =>
      rw [String.append_assoc, String.append_assoc] at h
      exact absurd h.symm (metric_ne _ _)
    | tokens =>
      rw [String.append_right_inj] at h
      exact ⟨rfl, toString_window_inj w hw w' hw' h⟩

/-- A user's counters are not a key's. -/
theorem counterKey_kind_ne :
    counterKey owner ⟨.user, sid, surface, m, w, n⟩ ≠
      counterKey owner ⟨.apiKeyLineage, sid', surface, m', w', n'⟩ := by
  intro h
  unfold counterKey at h
  simp only [String.append_assoc, String.append_right_inj] at h
  exact subject_ne _ _ h

/-- The keys of one block's rules. -/
theorem blockRules_nodup {b : SurfaceBlock} (hb : b.WellFormed) :
    ((RequestLimits.blockRules surface kind sid b).map (counterKey owner)).Nodup := by
  unfold RequestLimits.blockRules
  rw [List.map_map, List.Nodup, List.pairwise_map]
  have hnodup := hb.nodup
  rw [List.Nodup, List.pairwise_map] at hnodup
  refine (hnodup.sublist List.filter_sublist).imp_of_mem fun {r r'} hr hr' hne heq => ?_
  obtain ⟨hm, hw⟩ := counterKey_inj (hb.windows r (List.mem_of_mem_filter hr))
    (hb.windows r' (List.mem_of_mem_filter hr')) heq
  exact hne (Prod.ext hm hw)

end Sliding

theorem forRequest_rules (surface : LimitSurface) (owner : Uuid) (user : SurfaceConstraints)
    (key : Option (Uuid × SurfaceConstraints)) :
    (RequestLimits.forRequest surface owner user key).rules =
      ((user.block surface).map (RequestLimits.blockRules surface .user owner)).getD [] ++
        (key.bind fun k => (k.2.block surface).map
          (RequestLimits.blockRules surface .apiKeyLineage k.1)).getD [] := by
  cases key with
  | none =>
    simp only [RequestLimits.forRequest, RequestLimits.add, Option.bind_none, Option.getD_none,
      List.append_nil]
    cases user.block surface <;> rfl
  | some k =>
    simp only [RequestLimits.forRequest, RequestLimits.add, Option.bind_some]
    cases user.block surface <;> cases k.2.block surface <;> simp

@[simp] theorem add_owner (out : RequestLimits) (surface : LimitSurface) (kind : RateLimitSubject)
    (sid : Uuid) (c : SurfaceConstraints) : (out.add surface kind sid c).owner = out.owner := by
  unfold RequestLimits.add
  split <;> rfl

theorem forRequest_owner (surface : LimitSurface) (owner : Uuid) (user : SurfaceConstraints)
    (key : Option (Uuid × SurfaceConstraints)) :
    (RequestLimits.forRequest surface owner user key).owner = owner := by
  cases key <;> simp [RequestLimits.forRequest]

/-- The rules of one subject. -/
theorem subject_rules {c : SurfaceConstraints} (hc : c.WellFormed) (surface : LimitSurface)
    (kind : RateLimitSubject) (sid owner : Uuid) :
    ((((c.block surface).map (RequestLimits.blockRules surface kind sid)).getD []).map
      (Sliding.counterKey owner)).Nodup ∧
    ∀ r ∈ ((c.block surface).map (RequestLimits.blockRules surface kind sid)).getD [],
      r.surface = surface ∧ r.subjectKind = kind ∧ r.windowSecs ∈ allowedWindowSecs := by
  cases hb : c.block surface with
  | none => exact ⟨List.nodup_nil, nofun⟩
  | some b =>
    have hwf := hc surface b hb
    refine ⟨Sliding.blockRules_nodup hwf, fun r hr => ?_⟩
    obtain ⟨x, hx, rfl⟩ := List.mem_map.mp hr
    exact ⟨rfl, rfl, hwf.windows x (List.mem_of_mem_filter hx)⟩

/-- No two rules of a request count on one counter, and all windows have the allowed lengths. -/
theorem forRequest_wellFormed {surface : LimitSurface} {owner : Uuid} {user : SurfaceConstraints}
    {key : Option (Uuid × SurfaceConstraints)} (huser : user.WellFormed)
    (hkey : ∀ k, key = some k → k.2.WellFormed) :
    ((RequestLimits.forRequest surface owner user key).rules.map
      (Sliding.counterKey owner)).Nodup ∧
    ∀ r ∈ (RequestLimits.forRequest surface owner user key).rules,
      r.windowSecs ∈ allowedWindowSecs := by
  obtain ⟨hnodup, hrules⟩ := subject_rules huser surface .user owner owner
  rw [forRequest_rules]
  cases key with
  | none =>
    simp only [Option.bind_none, Option.getD_none, List.append_nil]
    exact ⟨hnodup, fun r hr => (hrules r hr).2.2⟩
  | some k =>
    obtain ⟨hnodup', hrules'⟩ := subject_rules (hkey k rfl) surface .apiKeyLineage k.1 owner
    rw [Option.bind_some, List.map_append]
    refine ⟨List.nodup_append.mpr ⟨hnodup, hnodup', ?_⟩, fun r hr => ?_⟩
    · intro x hx y hy hxy
      obtain ⟨⟨kind, sid, surf, m, w, n⟩, hr, rfl⟩ := List.mem_map.mp hx
      obtain ⟨⟨kind', sid', surf', m', w', n'⟩, hr', rfl⟩ := List.mem_map.mp hy
      obtain ⟨rfl, rfl, -⟩ := hrules _ hr
      obtain ⟨rfl, rfl, -⟩ := hrules' _ hr'
      exact Sliding.counterKey_kind_ne hxy
    · rcases List.mem_append.mp hr with hr | hr
      · exact (hrules r hr).2.2
      · exact (hrules' r hr).2.2

/-- The counters of a request's rules. -/
def RequestLimits.counters (l : RequestLimits) : List Counter := l.rules.map (Sliding.counter l.owner)

structure RequestLimits.WellFormed (l : RequestLimits) : Prop where
  nodup : (l.counters.map Counter.key).Nodup
  bucketSecs_pos : ∀ c ∈ l.counters, 1 ≤ c.bucketSecs

theorem limits_wellFormed (parse : String → Option Uuid) {identity : GatewayRequestIdentity}
    (huser : identity.surfaceConstraints.WellFormed) (hkey : identity.keyConstraints.WellFormed) :
    (limitsForAiGateway parse identity).WellFormed := by
  have hall : ((limitsForAiGateway parse identity).rules.map
      (Sliding.counterKey (limitsForAiGateway parse identity).owner)).Nodup ∧
      ∀ r ∈ (limitsForAiGateway parse identity).rules, r.windowSecs ∈ allowedWindowSecs := by
    unfold limitsForAiGateway
    split
    · exact ⟨List.nodup_nil, nofun⟩
    · rw [forRequest_owner]
      refine forRequest_wellFormed huser fun k hk => ?_
      obtain ⟨lineage, -, rfl⟩ := Option.map_eq_some_iff.mp hk
      exact hkey
  obtain ⟨hnodup, hwindows⟩ := hall
  have hpos : ∀ w ∈ allowedWindowSecs, 1 ≤ bucketSecs w := by decide
  refine ⟨?_, fun c hc => ?_⟩
  · unfold RequestLimits.counters
    rw [List.map_map]
    exact hnodup
  · obtain ⟨r, hr, rfl⟩ := List.mem_map.mp hc
    exact hpos _ (hwindows r hr)

/-! ## What the stages do to the counters -/

section Counters

variable {s s' : Redis} {t t' : Int} {cs : List Counter} {c : Counter} {env : Env}
  {rules : List RateLimitRule} {owner : Uuid}

/-- The first loop of the script only forgets what no window reaches any more. -/
theorem liveSum_foldl_checkRule (hw : 1 ≤ c.bucketSecs) (ht : t ≤ t')
    (hsame : ∀ d ∈ cs, d.key = c.key → d.bucketSecs = c.bucketSecs) (acc : Pass) :
    liveSum (cs.foldl (checkRule t) acc).store t' c = liveSum acc.store t' c := by
  induction cs generalizing acc with
  | nil => rfl
  | cons d cs ih =>
    rw [List.foldl_cons, ih (fun e he => hsame e (List.mem_cons_of_mem _ he))]
    unfold liveSum
    rw [hgetall_eq, hgetall_eq]
    by_cases hkey : d.key = c.key
    · have hself : (checkRule t acc d).store d.key = pruneEntry t (bucketAt d.bucketSecs t - 59)
          (bucketAt d.bucketSecs t) (acc.store d.key) := (checkRule_acts t).self acc d
      rw [hkey, hsame d List.mem_cons_self hkey] at hself
      have hbucket := bucketAt_mono hw ht
      rw [hself, sumIn_pruneEntry _ _ _ _ _ (by omega)]
    · have hother : (checkRule t acc d).store c.key = acc.store c.key :=
        (checkRule_acts t).other acc d c.key (Ne.symm hkey)
      rw [hother]

theorem liveSum_refused (hw : 1 ≤ c.bucketSecs) (ht : t ≤ t')
    (hsame : ∀ d ∈ cs, d.key = c.key → d.bucketSecs = c.bucketSecs)
    (h : ¬ allowed (luaAdmit s t cs).2) :
    liveSum (luaAdmit s t cs).1 t' c = liveSum s t' c := by
  rw [luaAdmit_refused_store h]
  exact liveSum_foldl_checkRule hw ht hsame _

theorem admitAt_of_rules (s : Redis) (answers : Bool) (hne : rules ≠ []) (failOpen : Bool) :
    Sliding.admitAt s answers rules owner t failOpen =
      if answers then
        ((luaAdmit s t (rules.map (Sliding.counter owner))).1,
          some (parseAdmitReply (luaAdmit s t (rules.map (Sliding.counter owner))).2))
      else (s, if failOpen then some .open else none) := by
  have hempty : (rules.map (Sliding.counter owner)).isEmpty = false := by simpa using hne
  unfold Sliding.admitAt admitCountersAt
  simp only [hempty, Bool.false_eq_true, if_false]
  cases answers with
  | true => rfl
  | false => cases failOpen <;> rfl

/-- A refusal by the limits has charged nothing. -/
theorem checkLimits_error {e : GatewayError} (h : checkLimits s env rules owner = (s', .error e)) :
    (∃ label secs, e = .localRateLimited label secs true) ∧
      (s' = s ∨ s' = (luaAdmit s env.admitAt (rules.map (Sliding.counter owner))).1 ∧
        ¬ allowed (luaAdmit s env.admitAt (rules.map (Sliding.counter owner))).2) := by
  unfold checkLimits at h
  split at h
  · cases h
  · next hne =>
    rw [admitAt_of_rules s _ (by simpa using hne)] at h
    cases hanswers : env.admitAnswers with
    | false =>
      rw [hanswers] at h
      cases hclosed : env.failClosed with
      | false =>
        rw [hclosed] at h
        cases h
      | true =>
        rw [hclosed] at h
        obtain ⟨rfl, he⟩ := Prod.mk.inj h
        exact ⟨⟨_, _, (Except.error.inj he).symm⟩, Or.inl rfl⟩
    | true =>
      rw [hanswers] at h
      simp only [if_true] at h
      split at h
      · cases h
      · next hrefused =>
        obtain ⟨rfl, he⟩ := Prod.mk.inj h
        rw [allowed_parseAdmitReply] at hrefused
        exact ⟨⟨_, _, (Except.error.inj he).symm⟩, Or.inr ⟨rfl, hrefused⟩⟩

/-- A request let through by Redis has been charged. -/
theorem checkLimits_ok {currents : List Int} (h : checkLimits s env rules owner = (s', .ok currents))
    (hanswers : env.admitAnswers = true) (hne : rules ≠ []) :
    s' = (luaAdmit s env.admitAt (rules.map (Sliding.counter owner))).1 ∧
      allowed (luaAdmit s env.admitAt (rules.map (Sliding.counter owner))).2 := by
  unfold checkLimits at h
  rw [if_neg (by simpa using hne), admitAt_of_rules s _ hne, hanswers] at h
  simp only [if_true] at h
  split at h
  · next hallowed =>
    rw [allowed_parseAdmitReply] at hallowed
    exact ⟨(Prod.mk.inj h).1.symm, hallowed⟩
  · cases h

end Counters

/-! ## A refused request uses up nothing -/

section

variable {parse : String → Option Uuid} {env : Env} {identity : GatewayRequestIdentity}
  {model : String} {s : RedisState}

/-- The three ways to be refused, and what each leaves of the counters. -/
theorem preflight_error {e : GatewayError}
    (h : (runPreflightStages parse env identity model s).2 = .error e) :
    let limits := limitsForAiGateway parse identity
    let s' := (runPreflightStages parse env identity model s).1
    checkBudget s.budgets env limits.caps = .error e ∧ s' = s ∨
      (∃ said, e = .transformError said) ∧ s' = s ∨
      ∃ counters, checkLimits s.counters env limits.rules limits.owner = (counters, .error e) ∧
        s' = { s with counters := counters } := by
  unfold runPreflightStages at h ⊢
  simp only at h ⊢
  split at h
  · next e' hbudget =>
    obtain rfl := Except.error.inj h
    rw [hbudget]
    exact Or.inl ⟨rfl, rfl⟩
  · next hbudget =>
    rw [hbudget]
    split at h
    · next said haccess =>
      exact Or.inr (Or.inl ⟨⟨said, (Except.error.inj h).symm⟩, rfl⟩)
    · next haccess =>
      split at h
      · next counters e' hlimits =>
        obtain rfl := Except.error.inj h
        rw [hlimits]
        exact Or.inr (Or.inr ⟨counters, rfl, rfl⟩)
      · cases h

theorem preflight_ok {l : RequestLimits}
    (h : (runPreflightStages parse env identity model s).2 = .ok l) :
    l = limitsForAiGateway parse identity ∧ ∃ currents,
      checkLimits s.counters env l.rules l.owner =
        ((runPreflightStages parse env identity model s).1.counters, .ok currents) := by
  unfold runPreflightStages at h ⊢
  simp only at h ⊢
  split at h
  · cases h
  · next hbudget =>
    split at h
    · cases h
    · next haccess =>
      split at h
      · cases h
      · next counters currents hlimits =>
        obtain rfl := Except.ok.inj h
        rw [hlimits]
        refine ⟨rfl, currents, ?_⟩
        have hcounters : ∀ s' : RedisState, (countRequest s' env
            (limitsForAiGateway parse identity)).counters = s'.counters := by
          intro s'
          unfold countRequest
          split
          · split <;> rfl
          · rfl
        rw [hcounters]

/--
A refused request leaves every live count as it was, one refused for a budget is told the cap that
frees last and when, and one let through is charged one unit on each of its `requests` rules.
-/
theorem refused_uses_nothing (huser : identity.surfaceConstraints.WellFormed)
    (hkey : identity.keyConstraints.WellFormed) :
    let limits := limitsForAiGateway parse identity
    let r := runPreflightStages parse env identity model s
    (∀ e, r.2 = .error e → r.1.budgets = s.budgets ∧ r.1.usage = s.usage ∧
      ∀ c t, 1 ≤ c.bucketSecs → env.admitAt ≤ t →
        (∀ d ∈ limits.counters, d.key = c.key → d.bucketSecs = c.bucketSecs) →
        liveSum r.1.counters t c = liveSum s.counters t c) ∧
    (∀ label secs, r.2 = .error (.localRateLimited label secs false) →
      ∃ cap ∈ limits.caps, Spent s.budgets env cap ∧ label = budgetLabel cap ∧
        (secs : Int) = secsUntilPeriodEnd cap.period env.checkAt ∧
        ∀ c ∈ limits.caps, Spent s.budgets env c →
          periodEnd c.period env.checkAt ≤ periodEnd cap.period env.checkAt) ∧
    (∀ l, r.2 = .ok l → env.admitAnswers = true → l = limits ∧
      ∀ rule ∈ limits.rules, rule.metric = .requests →
        liveSum r.1.counters env.admitAt (Sliding.counter limits.owner rule) =
          liveSum s.counters env.admitAt (Sliding.counter limits.owner rule) + 1) := by
  intro limits r
  refine ⟨fun e he => ?_, fun label secs he => ?_, fun l hl hanswers => ?_⟩
  · rcases preflight_error he with ⟨-, hs⟩ | ⟨-, hs⟩ | ⟨counters, hlimits, hs⟩
    · rw [hs]
      exact ⟨rfl, rfl, fun _ _ _ _ _ => rfl⟩
    · rw [hs]
      exact ⟨rfl, rfl, fun _ _ _ _ _ => rfl⟩
    · rw [hs]
      refine ⟨rfl, rfl, fun c t hw ht hsame => ?_⟩
      rcases (checkLimits_error hlimits).2 with rfl | ⟨rfl, hrefused⟩
      · rfl
      · exact liveSum_refused hw ht hsame hrefused
  · rcases preflight_error he with ⟨hbudget, -⟩ | ⟨⟨said, hsaid⟩, -⟩ | ⟨counters, hlimits, -⟩
    · rcases checkBudget_error hbudget with hunavailable | ⟨cap, hcap, hspent, hexhausted, hlast⟩
      · cases hunavailable
      · obtain ⟨rfl, hsecs, -⟩ := GatewayError.localRateLimited.inj hexhausted
        refine ⟨cap, hcap, hspent, rfl, ?_, hlast⟩
        have hbounds := secsUntilPeriodEnd_bounds cap.period env.checkAt
        omega
    · cases hsaid
    · obtain ⟨⟨label', secs', hretry⟩, -⟩ := checkLimits_error hlimits
      cases hretry
  · obtain ⟨rfl, currents, hlimits⟩ := preflight_ok hl
    refine ⟨rfl, fun rule hrule hmetric => ?_⟩
    have hwf := limits_wellFormed parse huser hkey
    obtain ⟨hcounters, hallowed⟩ := checkLimits_ok hlimits hanswers (List.ne_nil_of_mem hrule)
    have hmem : Sliding.counter limits.owner rule ∈ limits.counters :=
      List.mem_map_of_mem hrule
    have hcharge : (Sliding.counter limits.owner rule).charge = 1 := by
      simp only [Sliding.counter, hmetric, Sliding.charge]
    have hlive := liveSum_luaAdmit_allowed hwf.nodup hwf.bucketSecs_pos hallowed hmem
      (by rw [hcharge]; exact Int.one_nonneg)
    rw [hcharge] at hlive
    rw [hcounters]
    exact hlive

end

/-- One request a minute, and both caps of ten tokens. -/
def cappedIdentity : GatewayRequestIdentity :=
  ⟨some "u", none, none,
    ⟨some ⟨[⟨.requests, 60, 1, true⟩], [⟨.daily, 10, true⟩, ⟨.monthly, 10, true⟩]⟩, none⟩,
    ⟨none, none⟩⟩

/-- Every budget counter reads ten. -/
def spentState : RedisState := ⟨.empty, fun _ => some ⟨10, none⟩, .empty⟩

/-- With both caps spent, the monthly one is named, and it ends no earlier than the daily one. -/
theorem refused_uses_nothing_monthly :
    let env : Env := ⟨false, fun _ => true, true, true, 0, 0, 0, 0⟩
    let r := runPreflightStages (fun _ => some 7) env cappedIdentity "m" spentState
    r.2 = .error (.localRateLimited "user:budget/monthly" 2678400 false) ∧
      r.1.budgets = spentState.budgets ∧
      ∃ cap ∈ (limitsForAiGateway (fun _ => some 7) cappedIdentity).caps,
        budgetLabel cap = "user:budget/monthly" ∧
        periodEnd .daily 0 ≤ periodEnd cap.period 0 := by
  intro env r
  have hrefused : r.2 = .error (.localRateLimited "user:budget/monthly" 2678400 false) := by
    decide +kernel
  have huser : cappedIdentity.surfaceConstraints.WellFormed := by
    rintro (_ | _) b hb
    · obtain rfl := Option.some.inj hb
      exact ⟨by decide, by decide⟩
    · cases hb
  have hkey : cappedIdentity.keyConstraints.WellFormed := by
    rintro (_ | _) b hb <;> cases hb
  obtain ⟨hnothing, hnamed, -⟩ :=
    @refused_uses_nothing (fun _ => some 7) env cappedIdentity "m" spentState huser hkey
  obtain ⟨cap, hcap, -, hlabel, -, hlast⟩ := hnamed _ _ hrefused
  refine ⟨hrefused, (hnothing _ hrefused).1, cap, hcap, hlabel.symm, ?_⟩
  exact hlast ⟨0, .user, 7, .daily, 10⟩ (by decide) (Int.le_refl 10)

end ThinkWatch.Gateway
