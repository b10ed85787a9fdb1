import Mathlib.Data.Rat.Defs
import ThinkWatch.Lib.ReadThrough
import ThinkWatch.Lib.Run

/-!
# Weights and prices

`WeightCache` of `crates/common/src/limits/weight.rs` and the baseline of `CostTracker` in
`crates/gateway/src/cost_tracker.rs`, on one process: each read of the database or of a cache and
each write of one is a step, and the steps of `get` and `baseline_value` interleave with edits of
the database and with `invalidate_all` and `invalidate_baseline`.

`f64` is a parameter, `Decimal` is the rationals and times are in milliseconds.
-/

namespace ThinkWatch.Gateway

open Lib Lib.ReadThrough

abbrev Decimal := ℚ

/-- What the weights use of `f64`. -/
structure Float64 (F : Type*) where
  /-- `Decimal::to_f64`. -/
  ofDecimal : Decimal → Option F
  one : F
  mul : F → F → F
  cacheReadRatio : F
  cacheWriteRatio : F
  cacheWrite1hRatio : F

/-! ## The database -/

/-- The weights of a row of `models`. -/
structure WeightRow where
  inputWeight : Decimal
  outputWeight : Decimal
  cacheReadWeight : Option Decimal
  cacheWriteWeight : Option Decimal
  cacheWrite1hWeight : Option Decimal
deriving DecidableEq, Repr

structure Database where
  models : String → Option WeightRow
  /-- The two prices per token of the row with id 1. -/
  platformPricing : Option (Decimal × Decimal)

/-! ## Weights -/

structure Weights (F : Type*) where
  input : F
  output : F
  cacheRead : F
  cacheWrite : F
  cacheWrite1h : F
deriving DecidableEq, Repr

variable {F : Type*}

def Weights.resolve (P : Float64 F) (input output : F)
    (cacheRead cacheWrite cacheWrite1h : Option F) : Weights F where
  input := input
  output := output
  cacheRead := cacheRead.getD (P.mul input P.cacheReadRatio)
  cacheWrite := cacheWrite.getD (P.mul input P.cacheWriteRatio)
  cacheWrite1h := cacheWrite1h.getD (P.mul input P.cacheWrite1hRatio)

def Weights.default (P : Float64 F) : Weights F := resolve P P.one P.one none none none

def WeightRow.weights (P : Float64 F) (row : WeightRow) : Weights F :=
  let f := fun d => (P.ofDecimal d).getD P.one
  .resolve P (f row.inputWeight) (f row.outputWeight) (row.cacheReadWeight.map f)
    (row.cacheWriteWeight.map f) (row.cacheWrite1hWeight.map f)

/-- A model without a row has the default weights. -/
def Database.weights (P : Float64 F) (model : String) (db : Database) : Weights F :=
  match db.models model with
  | some row => row.weights P
  | none => .default P

structure CacheEntry (F : Type*) where
  weights : Weights F
  expires : Int
deriving DecidableEq, Repr

abbrev WeightCache (F : Type*) := List (String × CacheEntry F)

namespace WeightCache

def cacheTtl : Int := 300 * 1000

def maxEntries : Nat := 1024

def find (c : WeightCache F) (now : Int) (model : String) : Option (Weights F) :=
  (c.lookup model).bind fun e => if now < e.expires then some e.weights else none

def remove (c : WeightCache F) (model : String) : WeightCache F := c.filter fun p => p.1 ≠ model

/-- The entries as the map iterates over them. -/
abbrev Order (F : Type*) := WeightCache F → List (String × CacheEntry F)

def oldestKey (order : Order F) (c : WeightCache F) : Option String :=
  ((order c).minOn? fun p => p.2.expires).map Prod.fst

/-- At the cap, the entry that expires first is dropped. -/
def bound (order : Order F) (c : WeightCache F) : WeightCache F :=
  if maxEntries ≤ c.length then
    match c.oldestKey order with
    | some k => c.remove k
    | none => c
  else c

def insert (c : WeightCache F) (model : String) (e : CacheEntry F) : WeightCache F :=
  (model, e) :: c.remove model

theorem lookup_remove {c : WeightCache F} {k model : String} {e : CacheEntry F}
    (h : (remove c k).lookup model = some e) : c.lookup model = some e := by
  induction c with
  | nil => exact h
  | cons p c ih =>
    obtain ⟨k', e'⟩ := p
    by_cases hk : k' = k
    · -- the entry that is removed
      have hrest : remove ((k', e') :: c) k = remove c k :=
        List.filter_cons_of_neg (by simp [hk])
      rw [hrest] at h
      by_cases hmodel : model = k
      · exfalso
        rw [List.lookup_eq_some_iff] at h
        obtain ⟨l₁, l₂, hl, -⟩ := h
        have hmem : (model, e) ∈ remove c k := by simp [hl]
        simp [remove, hmodel] at hmem
      · rw [List.lookup_cons, beq_eq_false_iff_ne.mpr fun heq => hmodel (heq.trans hk)]
        exact ih h
    · have hrest : remove ((k', e') :: c) k = (k', e') :: remove c k :=
        List.filter_cons_of_pos (by simp [hk])
      rw [hrest, List.lookup_cons] at h
      rw [List.lookup_cons]
      split at h
      · exact h
      · exact ih h

theorem lookup_bound {order : Order F} {c : WeightCache F} {model : String} {e : CacheEntry F}
    (h : (c.bound order).lookup model = some e) : c.lookup model = some e := by
  unfold bound at h
  split at h
  · split at h
    · exact lookup_remove h
    · exact h
  · exact h

/-- `WeightCache::get` and `invalidate_all`. -/
def design (P : Float64 F) (order : Order F) :
    Design Database String (Weights F) (WeightCache F) where
  empty := []
  find := find
  load := Database.weights P
  fallback := .default P
  store := fun c model w _ now => (c.bound order).insert model ⟨w, now + cacheTtl⟩
  find_empty := fun _ _ => rfl
  find_store := by
    intro c k v readAt now t k' v' h
    obtain ⟨e, hlookup, he⟩ := Option.bind_eq_some_iff.mp h
    rw [insert, List.lookup_cons] at hlookup
    split at hlookup
    · next hk =>
      obtain rfl := Option.some.inj hlookup
      refine Or.inl ⟨eq_of_beq hk, ?_⟩
      split at he
      · exact (Option.some.inj he).symm
      · cases he
    · exact Or.inr (Option.bind_eq_some_iff.mpr ⟨e, lookup_bound (lookup_remove hlookup), he⟩)

end WeightCache

/-! ## The baseline -/

structure Baseline where
  inputPerToken : Decimal
  outputPerToken : Decimal
  expires : Int
deriving DecidableEq, Repr

namespace Baseline

def baselineTtl : Int := 60 * 1000

/-- `fallback_input` and `fallback_output`: 20 and 80 in units of 10⁻⁷. -/
def fallback : Decimal × Decimal := (20 / 10 ^ 7, 80 / 10 ^ 7)

def fresh (prices : Decimal × Decimal) (now : Int) : Baseline :=
  ⟨prices.1, prices.2, now + baselineTtl⟩

end Baseline

/-- No row has the fallback prices. -/
def Database.prices (db : Database) : Decimal × Decimal := db.platformPricing.getD Baseline.fallback

namespace Baseline

def find (b : Option Baseline) (now : Int) : Option (Decimal × Decimal) :=
  b.bind fun b => if now < b.expires then some (b.inputPerToken, b.outputPerToken) else none

/-- `baseline_value` and `invalidate_baseline`. -/
def design : Design Database Unit (Decimal × Decimal) (Option Baseline) where
  empty := none
  find := fun b now _ => find b now
  load := fun _ => Database.prices
  fallback := fallback
  store := fun _ _ prices readAt _ => some (fresh prices readAt)
  find_empty := fun _ _ => rfl
  find_store := by
    intro c k v readAt now t k' v' h
    refine Or.inl ⟨rfl, ?_⟩
    simp only [find, fresh, Option.bind_some] at h
    split at h
    · exact (Option.some.inj h).symm
    · cases h

end Baseline

/-! ## One process -/

structure Prices (F : Type*) where
  db : History Database
  weights : Cache Database String (Weights F) (WeightCache F)
  baseline : Cache Database Unit (Decimal × Decimal) (Option Baseline)

namespace Prices

inductive Action where
  | edit (db : Database)
  | weights (a : ReadThrough.Action String)
  | baseline (a : ReadThrough.Action Unit)

variable (P : Float64 F) (order : WeightCache.Order F)

def start (db : Database) : Prices F where
  db := ⟨[], db⟩
  weights := .start (WeightCache.design P order) ⟨[], db⟩
  baseline := .start Baseline.design ⟨[], db⟩

def step (s : Prices F) : Action → Option (Prices F)
  | .edit db => some { s with db := s.db.commit db }
  | .weights a =>
    (s.weights.step (WeightCache.design P order) s.db a).map fun c => { s with weights := c }
  | .baseline a =>
    (s.baseline.step Baseline.design s.db a).map fun c => { s with baseline := c }

/--
No read of the database fails, and none of the caches is filled with what was read before its last
invalidation saw another value.
-/
def InOrder (s : Prices F) : Action → Prop
  | .edit _ => True
  | .weights a => s.weights.InOrder (WeightCache.design P order) a
  | .baseline a => s.baseline.InOrder Baseline.design a

/-- A step in order. -/
def Next (s : Prices F) (a : Action) (s' : Prices F) : Prop :=
  s.InOrder P order a ∧ s.step P order a = some s'

/-- Both caches, for calls that may use nothing older than the given numbers of edits. -/
structure Coherent (since since' : Nat → Nat) (s : Prices F) : Prop where
  weights : ReadThrough.Coherent (WeightCache.design P order) since s.db s.weights
  baseline : ReadThrough.Coherent Baseline.design since' s.db s.baseline

variable {P order} {since since' : Nat → Nat} {s s' : Prices F} {a : Action}

theorem coherent_start (db : Database) :
    Coherent P order (fun _ => 0) (fun _ => 0) (start P order db) := ⟨.start, .start⟩

theorem Coherent.next (hs : Coherent P order since since' s) (h : s.Next P order a s') :
    Coherent P order since since' s' := by
  obtain ⟨hin, hstep⟩ := h
  cases a with
  | edit db =>
    obtain rfl := Option.some.inj hstep
    exact ⟨hs.weights.commit db, hs.baseline.commit db⟩
  | weights a =>
    obtain ⟨c, hc, rfl⟩ := Option.map_eq_some_iff.mp hstep
    exact ⟨hs.weights.step hin hc, hs.baseline⟩
  | baseline a =>
    obtain ⟨c, hc, rfl⟩ := Option.map_eq_some_iff.mp hstep
    exact ⟨hs.weights, hs.baseline.step hin hc⟩

theorem Coherent.invalidateWeights (hs : Coherent P order since since' s)
    (h : s.step P order (.weights .clear) = some s') :
    Coherent P order (fun i => if (s'.weights.calls i).isNone then s.db.count else 0) since' s' := by
  unfold step at h
  obtain ⟨c, hc, rfl⟩ := Option.map_eq_some_iff.mp h
  exact ⟨hs.weights.clear hc, hs.baseline⟩

theorem Coherent.invalidateBaseline (hs : Coherent P order since since' s)
    (h : s.step P order (.baseline .clear) = some s') :
    Coherent P order since (fun i => if (s'.baseline.calls i).isNone then s.db.count else 0) s' := by
  unfold step at h
  obtain ⟨c, hc, rfl⟩ := Option.map_eq_some_iff.mp h
  exact ⟨hs.weights, hs.baseline.clear hc⟩

theorem Coherent.run {as : List Action} (hs : Coherent P order since since' s)
    (h : Steps (Next P order) s as s') : Coherent P order since since' s' :=
  h.invariant (fun _ _ _ hs hnext => hs.next hnext) hs

/-! ## Edits take effect -/

/--
In every run of `R` from `s₀`, a call that starts after `invalidate` returns what a state of the
database gives that is no older than the edits before `invalidate`.
-/
def TakeEffect {κ ν σ : Type*} (R : Prices F → Action → Prices F → Prop) (s₀ : Prices F)
    (invalidate : Action) (part : Prices F → Cache Database κ ν σ) (load : κ → Database → ν) :
    Prop :=
  ∀ as s s' bs s'', Steps R s₀ as s → R s invalidate s' → Steps R s' bs s'' →
    ∀ i k v, (part s').calls i = none → (part s'').calls i = some (.returned k v) →
      s''.db.NoOlder (load k) s.db.count v

/-- Weights and prices that are edited take effect in every run in order. -/
theorem edits_take_effect (db : Database) :
    TakeEffect (Next P order) (start P order db) (.weights .clear) weights (Database.weights P) ∧
    TakeEffect (Next P order) (start P order db) (.baseline .clear) baseline
      fun _ => Database.prices := by
  constructor
  · intro as s s' bs s'' h hclear h' i model w hfree hret
    have hs := ((coherent_start db).run h).invalidateWeights hclear.2
    have hsound := (hs.run h').weights.calls i _ hret
    simp only [hfree, Option.isNone_none, if_true] at hsound
    exact hsound
  · intro as s s' bs s'' h hclear h' i _ prices hfree hret
    have hs := ((coherent_start db).run h).invalidateBaseline hclear.2
    have hsound := (hs.run h').baseline.calls i _ hret
    simp only [hfree, Option.isNone_none, if_true] at hsound
    exact hsound

/-! ### A get overtaken by an edit and its invalidation -/

/-- Rationals for `f64`. -/
def rationals : Float64 ℚ := ⟨some, 1, (· * ·), 1 / 10, 5 / 4, 2⟩

/-- One model, with this input weight, and this input price. -/
def oneModel (w price : Decimal) : Database where
  models := fun model => if model = "m" then some ⟨w, 1, some 0, some 0, some 0⟩ else none
  platformPricing := some (price, 1)

def oneModelWeights (w : Decimal) : Weights ℚ := ⟨w, 1, 0, 0, 0⟩

/--
Two gets beside an edit: get 2 has read the old weights and stores them before the invalidation, get
0 reads the new ones and stores them after it.
-/
def besideEdit : List Action :=
  [.weights (.start 2 "m"), .weights (.next 2 0), .weights (.next 2 0), .weights (.start 0 "m"),
    .weights (.next 0 0), .edit (oneModel 2 2), .weights (.next 2 0), .weights (.next 0 0)]

/-- A get that starts after the invalidation finds the new weights. -/
theorem edits_take_effect_inTurn : ∃ s s' s'',
    Steps (Next rationals id) (start rationals id (oneModel 1 1)) besideEdit s ∧
    s.weights.calls 2 = some (.returned "m" (oneModelWeights 1)) ∧
    s.Next rationals id (.weights .clear) s' ∧
    Steps (Next rationals id) s'
      [.weights (.next 0 0), .weights (.start 1 "m"), .weights (.next 1 1)] s'' ∧
    s''.weights.calls 1 = some (.returned "m" (oneModelWeights 2)) ∧
    s''.db.NoOlder (Database.weights rationals "m") s.db.count (oneModelWeights 2) := by
  have hbefore : ∃ s, Steps (Next rationals id) (start rationals id (oneModel 1 1)) besideEdit s ∧
      s.weights.calls 2 = some (.returned "m" (oneModelWeights 1)) ∧ ∃ s' s'',
        s.Next rationals id (.weights .clear) s' ∧
        Steps (Next rationals id) s'
          [.weights (.next 0 0), .weights (.start 1 "m"), .weights (.next 1 1)] s'' ∧
        s'.weights.calls 1 = none ∧
        s''.weights.calls 1 = some (.returned "m" (oneModelWeights 2)) :=
    -- what is stored before the invalidation may be old: nothing was cleared yet
    ⟨_, .cons ⟨trivial, rfl⟩ (.cons ⟨trivial, rfl⟩ (.cons ⟨trivial, rfl⟩ (.cons ⟨trivial, rfl⟩
      (.cons ⟨trivial, rfl⟩ (.cons ⟨trivial, rfl⟩ (.cons ⟨Or.inl le_rfl, rfl⟩
        (.single ⟨trivial, rfl⟩))))))), rfl, _, _, ⟨trivial, rfl⟩,
      .cons ⟨Or.inl le_rfl, rfl⟩ (.cons ⟨trivial, rfl⟩ (.single ⟨trivial, rfl⟩)), rfl, rfl⟩
  obtain ⟨s, hedit, hold, s', s'', hclear, hafter, hfree, hret⟩ := hbefore
  exact ⟨s, s', s'', hedit, hold, hclear, hafter, hret,
    (edits_take_effect (oneModel 1 1)).1 _ _ _ _ _ hedit hclear hafter 1 "m" _ hfree hret⟩

/-- A get of weights and a read of the baseline, each with its read made and its store to come. -/
def beforeEdit : List Action :=
  [.weights (.start 0 "m"), .weights (.next 0 0), .weights (.next 0 0),
    .baseline (.start 0 ()), .baseline (.next 0 0), .baseline (.next 0 0), .edit (oneModel 2 2)]

/-- The stores of the first calls, and the calls that find them. -/
def afterInvalidation : List Action :=
  [.weights (.next 0 0), .weights (.start 1 "m"), .weights (.next 1 1),
    .baseline (.next 0 0), .baseline (.start 1 ()), .baseline (.next 1 1)]

/-- What only the state before the first edit gives is older than that edit. -/
theorem not_noOlder_one {β : Type*} {f : Database → β} {db : Database} {v : β}
    (hv : f db ≠ v) {old : Database} : ¬ (⟨[old], db⟩ : History Database).NoOlder f 1 v := by
  rintro ⟨k, hk, hval⟩
  match k, hk with
  | 1, _ => exact hv (Option.some.inj hval)
  | k + 2, _ => cases hval

/-- Without the order, neither of them takes effect. -/
theorem edits_overtaken :
    ¬ TakeEffect (fun s a s' => s.step rationals id a = some s')
      (start rationals id (oneModel 1 1)) (.weights .clear) weights (Database.weights rationals) ∧
    ¬ TakeEffect (fun s a s' => s.step rationals id a = some s')
      (start rationals id (oneModel 1 1)) (.baseline .clear) baseline fun _ => Database.prices := by
  constructor
  · intro h
    have hno := h beforeEdit _ _ afterInvalidation _ (.of_foldlM rfl) rfl (.of_foldlM rfl)
      1 "m" (oneModelWeights 1) rfl rfl
    exact not_noOlder_one (by decide) hno
  · intro h
    have hno := h beforeEdit _ _ afterInvalidation _ (.of_foldlM rfl) rfl (.of_foldlM rfl)
      1 () (1, 1) rfl rfl
    exact not_noOlder_one (by decide) hno

end Prices

end ThinkWatch.Gateway
