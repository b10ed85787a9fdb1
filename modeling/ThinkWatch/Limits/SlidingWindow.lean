import Mathlib.Data.List.Nodup
import ThinkWatch.Lib.Run
import ThinkWatch.Limits.SlidingStep

/-!
# The window bound, over every run of the limiter

Any number of gateway processes run `LUA_ADMIT` and `LUA_RECORD` against one Redis. Redis runs
one script at a time, so an interleaving of the clients is a list of calls.

* `admissions_bounded`: on a counter charged one unit at a time by admissions only, no sixty
  consecutive buckets ever hold more admissions than the limit.
* `refused_charges_nothing`: a call that finds one of its counters full charges none of them.

What carries the bound is `Tracks`: the live part of the hash is the number of logged admissions,
bucket by bucket, whatever has been pruned or has expired.
-/

namespace ThinkWatch.Limits

open Lib

/-! ## Calls and runs -/

/--
What is fixed for each counter. `counter_key` puts `window_secs` into the key, so the width of
the buckets belongs to the key.
-/
structure Config where
  bucketSecs : String → Int
  maxCount : String → Int
  bucketSecs_pos : ∀ k, 1 ≤ bucketSecs k
  maxCount_pos : ∀ k, 0 < maxCount k

/-- A script call of a client. -/
inductive Call where
  | admitCounters (nowMs : Int) (counters : List Counter)
  | recordCounters (nowMs amount : Int) (counters : List (String × Int))

def Call.nowMs : Call → Int
  | .admitCounters t _ => t
  | .recordCounters t _ _ => t

/-- An admission that was granted, as the log keeps it. -/
structure Admission where
  atMs : Int
  counters : List Counter

/-- The admission charged the counter `k`. -/
def Admission.charges (k : String) (a : Admission) : Bool :=
  a.counters.any (fun c => decide (c.key = k) && decide (c.charge > 0))

/-- Redis, the time of the last call, and the admissions so far (nothing reads the log). -/
structure Node where
  store : Redis
  clock : Int
  log : List Admission

/-- One call. -/
def Node.run (n : Node) : Call → Node
  | .admitCounters t cs =>
    let r := admitCountersAt n.store cs t
    ⟨r.1, t, if r.2.allowed then n.log ++ [⟨t, cs⟩] else n.log⟩
  | .recordCounters t amount cs => ⟨recordCountersAt n.store cs amount t, t, n.log⟩

/-- The counters of one admission: distinct keys, each with its own fixed width and limit. -/
structure WellFormed (cfg : Config) (cs : List Counter) : Prop where
  nodup : (cs.map Counter.key).Nodup
  bucketSecs : ∀ c ∈ cs, c.bucketSecs = cfg.bucketSecs c.key
  maxCount : ∀ c ∈ cs, c.maxCount = cfg.maxCount c.key

/-- `k` is charged by admissions of one unit only. -/
def ChargedByOne (k : String) : Call → Prop
  | .admitCounters _ cs => ∀ c ∈ cs, c.key = k → c.charge ≤ 1
  | .recordCounters _ _ cs => ∀ c ∈ cs, c.1 ≠ k

/-- A step of a run: the clock does not go back, and admissions are well formed. -/
def Step (cfg : Config) (n : Node) (call : Call) (n' : Node) : Prop :=
  n.clock ≤ call.nowMs ∧ (∀ t cs, call = .admitCounters t cs → WellFormed cfg cs) ∧ n' = n.run call

/-- A step that charges `k` by at most one admission unit. -/
def UnitStep (cfg : Config) (k : String) (n : Node) (call : Call) (n' : Node) : Prop :=
  ChargedByOne k call ∧ Step cfg n call n'

/-- The number of logged admissions that charged `k` in the buckets `lo` to `hi`. -/
def admissionsIn (w : Int) (k : String) (log : List Admission) (lo hi : Int) : Nat :=
  log.countP fun a =>
    a.charges k && (decide (lo ≤ bucketAt w a.atMs) && decide (bucketAt w a.atMs ≤ hi))

/-! ## The Rust around the script -/

theorem luaAdmit_reply (s : Redis) (t : Int) (cs : List Counter) :
    ∃ x xs, (luaAdmit s t cs).2 = x :: xs := by
  unfold luaAdmit
  dsimp only
  split
  · exact ⟨_, _, rfl⟩
  · exact ⟨_, _, rfl⟩

/-- An empty call runs no script, which is what the script would have done. -/
theorem admitCountersAt_eq (s : Redis) (cs : List Counter) (t : Int) :
    (admitCountersAt s cs t).1 = (luaAdmit s t cs).1 ∧
      ((admitCountersAt s cs t).2.allowed = true ↔ allowed (luaAdmit s t cs).2) := by
  cases cs with
  | nil => exact ⟨rfl, by simp [admitCountersAt, CheckOutcome.open, luaAdmit, allowed]⟩
  | cons c cs =>
    obtain ⟨x, xs, hreply⟩ := luaAdmit_reply s t (c :: cs)
    refine ⟨rfl, ?_⟩
    show (parseAdmitReply (luaAdmit s t (c :: cs)).2).allowed = true ↔ _
    rw [hreply]
    simp [parseAdmitReply, allowed]

theorem WellFormed.one_le {cfg : Config} {cs : List Counter} (h : WellFormed cfg cs) :
    ∀ c ∈ cs, 1 ≤ c.bucketSecs := by
  intro c hc
  rw [h.bucketSecs c hc]
  exact cfg.bucketSecs_pos c.key

theorem recordCountersAt_other {s : Redis} {cs : List (String × Int)} {amount t : Int} {k : String}
    (h : ∀ c ∈ cs, c.1 ≠ k) : recordCountersAt s cs amount t k = s k := by
  unfold recordCountersAt
  split
  · rfl
  · have hacts : ∀ (s : Redis) (c : String × Int) (k : String), k ≠ c.1 →
        recordRule t amount s c k = s k := by
      intro s c k hk
      obtain ⟨d, hput, -⟩ := hincrby_eq s t c.1 (.bucket (bucketAt c.2 t)) amount
      rw [recordRule, Store.expire_ne _ _ hk, hput, Store.put_ne _ hk]
    unfold luaRecord
    clear * - h hacts
    induction cs generalizing s with
    | nil => rfl
    | cons c cs ih =>
      rw [List.foldl_cons, ih (fun d hd => h d (by simp [hd]))]
      exact hacts s c k (fun he => h c (by simp) he.symm)

/-! ## Buckets and time -/

theorem bucketAt_mono {w t t' : Int} (hw : 1 ≤ w) (h : t ≤ t') : bucketAt w t ≤ bucketAt w t' :=
  Int.ediv_le_ediv (by omega) (Int.ediv_le_ediv (by decide) h)

/-- An entry lives for 120 buckets after its last charge. -/
theorem bucketAt_after_expiry {w t t' : Int} (hw : 1 ≤ w) (h : t + w * 120 * 1000 < t') :
    bucketAt w t + 120 ≤ bucketAt w t' := by
  have hsecs : t / 1000 + w * 120 ≤ t' / 1000 := by omega
  have hadd : (t / 1000 + w * 120) / w = t / 1000 / w + 120 := by
    rw [Int.add_mul_ediv_left _ _ (by omega)]
  calc bucketAt w t + 120 = (t / 1000 + w * 120) / w := hadd.symm
    _ ≤ bucketAt w t' := Int.ediv_le_ediv (by omega) hsecs

/-! ## Counting the log -/

section Counting

variable {w : Int} {k : String} {log : List Admission} {lo lo' hi hi' : Int}

theorem admissionsIn_append (a : Admission) :
    admissionsIn w k (log ++ [a]) lo hi = admissionsIn w k log lo hi
      + if a.charges k && (decide (lo ≤ bucketAt w a.atMs) && decide (bucketAt w a.atMs ≤ hi))
        then 1 else 0 := by
  simp [admissionsIn, List.countP_append, List.countP_cons]

/-- A range that reaches further back counts at least as much, when nothing lies past `hi`. -/
theorem admissionsIn_mono (hlo : lo' ≤ lo) (hhi : ∀ a ∈ log, bucketAt w a.atMs ≤ hi') :
    admissionsIn w k log lo hi ≤ admissionsIn w k log lo' hi' := by
  refine List.countP_mono_left fun a ha hp => ?_
  simp only [Bool.and_eq_true, decide_eq_true_eq] at hp ⊢
  exact ⟨hp.1, Int.le_trans hlo hp.2.1, hhi a ha⟩

theorem admissionsIn_eq_zero (h : ∀ a ∈ log, bucketAt w a.atMs < lo) :
    admissionsIn w k log lo hi = 0 := by
  refine List.countP_eq_zero.mpr fun a ha hp => ?_
  have := h a ha
  simp only [Bool.and_eq_true, decide_eq_true_eq] at hp
  omega

end Counting

/-! ## The invariant -/

/-- What holds of the counter `k` in every state of a run. -/
structure Tracks (cfg : Config) (k : String) (n : Node) : Prop where
  /-- From now on, the part of the hash a window reaches counts the log. -/
  live : ∀ t, n.clock ≤ t → ∀ lo hi, bucketAt (cfg.bucketSecs k) t - 59 ≤ lo →
    (hgetall n.store t k).sumIn lo hi = admissionsIn (cfg.bucketSecs k) k n.log lo hi
  past : ∀ a ∈ n.log, a.atMs ≤ n.clock
  bounded : ∀ B, (admissionsIn (cfg.bucketSecs k) k n.log B (B + 59) : Int) ≤ cfg.maxCount k

namespace Tracks

variable {cfg : Config} {k : String} {n : Node}

theorem init (hk : n.store k = none) (hlog : n.log = []) : Tracks cfg k n where
  live := by
    intro t _ lo hi _
    rw [hgetall_eq, hk, hlog]
    rfl
  past := by simp [hlog]
  bounded := by
    intro B
    have := cfg.maxCount_pos k
    simp [hlog, admissionsIn]
    omega

/-- Time passes, and nothing is charged to `k`. -/
theorem idle {n' : Node} (h : Tracks cfg k n) (hclock : n.clock ≤ n'.clock)
    (hread : ∀ t, n'.clock ≤ t → ∀ lo hi, bucketAt (cfg.bucketSecs k) t - 59 ≤ lo →
      (hgetall n'.store t k).sumIn lo hi = (hgetall n.store t k).sumIn lo hi)
    (hlog : n'.log = n.log ∨ ∃ a, n'.log = n.log ++ [a] ∧ a.atMs ≤ n'.clock ∧ a.charges k = false) :
    Tracks cfg k n' := by
  have hcount : ∀ lo hi, admissionsIn (cfg.bucketSecs k) k n'.log lo hi
      = admissionsIn (cfg.bucketSecs k) k n.log lo hi := by
    intro lo hi
    rcases hlog with he | ⟨a, he, -, hch⟩
    · rw [he]
    · rw [he, admissionsIn_append, hch]
      rfl
  refine ⟨?_, ?_, ?_⟩
  · intro t ht lo hi hlo
    rw [hread t ht lo hi hlo, hcount]
    exact h.live t (by omega) lo hi hlo
  · intro a ha
    rcases hlog with he | ⟨b, he, hb, -⟩
    · rw [he] at ha
      have := h.past a ha
      omega
    · rw [he, List.mem_append, List.mem_singleton] at ha
      rcases ha with ha | rfl
      · have := h.past a ha
        omega
      · exact hb
  · intro B
    rw [hcount]
    exact h.bounded B

/-- One unit is charged to `k` at time `t`, and there was room. -/
theorem charge {t : Int} {c : Counter} {cs : List Counter} {s' : Redis} (h : Tracks cfg k n)
    (hclock : n.clock ≤ t) (hw : c.bucketSecs = cfg.bucketSecs k) (hone : c.charge = 1)
    (hroom : (hgetall n.store t k).sumIn (bucketAt (cfg.bucketSecs k) t - 59)
      (bucketAt (cfg.bucketSecs k) t) < cfg.maxCount k)
    (hentry : s' k = chargeEntry t c (pruneEntry t (bucketAt (cfg.bucketSecs k) t - 59)
      (bucketAt (cfg.bucketSecs k) t) (n.store k)))
    (hch : (⟨t, cs⟩ : Admission).charges k = true) :
    Tracks cfg k ⟨s', t, n.log ++ [⟨t, cs⟩]⟩ := by
  have hpos := cfg.bucketSecs_pos k
  have hpast : ∀ a ∈ n.log, bucketAt (cfg.bucketSecs k) a.atMs ≤ bucketAt (cfg.bucketSecs k) t := by
    intro a ha
    exact bucketAt_mono hpos (Int.le_trans (h.past a ha) hclock)
  refine ⟨?_, ?_, ?_⟩
  · intro t' ht' lo hi hlo
    have hlo' : bucketAt (cfg.bucketSecs k) t - 59 ≤ lo := by
      have := bucketAt_mono hpos (show t ≤ t' from ht')
      omega
    show (hgetall s' t' k).sumIn lo hi = _
    rw [hgetall_eq, hentry, sumIn_chargeEntry, hw, hone, sumIn_pruneEntry t t _ _ _ hlo',
      ← hgetall_eq, h.live t hclock lo hi hlo', admissionsIn_append, hch]
    split
    · rw [Int.natCast_add, Bool.true_and]
      refine congrArg _ ?_
      show (if decide _ && decide _ then (1 : Int) else 0) = _
      split <;> rfl
    · next hexp =>
      -- the key has expired, and every bucket ever charged is 61 or more behind the window
      have hgone := bucketAt_after_expiry hpos (Int.not_le.mp hexp)
      have hzero : admissionsIn (cfg.bucketSecs k) k n.log lo hi = 0 := by
        refine admissionsIn_eq_zero fun a ha => ?_
        have := hpast a ha
        omega
      have hnow : ¬ lo ≤ bucketAt (cfg.bucketSecs k) t := by omega
      simp [hzero, hnow]
  · intro a ha
    rw [List.mem_append, List.mem_singleton] at ha
    rcases ha with ha | rfl
    · exact Int.le_trans (h.past a ha) hclock
    · exact Int.le_refl _
  · intro B
    rw [admissionsIn_append, hch]
    have hold := h.bounded B
    -- only the windows that hold the current bucket grow; they count no more than the live sum
    by_cases hin : B ≤ bucketAt (cfg.bucketSecs k) t ∧ bucketAt (cfg.bucketSecs k) t ≤ B + 59
    · have hle : admissionsIn (cfg.bucketSecs k) k n.log B (B + 59)
          ≤ admissionsIn (cfg.bucketSecs k) k n.log (bucketAt (cfg.bucketSecs k) t - 59)
            (bucketAt (cfg.bucketSecs k) t) := admissionsIn_mono (by omega) hpast
      rw [h.live t hclock _ _ (Int.le_refl _)] at hroom
      simp only [hin, decide_true, Bool.and_self, if_true]
      omega
    · simp only [Bool.true_and, Bool.and_eq_true, decide_eq_true_eq, hin, if_false]
      omega

end Tracks

/-! ## Steps -/

section Steps

variable {cfg : Config} {k : String} {n n' : Node} {call : Call}

/-- The live window of `k` reads the same before and after `k` has been pruned. -/
theorem hgetall_pruned {s s' : Redis} {w t t' lo hi : Int} (hw : 1 ≤ w) (ht : t ≤ t')
    (hs : s' k = pruneEntry t (bucketAt w t - 59) (bucketAt w t) (s k))
    (hlo : bucketAt w t' - 59 ≤ lo) :
    (hgetall s' t' k).sumIn lo hi = (hgetall s t' k).sumIn lo hi := by
  have hmono := bucketAt_mono hw ht
  rw [hgetall_eq, hgetall_eq, hs]
  exact sumIn_pruneEntry t t' _ _ _ (by omega)

theorem charges_false {cs : List Counter} {t : Int} (h : ∀ c ∈ cs, c.key = k → c.charge ≤ 0) :
    (⟨t, cs⟩ : Admission).charges k = false := by
  refine List.any_eq_false.mpr fun c hc => ?_
  have := h c hc
  simp only [Bool.and_eq_true, decide_eq_true_eq, not_and]
  intro hk
  have := h c hc hk
  omega

/-- An admission call keeps the invariant. -/
theorem tracks_admitCounters {t : Int} {cs : List Counter} (hwf : WellFormed cfg cs)
    (hone : ∀ c ∈ cs, c.key = k → c.charge ≤ 1) (hclock : n.clock ≤ t) (h : Tracks cfg k n) :
    Tracks cfg k (n.run (.admitCounters t cs)) := by
  obtain ⟨hstore, hallowed⟩ := admitCountersAt_eq n.store cs t
  have hw := cfg.bucketSecs_pos k
  simp only [Node.run]
  rw [hstore]
  by_cases hmem : ∃ c ∈ cs, c.key = k
  · obtain ⟨c, hc, rfl⟩ := hmem
    have hbs := hwf.bucketSecs c hc
    by_cases hall : allowed (luaAdmit n.store t cs).2
    · rw [if_pos (hallowed.mpr hall)]
      have hentry := luaAdmit_allowed_entry hwf.nodup hwf.one_le hall hc
      rw [hbs] at hentry
      dsimp only at hentry
      by_cases hch : c.charge > 0
      · have hroom := (luaAdmit_allowed_iff hwf.nodup hwf.one_le).mp hall c hc
        rw [liveSum, hbs, hwf.maxCount c hc] at hroom
        rw [if_pos hch] at hentry
        have hcharge : c.charge = 1 := by
          have := hone c hc rfl
          omega
        refine h.charge hclock hbs hcharge hroom hentry ?_
        exact List.any_eq_true.mpr ⟨c, hc, by simp [hch]⟩
      · rw [if_neg hch] at hentry
        refine h.idle hclock (fun t' ht' lo hi hlo => hgetall_pruned hw ht' hentry hlo) ?_
        refine Or.inr ⟨_, rfl, Int.le_refl _, charges_false fun d hd hk => ?_⟩
        -- the keys of a call are distinct, so `c` is the only counter of `k`
        have hdc : d = c := List.inj_on_of_nodup_map hwf.nodup hd hc hk
        rw [hdc]
        omega
    · rw [if_neg (fun h => hall (hallowed.mp h))]
      have hentry := luaAdmit_refused_entry hwf.nodup hall hc
      rw [hbs] at hentry
      exact h.idle hclock (fun t' ht' lo hi hlo => hgetall_pruned hw ht' hentry hlo) (Or.inl rfl)
  · have hother : ∀ c ∈ cs, c.key ≠ k := fun c hc hk => hmem ⟨c, hc, hk⟩
    refine h.idle hclock (fun t' _ lo hi _ => ?_) ?_
    · show (hgetall (luaAdmit n.store t cs).1 t' k).sumIn lo hi = _
      rw [hgetall_eq, hgetall_eq, luaAdmit_other hother]
    · dsimp only
      split
      · refine Or.inr ⟨_, rfl, Int.le_refl _, charges_false fun c hc hk => ?_⟩
        exact absurd hk (hother c hc)
      · exact Or.inl rfl

/-- Every step of a run in which `k` is charged by admissions of one unit keeps the invariant. -/
theorem tracks_step (h : Tracks cfg k n) (hstep : UnitStep cfg k n call n') : Tracks cfg k n' := by
  obtain ⟨hone, hclock, hwf, rfl⟩ := hstep
  cases call with
  | admitCounters t cs => exact tracks_admitCounters (hwf t cs rfl) hone hclock h
  | recordCounters t amount cs =>
    refine h.idle hclock (fun t' _ lo hi _ => ?_) (Or.inl rfl)
    show (hgetall (recordCountersAt n.store cs amount t) t' k).sumIn lo hi = _
    rw [hgetall_eq, hgetall_eq, recordCountersAt_other hone]

end Steps

/-! ## Main results -/

/-- The removed fields are ones that no window from time `t` on reaches. -/
def OutOfReach (w t : Int) (fs : List Field) : Prop :=
  ∀ f ∈ fs, ∀ t', t ≤ t' → f.inRange (bucketAt w t' - 59) (bucketAt w t') = false

/-- `after` is `before`, or `before` less some fields out of reach. No count changes. -/
def OnlyPruned (w t : Int) (before after : Option (Entry Hash)) : Prop :=
  after = before ∨ ∃ e fs, before = some e ∧ OutOfReach w t fs ∧
    after = if (e.value.without fs).fields = [] then none
      else some ⟨e.value.without fs, e.expireAt⟩

theorem onlyPruned_pruneEntry {w t : Int} (hw : 1 ≤ w) (e : Option (Entry Hash)) :
    OnlyPruned w t e (pruneEntry t (bucketAt w t - 59) (bucketAt w t) e) := by
  cases e with
  | none => exact Or.inl rfl
  | some e =>
    have hreach : OutOfReach w t
        (scan (bucketAt w t - 59) (bucketAt w t) (entryHash t (some e))).stale := by
      intro f hf t' ht'
      have := bucketAt_mono hw ht'
      exact Field.inRange_of_stale (stale_of_mem_scan hf) (by omega)
    rw [pruneEntry]
    generalize (scan (bucketAt w t - 59) (bucketAt w t) (entryHash t (some e))).stale = fs
      at hreach
    split
    · split
      · exact Or.inr ⟨e, fs, rfl, hreach, rfl⟩
      · exact Or.inl rfl
    · exact Or.inl rfl

/-- What a refused admission may do: nothing that a later admission or usage read can see. -/
structure ChargesNothing (cfg : Config) (n : Node) (t : Int) (cs : List Counter) (n' : Node) :
    Prop where
  refused : (admitCountersAt n.store cs t).2.allowed = false
  notLogged : n'.log = n.log
  onlyPruned : ∀ j, OnlyPruned (cfg.bucketSecs j) t (n.store j) (n'.store j)
  sameAdmission : ∀ c, c.bucketSecs = cfg.bucketSecs c.key → ∀ t', t ≤ t' →
    liveSum n'.store t' c = liveSum n.store t' c
  sameUsage : ∀ j t', t ≤ t' →
    windowSum (hgetall n'.store t' j) (t' / 1000) (cfg.bucketSecs j)
      = windowSum (hgetall n.store t' j) (t' / 1000) (cfg.bucketSecs j)

theorem refused_charges_nothing {cfg : Config} {n n' : Node} {t : Int} {cs : List Counter}
    (hstep : Step cfg n (.admitCounters t cs) n')
    (hfull : ∃ c ∈ cs, c.maxCount ≤ liveSum n.store t c) :
    ChargesNothing cfg n t cs n' := by
  obtain ⟨-, hwf, rfl⟩ := hstep
  obtain ⟨d, hd, hfull⟩ := hfull
  have hwf := hwf t cs rfl
  obtain ⟨hstore, hallowed⟩ := admitCountersAt_eq n.store cs t
  have hno : ¬ allowed (luaAdmit n.store t cs).2 := by
    intro hall
    have := (luaAdmit_allowed_iff hwf.nodup hwf.one_le).mp hall d hd
    omega
  have href : (admitCountersAt n.store cs t).2.allowed = false :=
    Bool.eq_false_iff.mpr (fun h => hno (hallowed.mp h))
  -- every key is pruned at its own width, or not touched
  have hentry : ∀ j, (n.run (.admitCounters t cs)).store j = n.store j ∨
      (n.run (.admitCounters t cs)).store j = pruneEntry t (bucketAt (cfg.bucketSecs j) t - 59)
        (bucketAt (cfg.bucketSecs j) t) (n.store j) := by
    intro j
    show (admitCountersAt n.store cs t).1 j = _ ∨ (admitCountersAt n.store cs t).1 j = _
    rw [hstore]
    by_cases hj : ∃ c ∈ cs, c.key = j
    · obtain ⟨c, hc, rfl⟩ := hj
      rw [← hwf.bucketSecs c hc]
      exact Or.inr (luaAdmit_refused_entry hwf.nodup hno hc)
    · exact Or.inl (luaAdmit_other fun c hc he => hj ⟨c, hc, he⟩)
  have hread : ∀ j t', t ≤ t' →
      (hgetall (n.run (.admitCounters t cs)).store t' j).sumIn (bucketAt (cfg.bucketSecs j) t' - 59)
          (bucketAt (cfg.bucketSecs j) t')
        = (hgetall n.store t' j).sumIn (bucketAt (cfg.bucketSecs j) t' - 59)
          (bucketAt (cfg.bucketSecs j) t') := by
    intro j t' ht'
    rcases hentry j with he | he
    · rw [hgetall_eq, hgetall_eq, he]
    · exact hgetall_pruned (cfg.bucketSecs_pos j) ht' he (Int.le_refl _)
  refine ⟨href, ?_, ?_, ?_, ?_⟩
  · simp [Node.run, href]
  · intro j
    rcases hentry j with he | he
    · exact Or.inl he
    · rw [he]
      exact onlyPruned_pruneEntry (cfg.bucketSecs_pos j) _
  · intro c hc t' ht'
    rw [liveSum, liveSum, hc]
    exact hread c.key t' ht'
  · intro j t' ht'
    have hpos : ¬ cfg.bucketSecs j ≤ 0 := by
      have := cfg.bucketSecs_pos j
      omega
    simp only [windowSum, if_neg hpos]
    exact hread j t' ht'

/--
The limiter over every run, from a log with nothing in it. Clients call in any order, with a
clock that does not go back. Then, in the state reached:

* for a counter `k` that was absent at the start and has been charged by admissions of one unit
  only, no sixty consecutive buckets hold more admissions than the limit of `k`;
* a further admission that meets a full counter is refused, and all it may do to the store is to
  remove buckets that no later admission or usage read can count.
-/
theorem admissions_bounded {cfg : Config} {n₀ n : Node} {calls : List Call} (hlog : n₀.log = [])
    (hrun : Steps (Step cfg) n₀ calls n) :
    (∀ k, n₀.store k = none → (∀ call ∈ calls, ChargedByOne k call) →
      ∀ B, (admissionsIn (cfg.bucketSecs k) k n.log B (B + 59) : Int) ≤ cfg.maxCount k) ∧
    ∀ t cs n', Step cfg n (.admitCounters t cs) n' → (∃ c ∈ cs, c.maxCount ≤ liveSum n.store t c) →
      ChargesNothing cfg n t cs n' := by
  refine ⟨?_, fun t cs n' => refused_charges_nothing⟩
  intro k hk hone
  have hinv : Tracks cfg k n :=
    (hrun.restrict hone).invariant (fun _ _ _ h hs => tracks_step h hs) (Tracks.init hk hlog)
  exact hinv.bounded

/-- One-second buckets and one admission a minute. -/
def oneAMinute : Config := ⟨fun _ => 1, fun _ => 1, fun _ => by decide, fun _ => by decide⟩

/-- At a limit of one, the first call is admitted and a call 900 ms later charges nothing. -/
theorem admissions_bounded_oneAMinute :
    let c : Counter := ⟨"ratelimit:k", 1, 1, 1⟩
    let n := Node.run ⟨Store.empty, 0, []⟩ (.admitCounters 5000 [c])
    admissionsIn 1 "ratelimit:k" n.log (-54) 5 = 1 ∧
      (∀ B, (admissionsIn 1 "ratelimit:k" n.log B (B + 59) : Int) ≤ 1) ∧
      ChargesNothing oneAMinute n 5900 [c] (n.run (.admitCounters 5900 [c])) := by
  intro c n
  have hwf : ∀ cs, cs = [c] → WellFormed oneAMinute cs := by
    rintro cs rfl
    exact ⟨by simp, by simp [c, oneAMinute], by simp [c, oneAMinute]⟩
  have hrun : Steps (Step oneAMinute) ⟨Store.empty, 0, []⟩ [.admitCounters 5000 [c]] n := by
    refine .single ⟨by decide, ?_, rfl⟩
    rintro t cs ⟨⟩
    exact hwf _ rfl
  obtain ⟨hbound, hrefuse⟩ := admissions_bounded rfl hrun
  refine ⟨by decide, ?_, ?_⟩
  · exact hbound "ratelimit:k" rfl (by simp [ChargedByOne, c])
  · refine hrefuse 5900 [c] _ ⟨by decide, ?_, rfl⟩ ⟨c, by simp, by decide⟩
    rintro t cs ⟨⟩
    exact hwf _ rfl

end ThinkWatch.Limits
