import ThinkWatch.Lib.Expiring
import ThinkWatch.Lib.Run
import ThinkWatch.Lib.Threads

/-!
# What failures cost a subnet

The failure counter of a subnet, as `login` (`crates/server/src/handlers/auth.rs`) counts it up and
down and `issue_pow_challenge` reads it for the difficulty of a challenge (`crates/auth/src/pow.rs`).
Sign-ins come from any addresses and at the same time; each Redis command is a step of its own.
-/

namespace ThinkWatch.Auth.ProofOfWork

open Lib

def defaultDifficulty : Nat := 19

def difficultyForSubnetFailures (recentFailures : Nat) : Nat :=
  if 50 ≤ recentFailures then 23
  else if 10 ≤ recentFailures then 21
  else defaultDifficulty

theorem difficultyForSubnetFailures_mono {m n : Nat} (h : m ≤ n) :
    difficultyForSubnetFailures m ≤ difficultyForSubnetFailures n := by
  unfold difficultyForSubnetFailures defaultDifficulty
  grind

def subnetFailWindowSecs : Int := 600

def subnetFailSuccessDecay : Int := 3

/-- `s.parse::<u64>()` of what Redis says a counter is. -/
def parseU64 (v : Int) : Option Nat := if 0 ≤ v then some v.toNat else none

/-- `subnetKey` is `pow::subnet_key`. -/
def subnetFailKey (subnetKey : String → String) (clientIp : String) : String :=
  "auth_fail_subnet:" ++ subnetKey clientIp

/-- How far a failed sign-in has got with counting itself. -/
inductive Pc where
  | incr
  | expire
  | done
deriving DecidableEq, Repr

structure Failure where
  clientIp : String
  pc : Pc

/--
`since` counts the failures that were counted since the counter was last created or counted down by
a success.
-/
structure State where
  clock : Int
  redis : Store String Int
  failures : Threads Failure
  since : String → Nat

inductive Event where
  | tick (t : Int)
  | fail (i : Nat) (clientIp : String)
  | go (i : Nat)
  | success (clientIp : String)

namespace State

def start (clock : Int) : State := ⟨clock, .empty, .none, fun _ => 0⟩

def setSince (f : String → Nat) (k : String) (n : Nat) : String → Nat :=
  fun k' => if k' = k then n else f k'

/-- `DECAY_LUA`. -/
def decay (s : State) (k : String) : State :=
  match s.redis.get s.clock k with
  | some _ =>
    { s with
      redis := (s.redis.incrBy s.clock k (-subnetFailSuccessDecay)).1
      since := setSince s.since k 0 }
  | none => s

/-- The two commands of `fixed_window::incr`; a count that is no `u64` ends it before the second. -/
def advance (subnetKey : String → String) (s : State) (i : Nat) (f : Failure) : Option State :=
  let k := subnetFailKey subnetKey f.clientIp
  match f.pc with
  | .incr =>
    let r := s.redis.incrBy s.clock k 1
    some { s with
      redis := r.1
      failures := s.failures.set i { f with pc := if (parseU64 r.2).isSome then .expire else .done }
      since := setSince s.since k (if (s.redis.get s.clock k).isSome then s.since k + 1 else 1) }
  | .expire =>
    some { s with
      redis := s.redis.expireNx s.clock k (subnetFailWindowSecs * 1000)
      failures := s.failures.set i { f with pc := .done } }
  | .done => none

def step (subnetKey : String → String) (s : State) : Event → Option State
  | .tick t => if s.clock ≤ t then some { s with clock := t } else none
  | .fail i clientIp =>
    match s.failures i with
    | none => some { s with failures := s.failures.set i ⟨clientIp, .incr⟩ }
    | some _ => none
  | .go i =>
    match s.failures i with
    | none => none
    | some f => s.advance subnetKey i f
  | .success clientIp => some (s.decay (subnetFailKey subnetKey clientIp))

/-- What `issue_pow_challenge` asks for; `answers` says whether its read of the counter went. -/
def difficulty (s : State) (k : String) (answers : Bool) : Nat :=
  let recentFailures :=
    match if answers then s.redis.get s.clock k else none with
    | some v => (parseU64 v).getD 0
    | none => 0
  difficultyForSubnetFailures recentFailures

end State

/-! ## The condition -/

variable {subnetKey : String → String} {s s' : State} {e : Event}

/-- The condition on a success. The counter it counts down is gone, or has as much as it takes. -/
def Covered (subnetKey : String → String) (s : State) : Event → Prop
  | .success clientIp => ∀ v ∈ s.redis.get s.clock (subnetFailKey subnetKey clientIp),
      subnetFailSuccessDecay ≤ v
  | _ => True

instance (s : State) : ∀ e, Decidable (Covered subnetKey s e)
  | .success clientIp =>
    inferInstanceAs (Decidable (∀ v ∈ s.redis.get s.clock (subnetFailKey subnetKey clientIp), _))
  | .tick _ => isTrue trivial
  | .fail _ _ => isTrue trivial
  | .go _ => isTrue trivial

/-- A step that meets the condition. -/
def Next (subnetKey : String → String) (s : State) (e : Event) (s' : State) : Prop :=
  Covered subnetKey s e ∧ s.step subnetKey e = some s'

/-! ## The invariant -/

/-- A counter stands at the failures since the last success or more. -/
def Sound (redis : Store String Int) (since : String → Nat) : Prop :=
  ∀ k e, redis k = some e → (since k : Int) ≤ e.value

theorem sound_put {redis : Store String Int} {since : String → Nat} (hs : Sound redis since)
    {k : String} {n : Nat} {e : Entry Int} (h : (n : Int) ≤ e.value) :
    Sound (redis.put k (some e)) (State.setSince since k n) := by
  intro k' e' he'
  by_cases hk : k' = k
  · subst hk
    rw [Store.put_self] at he'
    obtain rfl := Option.some.inj he'
    rwa [State.setSince, if_pos rfl]
  · rw [Store.put_ne _ hk] at he'
    rw [State.setSince, if_neg hk]
    exact hs k' e' he'

theorem sound_incr (hs : Sound s.redis s.since) (k : String) :
    Sound (s.redis.incrBy s.clock k 1).1
      (State.setSince s.since k (if (s.redis.get s.clock k).isSome then s.since k + 1 else 1)) := by
  unfold Store.incrBy
  cases hget : s.redis.get s.clock k with
  | none => exact sound_put hs (Int.le_refl 1)
  | some v =>
    obtain ⟨e, he, -, rfl⟩ := Store.get_eq_some.mp hget
    have hle := hs k e he
    refine sound_put hs ?_
    simp only [Option.isSome_some, if_true]
    omega

/-- A success that is covered leaves no debt. -/
theorem sound_decay (hs : Sound s.redis s.since) {k : String}
    (hcovered : ∀ v ∈ s.redis.get s.clock k, subnetFailSuccessDecay ≤ v) :
    Sound (s.decay k).redis (s.decay k).since := by
  unfold State.decay Store.incrBy
  cases hget : s.redis.get s.clock k with
  | none => exact hs
  | some v =>
    have hle := hcovered v hget
    refine sound_put hs ?_
    simp only
    omega

theorem sound_expire (hs : Sound s.redis s.since) (k : String) (ttl : Int) :
    Sound (s.redis.expireNx s.clock k ttl) s.since := by
  intro k' e he
  have hvalue := s.redis.expireNx_value s.clock ttl k k'
  rw [he] at hvalue
  obtain ⟨e', he', hee'⟩ := Option.map_eq_some_iff.mp hvalue.symm
  rw [← hee']
  exact hs k' e' he'

theorem sound_step (hs : Sound s.redis s.since) (hin : Covered subnetKey s e)
    (h : s.step subnetKey e = some s') : Sound s'.redis s'.since := by
  cases e with
  | tick t =>
    simp only [State.step] at h
    split at h
    · obtain rfl := Option.some.inj h
      exact hs
    · cases h
  | fail i clientIp =>
    simp only [State.step] at h
    split at h
    · obtain rfl := Option.some.inj h
      exact hs
    · cases h
  | go i =>
    simp only [State.step] at h
    split at h
    · cases h
    · next f hf =>
      unfold State.advance at h
      split at h
      · obtain rfl := Option.some.inj h
        exact sound_incr hs _
      · obtain rfl := Option.some.inj h
        exact sound_expire hs _ _
      · cases h
  | success clientIp =>
    obtain rfl := Option.some.inj h
    exact sound_decay hs hin

/-! ## Whole runs -/

/--
In every run in which each success finds its counter gone or high enough, a counter is never
negative, and the failures since the last success ask for as much as they would alone.
-/
theorem successes_bank_no_credit {clock : Int} {es : List Event}
    (h : Steps (Next subnetKey) (State.start clock) es s) {k : String} {v : Int}
    (hv : s.redis.get s.clock k = some v) :
    0 ≤ v ∧ difficultyForSubnetFailures (s.since k) ≤ s.difficulty k true := by
  have hs := h.invariant (I := fun s => Sound s.redis s.since)
    (fun _ _ _ hs hstep => sound_step hs hstep.1 hstep.2) nofun
  obtain ⟨e, he, -, rfl⟩ := Store.get_eq_some.mp hv
  have hle := hs k e he
  have hnonneg : 0 ≤ e.value := Int.le_trans (Int.natCast_nonneg _) hle
  refine ⟨hnonneg, difficultyForSubnetFailures_mono ?_⟩
  simp only [if_true, hv, parseU64, if_pos hnonneg, Option.getD_some]
  exact (Int.le_toNat hnonneg).mpr hle

/-! ## Ten failures after five successes -/

/-- A failed sign-in that has counted itself. -/
def counted (i : Nat) : List Event := [.fail i "192.0.2.1", .go i]

def failed (i : Nat) : List Event := counted i ++ [.go i]

/-- Four failures, a success, and ten failures. -/
theorem successes_bank_no_credit_once : ∃ s, Steps (Next fun _ => "192.0.2.0/24") (State.start 0)
      ((List.range 4).flatMap failed ++ [Event.success "192.0.2.7"] ++
        (List.range' 4 10).flatMap failed) s ∧
    s.redis.get s.clock "auth_fail_subnet:192.0.2.0/24" = some 11 ∧
    difficultyForSubnetFailures (s.since "auth_fail_subnet:192.0.2.0/24") ≤
      s.difficulty "auth_fail_subnet:192.0.2.0/24" true := by
  have hrun : (((List.range 4).flatMap failed ++ [Event.success "192.0.2.7"] ++
      (List.range' 4 10).flatMap failed).foldlM (fun s e =>
        if Covered (fun _ => "192.0.2.0/24") s e then s.step (fun _ => "192.0.2.0/24") e else none)
      (State.start 0)).map (fun s : State => s.redis.get s.clock "auth_fail_subnet:192.0.2.0/24") =
      some (some 11) := by
    decide +kernel
  obtain ⟨s, hs, hv⟩ := Option.map_eq_some_iff.mp hrun
  have h : Steps (Next fun _ => "192.0.2.0/24") _ _ s := .of_foldlM_if hs
  exact ⟨s, h, hv, (successes_bank_no_credit h hv).2⟩

/-- One failure and five successes leave a debt that ten failures do not pay off. -/
theorem successes_bank_credit : ∃ s,
    Steps (fun s e s' => s.step (fun _ => "192.0.2.0/24") e = some s') (State.start 0)
      (failed 0 ++ List.replicate 5 (Event.success "192.0.2.7") ++
        (List.range' 1 10).flatMap counted) s ∧
    s.redis.get s.clock "auth_fail_subnet:192.0.2.0/24" = some (-4) ∧
    s.since "auth_fail_subnet:192.0.2.0/24" = 10 ∧
    s.difficulty "auth_fail_subnet:192.0.2.0/24" true = 19 ∧
    difficultyForSubnetFailures 10 = 21 := by
  have hrun : ((failed 0 ++ List.replicate 5 (Event.success "192.0.2.7") ++
      (List.range' 1 10).flatMap counted).foldlM (State.step fun _ => "192.0.2.0/24")
      (State.start 0)).map (fun s => (s.redis.get s.clock "auth_fail_subnet:192.0.2.0/24",
        s.since "auth_fail_subnet:192.0.2.0/24",
        s.difficulty "auth_fail_subnet:192.0.2.0/24" true)) = some (some (-4), 10, 19) := by
    decide +kernel
  obtain ⟨s, hs, heq⟩ := Option.map_eq_some_iff.mp hrun
  simp only [Prod.mk.injEq] at heq
  exact ⟨s, .of_foldlM hs, heq.1, heq.2.1, heq.2.2, rfl⟩

end ThinkWatch.Auth.ProofOfWork
