import Mathlib.Algebra.Group.Nat.Defs
import ThinkWatch.Gateway.Failure
import ThinkWatch.Gateway.Router
import ThinkWatch.Limits.SlidingStep

/-!
# Route caps

`crates/gateway/src/route_caps.rs`: the counters of a route, `admit` before a request is sent
to it, and the routes a selection skipped at their caps. The counters are those of the
sliding-window limiter, so an admission is one run of its script on the store.
-/

namespace ThinkWatch.Gateway

open Limits

/-! ## Counters -/

inductive RateMetric where
  | requests
  | tokens
deriving DecidableEq, Repr

def RateMetric.asStr : RateMetric → String
  | requests => "requests"
  | tokens => "tokens"

def capWindowSecs : Int := 60

/-- `sliding::bucket_secs`. -/
def bucketSecs (windowSecs : Int) : Int := windowSecs / 60

/-- The Redis Cluster hash tag every counter of the route carries. -/
def hashTag (routeId : Uuid) : String := "\x7broute:" ++ toString routeId ++ "\x7d"

def counterKey (routeId : Uuid) (metric : RateMetric) : String :=
  "ratelimit:" ++ hashTag routeId ++ ":ai_gateway:route:" ++ toString routeId ++ ":" ++
    metric.asStr ++ ":" ++ toString capWindowSecs

structure RouteCaps where
  routeId : Uuid
  rpm : Option Nat
  tpm : Option Nat
deriving DecidableEq, Repr

namespace RouteCaps

def of (entry : RouteEntry) : RouteCaps := ⟨entry.routeId, entry.rpmCap, entry.tpmCap⟩

/-- The counter of a cap. An admitted request adds `charge` to it. -/
def counter (routeId : Uuid) (metric : RateMetric) (charge : Int) (cap : Nat) : Counter :=
  ⟨counterKey routeId metric, bucketSecs capWindowSecs, cap, charge⟩

/-- The request count, which an admitted request adds one to, and the token count, only read. -/
def counters (caps : RouteCaps) : List (RateMetric × Counter) :=
  (caps.rpm.map fun cap => (.requests, counter caps.routeId .requests 1 cap)).toList ++
    (caps.tpm.map fun cap => (.tokens, counter caps.routeId .tokens 0 cap)).toList

/-- What the script is run on. -/
def plain (caps : RouteCaps) : List Counter := caps.counters.map Prod.snd

end RouteCaps

/-! ## Admission -/

inductive Admission where
  | admitted
  | capped (label : String) (retryAfterSecs : Int)
deriving DecidableEq, Repr

def capLabel (metric : RateMetric) : String := "route:" ++ metric.asStr ++ "/1m"

/-- `GatewayError::rate_limited`; the wait is clamped as `clamp_secs` does. -/
def rateLimited (label : String) (retryAfterSecs : Int) : GatewayError :=
  .localRateLimited label (max 1 (min (2 ^ 32 - 1) retryAfterSecs.toNat)) true

def limiterUnavailable (label : String) : GatewayError := .localRateLimited label 30 true

/--
`admit_at`, with the store answering or not. A route without caps costs no call; a store that
does not answer is as if there were no caps, unless the limits fail closed.
-/
def admitAt (s : Redis) (answers : Bool) (caps : RouteCaps) (failClosed : Bool) (nowMs : Int) :
    Redis × Except GatewayError Admission :=
  if caps.counters.isEmpty then (s, .ok .admitted)
  else if answers then
    let r := admitCountersAt s caps.plain nowMs
    if r.2.allowed then (r.1, .ok .admitted)
    else
      let metric :=
        ((r.2.exceededIndex.bind fun i => caps.counters[i]?).map Prod.fst).getD .requests
      (r.1, .ok (.capped (capLabel metric) r.2.retryAfterSecs))
  else if failClosed then (s, .error (limiterUnavailable "rate_limiter_unavailable"))
  else (s, .ok .admitted)

/-- The routes a selection skipped at their caps, and the cap that frees first. -/
structure CappedRoutes where
  routes : List Uuid
  soonest : Option (String × Int)
deriving DecidableEq, Repr

namespace CappedRoutes

def none : CappedRoutes := ⟨[], Option.none⟩

def add (c : CappedRoutes) (routeId : Uuid) (label : String) (retryAfterSecs : Int) :
    CappedRoutes where
  routes := c.routes ++ [routeId]
  soonest :=
    match c.soonest with
    | some (l, secs) =>
      if retryAfterSecs < secs then some (label, retryAfterSecs) else some (l, secs)
    | Option.none => some (label, retryAfterSecs)

def refusal (c : CappedRoutes) : Option GatewayError :=
  c.soonest.map fun l => rateLimited l.1 l.2

end CappedRoutes

/-! ## What an admission charges -/

section

variable {s : Redis} {t : Int} {cs : List Counter} {c : Counter}

/-- An allowed script adds each counter's charge to its live sum. -/
theorem liveSum_luaAdmit_allowed (hnd : (cs.map Counter.key).Nodup)
    (hw : ∀ c ∈ cs, 1 ≤ c.bucketSecs) (h : allowed (luaAdmit s t cs).2) (hc : c ∈ cs)
    (hcharge : 0 ≤ c.charge) :
    liveSum (luaAdmit s t cs).1 t c = liveSum s t c + c.charge := by
  unfold liveSum
  rw [hgetall_eq, hgetall_eq, luaAdmit_allowed_entry hnd hw h hc]
  simp only
  split
  next =>
    have hbucket := hw c hc
    rw [sumIn_chargeEntry, if_pos (by omega), sumIn_pruneEntry _ _ _ _ _ (le_refl _), if_pos]
    simp only [Field.inRange, Bool.and_eq_true, decide_eq_true_eq]
    omega
  next hzero =>
    have hzero : c.charge = 0 := by omega
    rw [sumIn_pruneEntry _ _ _ _ _ (le_refl _), hzero, Int.add_zero]

/-- A refused one changes none of them. -/
theorem liveSum_luaAdmit_refused (hnd : (cs.map Counter.key).Nodup)
    (h : ¬ allowed (luaAdmit s t cs).2) (hc : c ∈ cs) :
    liveSum (luaAdmit s t cs).1 t c = liveSum s t c := by
  unfold liveSum
  rw [hgetall_eq, hgetall_eq, luaAdmit_refused_entry hnd h hc,
    sumIn_pruneEntry _ _ _ _ _ (le_refl _)]

end

section

variable {s : Redis} {caps : RouteCaps} {c : Counter} {failClosed answers : Bool} {t : Int}

theorem counterKey_ne (routeId : Uuid) :
    counterKey routeId .requests ≠ counterKey routeId .tokens := by
  unfold counterKey
  rw [ne_eq, String.append_left_inj, String.append_left_inj, String.append_right_inj]
  decide

theorem RouteCaps.mem_plain : c ∈ caps.plain ↔
    (∃ cap, caps.rpm = some cap ∧ c = counter caps.routeId .requests 1 cap) ∨
      ∃ cap, caps.tpm = some cap ∧ c = counter caps.routeId .tokens 0 cap := by
  unfold plain counters
  cases caps.rpm <;> cases caps.tpm <;> simp

theorem RouteCaps.plain_nodup (caps : RouteCaps) : (caps.plain.map Counter.key).Nodup := by
  unfold plain counters
  cases caps.rpm <;> cases caps.tpm <;> simp [counter, counterKey_ne]

theorem RouteCaps.bucketSecs_of_mem (h : c ∈ caps.plain) : 1 ≤ c.bucketSecs := by
  have hsecs : 1 ≤ ThinkWatch.Gateway.bucketSecs capWindowSecs := by decide
  rcases mem_plain.mp h with ⟨cap, -, rfl⟩ | ⟨cap, -, rfl⟩
  · exact hsecs
  · exact hsecs

theorem RouteCaps.charge_of_mem (h : c ∈ caps.plain) : 0 ≤ c.charge := by
  rcases mem_plain.mp h with ⟨cap, -, rfl⟩ | ⟨cap, -, rfl⟩
  · exact Int.one_nonneg
  · exact Int.le_refl 0

/-- The reply parsed is the script's. -/
theorem allowed_parseAdmitReply (s : Redis) (t : Int) (cs : List Counter) :
    (parseAdmitReply (luaAdmit s t cs).2).allowed = true ↔ allowed (luaAdmit s t cs).2 := by
  unfold luaAdmit
  simp only
  split <;> simp [parseAdmitReply, allowed]

/-- What `admit_at` comes to when the store answers for a route with caps. -/
theorem admitAt_answers (s : Redis) (failClosed : Bool) (t : Int) (h : caps.counters ≠ []) :
    ((admitAt s true caps failClosed t).2 = .ok .admitted ∧
        allowed (luaAdmit s t caps.plain).2 ∨
      (∃ label secs, (admitAt s true caps failClosed t).2 = .ok (.capped label secs)) ∧
        ¬ allowed (luaAdmit s t caps.plain).2) ∧
      (admitAt s true caps failClosed t).1 = (luaAdmit s t caps.plain).1 := by
  have hne : caps.counters.isEmpty = false := by simpa using h
  have hne' : caps.plain.isEmpty = false := by simpa [RouteCaps.plain] using h
  unfold admitAt admitCountersAt
  simp only [hne, hne', Bool.false_eq_true, if_false, if_true]
  rw [← allowed_parseAdmitReply]
  cases (parseAdmitReply (luaAdmit s t caps.plain).2).allowed with
  | true => exact ⟨.inl ⟨rfl, rfl⟩, rfl⟩
  | false => exact ⟨.inr ⟨⟨_, _, rfl⟩, Bool.false_ne_true⟩, rfl⟩

/-- With the store answering, an admitted request is charged to each counter once. -/
theorem liveSum_of_admitted (h : (admitAt s true caps failClosed t).2 = .ok .admitted)
    (hc : c ∈ caps.plain) :
    liveSum (admitAt s true caps failClosed t).1 t c = liveSum s t c + c.charge := by
  have hne : caps.counters ≠ [] := by
    rintro he
    rw [RouteCaps.plain, he] at hc
    cases hc
  obtain ⟨hcases, hstore⟩ := admitAt_answers s failClosed t hne
  rcases hcases with ⟨-, hall⟩ | ⟨⟨label, secs, hcap⟩, -⟩
  · rw [hstore]
    exact liveSum_luaAdmit_allowed caps.plain_nodup (fun _ => RouteCaps.bucketSecs_of_mem) hall hc
      (RouteCaps.charge_of_mem hc)
  · rw [hcap] at h
    cases h

/-- A route found at its cap is charged nothing. -/
theorem liveSum_of_capped {label : String} {secs : Int}
    (h : (admitAt s answers caps failClosed t).2 = .ok (.capped label secs)) (hc : c ∈ caps.plain) :
    liveSum (admitAt s answers caps failClosed t).1 t c = liveSum s t c := by
  have hne : caps.counters ≠ [] := by
    rintro he
    rw [RouteCaps.plain, he] at hc
    cases hc
  cases answers with
  | false =>
    unfold admitAt at h
    rw [if_neg (by simpa using hne)] at h
    simp only [Bool.false_eq_true, if_false] at h
    split at h <;> cases h
  | true =>
    obtain ⟨hcases, hstore⟩ := admitAt_answers s failClosed t hne
    rcases hcases with ⟨hadm, -⟩ | ⟨-, hnot⟩
    · rw [hadm] at h
      cases h
    · rw [hstore]
      exact liveSum_luaAdmit_refused caps.plain_nodup hnot hc

/-- A refusal because the store does not answer leaves the store. -/
theorem admitAt_error {e : GatewayError} {s' : Redis}
    (h : admitAt s answers caps failClosed t = (s', .error e)) : s' = s := by
  unfold admitAt at h
  split at h
  next => cases h
  next =>
    split at h
    next =>
      simp only at h
      split at h <;> cases h
    next =>
      split at h
      · exact (congrArg Prod.fst h).symm
      · cases h

end

end ThinkWatch.Gateway
