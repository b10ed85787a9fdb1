import ThinkWatch.Gateway.Retry
import ThinkWatch.Gateway.RouteCaps
import ThinkWatch.Lib.Run
import ThinkWatch.Lib.WeightedPick

/-!
# Selection with failover

`pick_with_strategy`, `pin_to_holder`, `pick_admitted` and `select_route_with_failover` of
`crates/gateway/src/proxy/routing.rs`. One request's selection is a machine whose inputs are
what it reads from outside: the breakers, the affinity, the strategy's weights and the random
draw of a pick, the answer of the cap store, how an attempt ended, and the clock when a round is
over. The weights are of any type with an exact addition and a linear order. Other requests
change the cap store at any time.
-/

namespace ThinkWatch.Gateway

open Lib

/-! ## One pick -/

inductive BreakerState where
  | closed
  | opened
  | halfOpen
deriving DecidableEq, Repr

/-- `sealed::Pin`: where a request carrying sealed history may go. -/
inductive Pin where
  | only (provider : Uuid)
  | first (provider : Uuid)
deriving DecidableEq, Repr

def Pin.providerId : Pin → Uuid
  | only id => id
  | first id => id

def Pin.isOnly : Option Pin → Bool
  | some (.only _) => true
  | _ => false

inductive AffinityHit where
  | provider (id : Uuid)
  | route (id : Uuid)
deriving DecidableEq, Repr

def AffinityHit.covers : AffinityHit → RouteEntry → Bool
  | provider id, e => e.providerId == id
  | route id, e => e.routeId == id

/-- What a pick reads, by the candidate's position. -/
structure PickInput (K : Type*) where
  state : Nat → BreakerState
  weight : Nat → K
  affinity : Option AffinityHit
  draw : K

/-- A candidate during a pick. -/
structure Slot (K : Type*) where
  entry : RouteEntry
  state : BreakerState
  weight : K
  excluded : Bool

section Pick

variable {K : Type*}

/-- A candidate with what keeps it out: its breaker, this round's tries, its caps. -/
def slotAt (tried capped : List Uuid) (pin : Option Pin) (o : PickInput K) (i : Nat)
    (e : RouteEntry) : Slot K where
  entry := e
  state := o.state i
  weight := o.weight i
  excluded := (decide (o.state i = .opened) && !Pin.isOnly pin) || decide (e.providerId ∈ tried) ||
    decide (e.routeId ∈ capped)

def slots (group : List RouteEntry) (tried capped : List Uuid) (pin : Option Pin)
    (o : PickInput K) : List (Slot K) :=
  group.mapIdx (slotAt tried capped pin o)

/-- The other providers are out: always under `only`, under `first` while the holder is in. -/
def pinToHolder (pin : Option Pin) (xs : List (Slot K)) : List (Slot K) :=
  match pin with
  | none => xs
  | some pin =>
    let eligible := xs.any fun x => !x.excluded && x.entry.providerId == pin.providerId
    if !Pin.isOnly (some pin) && !eligible then xs
    else xs.map fun x =>
      if x.entry.providerId ≠ pin.providerId then { x with excluded := true } else x

variable [AddMonoid K] [LinearOrder K]

def Slot.masked (x : Slot K) : K := if x.excluded then 0 else x.weight

def pickWithStrategy (group : List RouteEntry) (tried capped : List Uuid) (pin : Option Pin)
    (o : PickInput K) : Option (Slot K) :=
  let xs := pinToHolder pin (slots group tried capped pin o)
  match o.affinity.bind fun hit => xs.find? fun x => !x.excluded && hit.covers x.entry with
  | some x => some x
  | none =>
    if totalWeight Slot.masked xs ≤ 0 then xs.find? fun x => !x.excluded
    else weightedWalk Slot.masked o.draw 0 xs

end Pick

/-! ## The machine -/

/-- What a selection is made for and with. -/
structure SelectionCtx where
  group : List RouteEntry
  modelId : String
  pin : Option Pin
  failClosed : Bool

/-- Where the selection stands: before a pass of `pick_admitted`, on an attempt, or after. -/
inductive Phase where
  | picking (passesLeft : Nat)
  | sending (entry : RouteEntry)
  | roundOver
  | finished (result : Except GatewayError RouteEntry)

/-- What happened in a round. -/
inductive Event where
  | capped (entry : RouteEntry)
  | sent (entry : RouteEntry)
  | failed (entry : RouteEntry) (e : GatewayError)
deriving DecidableEq, Repr

/--
The locals of `select_route_with_failover` and the cap store. `thisRound` and `earlier` record
what happened, newest first, in this round and in the rounds before it.
-/
structure Selection where
  redis : Limits.Redis
  tried : List Uuid
  capped : CappedRoutes
  transients : List Uuid
  lastError : Option GatewayError
  budget : Budget
  attempted : Bool
  attemptsLeft : Nat
  phase : Phase
  thisRound : List Event
  earlier : List (List Event)

/-- What the machine reads. -/
inductive Input (K : Type*) where
  | other (redis : Limits.Redis)
  | pass (o : PickInput K) (answers : Bool) (nowMs : Int)
  | answered
  | failed (e : GatewayError)
  | cut
  | roundOver (now : Int) (jitter : ℚ) (took : Int)

namespace Selection

variable {K : Type*}

/-- `for _ in 0..group.len()` of `pick_admitted`, with this many passes left. -/
def pickPhase : Nat → Phase
  | 0 => .roundOver
  | n + 1 => .picking (n + 1)

/-- `for _ in 0..candidates.len()` of a round: the next attempt starts with a pick. -/
def nextAttempt (s : Selection) (c : SelectionCtx) : Selection :=
  match s.attemptsLeft with
  | 0 => { s with phase := .roundOver }
  | n + 1 => { s with attemptsLeft := n, phase := pickPhase c.group.length }

/-- The start of a round. -/
def beginRound (s : Selection) (c : SelectionCtx) : Selection :=
  nextAttempt { s with attempted := false, attemptsLeft := c.group.length } c

def start (c : SelectionCtx) (redis : Limits.Redis) (budget : Budget) : Selection :=
  beginRound ⟨redis, [], .none, [], none, budget, false, 0, .roundOver, [], []⟩ c

/-- One pass of `pick_admitted`, which leaves `left` more; an admitted pick is sent. -/
def pass [AddMonoid K] [LinearOrder K] (s : Selection) (c : SelectionCtx) (o : PickInput K)
    (answers : Bool) (nowMs : Int) (left : Nat) : Selection :=
  match pickWithStrategy c.group s.tried s.capped.routes c.pin o with
  | none => { s with phase := .roundOver }
  | some x =>
    let r := admitAt s.redis answers (.of x.entry) c.failClosed nowMs
    match r.2 with
    -- the store does not answer, and the caps fail closed
    | .error e => { s with redis := r.1, phase := .finished (.error e) }
    | .ok .admitted =>
      { s with
        redis := r.1
        tried := s.tried ++ [x.entry.providerId]
        attempted := true
        phase := .sending x.entry
        thisRound := .sent x.entry :: s.thisRound }
    -- nothing is sent: the next pass leaves the route out
    | .ok (.capped label retryAfterSecs) =>
      { s with
        redis := r.1
        capped := s.capped.add x.entry.routeId label retryAfterSecs
        phase := pickPhase left
        thisRound := .capped x.entry :: s.thisRound }

/-- The attempt on `entry` ended in an error. -/
def fail (s : Selection) (c : SelectionCtx) (entry : RouteEntry) (e : GatewayError) : Selection :=
  if isUpstreamFailure e then
    nextAttempt
      { s with
        transients := s.transients.filter (fun p => p ≠ entry.providerId) ++
          (if isTransient e then [entry.providerId] else [])
        lastError := some e
        thisRound := .failed entry e :: s.thisRound } c
  -- every route would refuse the request the same way
  else { s with phase := .finished (.error e) }

/-- The error of an attempt cut at the hard deadline. -/
def cutError (s : Selection) (entry : RouteEntry) : GatewayError :=
  s.lastError.getD
    (.providerTimeout
      (entry.providerName ++ " did not answer within the gateway's request timeout"))

/-- The wait before another round, if there is one. -/
def retryWait (s : Selection) (now : Int) (jitter : ℚ) (took : Int) : Option Int :=
  match s.lastError with
  | some e =>
    if s.attempted && !s.transients.isEmpty then s.budget.waitAfterTaking now jitter e took
    else none
  | none => none

/-- The answer when no round is left. -/
def giveUp (s : Selection) (c : SelectionCtx) : GatewayError :=
  (s.lastError.or s.capped.refusal).getD
    (.providerError ("All routes failed for model: " ++ c.modelId))

/-- Another round, for the providers that failed for the moment. -/
def again (s : Selection) (c : SelectionCtx) : Selection :=
  beginRound
    { s with
      budget := s.budget.sent
      -- those that failed otherwise count as tried
      tried := (c.group.map RouteEntry.providerId).filter fun p => p ∉ s.transients
      capped := .none
      thisRound := []
      earlier := s.thisRound :: s.earlier } c

/-- Every candidate of the round is exhausted. -/
def endRound (s : Selection) (c : SelectionCtx) (now : Int) (jitter : ℚ) (took : Int) : Selection :=
  match s.retryWait now jitter took with
  | some _ => s.again c
  | none => { s with phase := .finished (.error (s.giveUp c)) }

end Selection

/-- The machine's steps. A draw comes from `[0, total)`. -/
inductive SelectionStep {K : Type*} [AddMonoid K] [LinearOrder K] (c : SelectionCtx) :
    Selection → Input K → Selection → Prop where
  | other (s : Selection) (redis : Limits.Redis) :
      SelectionStep c s (.other redis) { s with redis := redis }
  | pass {s : Selection} {left : Nat} (o : PickInput K) (answers : Bool) (nowMs : Int)
      (h : s.phase = .picking (left + 1)) (hdraw : 0 ≤ o.draw) :
      SelectionStep c s (.pass o answers nowMs) (s.pass c o answers nowMs left)
  | answered {s : Selection} {entry : RouteEntry} (h : s.phase = .sending entry) :
      SelectionStep c s .answered { s with phase := .finished (.ok entry) }
  | failed {s : Selection} {entry : RouteEntry} (e : GatewayError) (h : s.phase = .sending entry) :
      SelectionStep c s (.failed e) (s.fail c entry e)
  | cut {s : Selection} {entry : RouteEntry} {hard : Int} (h : s.phase = .sending entry)
      (hhard : s.budget.hard = some hard) :
      SelectionStep c s .cut { s with phase := .finished (.error (s.cutError entry)) }
  | roundOver {s : Selection} (now : Int) (jitter : ℚ) (took : Int) (h : s.phase = .roundOver) :
      SelectionStep c s (.roundOver now jitter took) (s.endRound c now jitter took)

/-! ## What a pick may be -/

section Pick

variable {K : Type*} {group : List RouteEntry} {tried capped : List Uuid} {pin : Option Pin}
  {o : PickInput K} {x : Slot K} {xs : List (Slot K)}

theorem mem_slots : x ∈ slots group tried capped pin o ↔
    ∃ i e, group[i]? = some e ∧ slotAt tried capped pin o i e = x := by
  simp only [slots, List.mem_iff_getElem?, List.getElem?_mapIdx, Option.map_eq_some_iff]

theorem slotAt_excluded {i : Nat} {e : RouteEntry} :
    (slotAt tried capped pin o i e).excluded = true ↔
      (o.state i = .opened ∧ Pin.isOnly pin = false) ∨ e.providerId ∈ tried ∨
        e.routeId ∈ capped := by
  simp only [slotAt, Bool.or_eq_true, Bool.and_eq_true, decide_eq_true_eq,
    Bool.not_eq_eq_eq_not, Bool.not_true, or_assoc]

/-- What the pin leaves in. -/
theorem pinToHolder_spec (h : x ∈ pinToHolder pin xs) (hx : x.excluded = false) :
    x ∈ xs ∧ (∀ p, pin = some (.only p) → x.entry.providerId = p) ∧
      ∀ p, pin = some (.first p) → x.entry.providerId = p ∨
        ∀ y ∈ xs, y.entry.providerId = p → y.excluded = true := by
  cases pin with
  | none => exact ⟨h, nofun, nofun⟩
  | some pin =>
    unfold pinToHolder at h
    simp only at h
    split at h
    next hnone =>
      simp only [Bool.and_eq_true, Bool.not_eq_eq_eq_not, Bool.not_true, List.any_eq_false,
        beq_iff_eq, not_and] at hnone
      refine ⟨h, fun p hp => ?_, fun p hp => .inr fun y hy hyp => ?_⟩
      · obtain rfl := Option.some.inj hp
        exact nomatch (show true = false from hnone.1)
      · obtain rfl := Option.some.inj hp
        by_contra hex
        exact hnone.2 y hy (Bool.eq_false_iff.mpr hex) hyp
    next =>
      obtain ⟨y, hy, rfl⟩ := List.mem_map.mp h
      split at hx
      next => cases hx
      next hprov =>
        rw [if_neg hprov]
        refine ⟨hy, fun p hp => ?_, fun p hp => .inl ?_⟩
        · obtain rfl := Option.some.inj hp
          exact not_not.mp hprov
        · obtain rfl := Option.some.inj hp
          exact not_not.mp hprov

/-- Whatever picks, the affinity, the walk or the fallback, the pick is not excluded. -/
theorem pickWithStrategy_spec [AddMonoid K] [LinearOrder K] (hdraw : 0 ≤ o.draw)
    (h : pickWithStrategy group tried capped pin o = some x) :
    x ∈ pinToHolder pin (slots group tried capped pin o) ∧ x.excluded = false := by
  unfold pickWithStrategy at h
  simp only at h
  split at h
  next y hy =>
    obtain rfl : y = x := Option.some.inj h
    obtain ⟨hit, -, hfind⟩ := Option.bind_eq_some_iff.mp hy
    have hp := List.find?_some hfind
    rw [Bool.and_eq_true, Bool.not_eq_true'] at hp
    exact ⟨List.mem_of_find?_eq_some hfind, hp.1⟩
  next =>
    split at h
    next =>
      have hp := List.find?_some h
      rw [Bool.not_eq_true'] at hp
      exact ⟨List.mem_of_find?_eq_some h, hp⟩
    next =>
      obtain ⟨hmem, hweight⟩ := weightedWalk_some (not_lt.mpr hdraw) h
      refine ⟨hmem, Bool.eq_false_iff.mpr fun hex => hweight ?_⟩
      rw [Slot.masked, hex, if_pos rfl]

/-- A draw below the total finds a candidate as long as one is left in. -/
theorem pickWithStrategy_ne_none [AddMonoid K] [LinearOrder K] (hdraw : 0 ≤ o.draw)
    (hbelow : ∀ total, totalWeight Slot.masked (pinToHolder pin (slots group tried capped pin o)) =
      total → 0 < total → o.draw < total)
    (h : x ∈ pinToHolder pin (slots group tried capped pin o)) (hx : x.excluded = false) :
    pickWithStrategy group tried capped pin o ≠ none := by
  unfold pickWithStrategy
  simp only
  split
  next => exact Option.some_ne_none _
  next =>
    split
    next =>
      intro hnone
      have hout := List.find?_eq_none.mp hnone x h
      rw [hx] at hout
      exact hout rfl
    next hpos =>
      exact weightedWalk_ne_none (not_lt.mpr hdraw) (hbelow _ rfl (not_le.mp hpos))

end Pick

end ThinkWatch.Gateway
