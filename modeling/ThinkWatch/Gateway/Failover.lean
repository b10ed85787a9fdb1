import ThinkWatch.Gateway.Selection

/-!
# What a selection may do

Every send of `select_route_with_failover` obeys the pin, the breakers and the caps, and every
retry round follows from a failure of the moment. The four sources of exclusion, the providers
tried, the routes at their caps, the open breakers and the pin, are kept in different places and
reset differently; `Selection.Inv` says what each of them is in terms of what happened, the
events of this round and of the earlier ones.
-/

namespace ThinkWatch.Gateway

open Lib

/-! ## Reading the events -/

/-- The providers that were sent to. -/
def sentTo : List Event → List Uuid
  | [] => []
  | .sent entry :: l => entry.providerId :: sentTo l
  | _ :: l => sentTo l

/-- The routes that were found at a cap. -/
def foundCapped : List Event → List Uuid
  | [] => []
  | .capped entry :: l => entry.routeId :: foundCapped l
  | _ :: l => foundCapped l

/-- The provider's latest failure. -/
def latestFailure (p : Uuid) : List Event → Option GatewayError
  | [] => none
  | .failed entry e :: l => if entry.providerId = p then some e else latestFailure p l
  | _ :: l => latestFailure p l

/-- The latest failure of any. -/
def lastFailure : List Event → Option GatewayError
  | [] => none
  | .failed _ e :: _ => some e
  | _ :: l => lastFailure l

/-- The provider's latest failure was for the moment. -/
def FailedForTheMoment (p : Uuid) (l : List Event) : Prop :=
  ∃ e, latestFailure p l = some e ∧ isTransient e = true

section

variable {p : Uuid} {entry : RouteEntry} {e : GatewayError} {l l' : List Event}

@[simp] theorem sentTo_sent : sentTo (.sent entry :: l) = entry.providerId :: sentTo l := rfl
@[simp] theorem sentTo_capped : sentTo (.capped entry :: l) = sentTo l := rfl
@[simp] theorem sentTo_failed : sentTo (.failed entry e :: l) = sentTo l := rfl
@[simp] theorem foundCapped_capped :
    foundCapped (.capped entry :: l) = entry.routeId :: foundCapped l := rfl
@[simp] theorem foundCapped_sent : foundCapped (.sent entry :: l) = foundCapped l := rfl
@[simp] theorem foundCapped_failed : foundCapped (.failed entry e :: l) = foundCapped l := rfl
@[simp] theorem latestFailure_sent : latestFailure p (.sent entry :: l) = latestFailure p l := rfl
@[simp] theorem latestFailure_capped :
    latestFailure p (.capped entry :: l) = latestFailure p l := rfl
@[simp] theorem latestFailure_failed : latestFailure p (.failed entry e :: l) =
    if entry.providerId = p then some e else latestFailure p l := rfl
@[simp] theorem lastFailure_sent : lastFailure (.sent entry :: l) = lastFailure l := rfl
@[simp] theorem lastFailure_capped : lastFailure (.capped entry :: l) = lastFailure l := rfl
@[simp] theorem lastFailure_failed : lastFailure (.failed entry e :: l) = some e := rfl

theorem lastFailure_append (h : lastFailure l = some e) : lastFailure (l ++ l') = some e := by
  induction l with
  | nil => cases h
  | cons a l ih =>
    cases a with
    | failed _ _ => exact h
    | sent _ => exact ih h
    | capped _ => exact ih h

/-- Failures come from providers that were sent to. -/
def FailuresSent (l : List Event) : Prop :=
  ∀ entry e, Event.failed entry e ∈ l → entry.providerId ∈ sentTo l

/-- A provider that was not sent to keeps its earlier failure. -/
theorem latestFailure_append (h : ∀ entry e, Event.failed entry e ∈ l → entry.providerId ≠ p) :
    latestFailure p (l ++ l') = latestFailure p l' := by
  induction l with
  | nil => rfl
  | cons a l ih =>
    have ih := ih fun entry e hmem => h entry e (List.mem_cons_of_mem _ hmem)
    cases a with
    | failed entry e =>
      rw [List.cons_append, latestFailure_failed, if_neg (h entry e List.mem_cons_self), ih]
    | sent _ => rw [List.cons_append, latestFailure_sent, ih]
    | capped _ => rw [List.cons_append, latestFailure_capped, ih]

end

/-! ## What is lawful -/

namespace Selection

/-- All that happened, newest first. -/
def history (s : Selection) : List Event := s.thisRound ++ s.earlier.flatten

/-- The first round asks every provider, a retry round those that failed for the moment. -/
def Asked (s : Selection) (p : Uuid) : Prop :=
  s.earlier = [] ∨ FailedForTheMoment p s.earlier.flatten

end Selection

variable {K : Type*} {c : SelectionCtx} {s s' : Selection} {o : PickInput K} {answers : Bool}
  {nowMs : Int}

/-- What holds when the candidate at position `i` is sent to. -/
structure SendLawful (c : SelectionCtx) (s s' : Selection) (o : PickInput K) (answers : Bool)
    (nowMs : Int) (i : Nat) (entry : RouteEntry) : Prop where
  candidate : c.group[i]? = some entry
  only : ∀ p, c.pin = some (.only p) → entry.providerId = p
  /-- Another provider than the holder: each route of the holder is out. -/
  first : ∀ p, c.pin = some (.first p) → entry.providerId ≠ p →
    ∀ j e, c.group[j]? = some e → e.providerId = p →
      o.state j = .opened ∨ e.routeId ∈ foundCapped s.thisRound ∨ p ∈ sentTo s.thisRound ∨
        ¬ s.Asked p
  once : entry.providerId ∉ sentTo s.thisRound
  breaker : o.state i = .opened → Pin.isOnly c.pin = true
  underCaps : entry.routeId ∉ foundCapped s.thisRound
  /-- The request cap is charged one, and the token cap nothing. -/
  charged : answers = true → ∀ counter ∈ (RouteCaps.of entry).plain,
    Limits.liveSum s'.redis nowMs counter = Limits.liveSum s.redis nowMs counter + counter.charge
  asked : s.earlier ≠ [] → FailedForTheMoment entry.providerId s.history

/-- What holds when another round begins. -/
structure RetryLawful (s : Selection) (now : Int) (jitter : ℚ) (took : Int) : Prop where
  sent : sentTo s.thisRound ≠ []
  transient : ∃ e wait, lastFailure s.thisRound = some e ∧ isTransient e = true ∧
    s.budget.waitAfterTaking now jitter e took = some wait

/-- The law of a step. -/
def StepLawful (c : SelectionCtx) (s : Selection) (a : Input K) (s' : Selection) : Prop :=
  match a with
  | .other _ => s'.thisRound = s.thisRound ∧ s'.earlier = s.earlier
  | .pass o answers nowMs =>
    s'.earlier = s.earlier ∧
      ((s'.thisRound = s.thisRound ∧ s'.redis = s.redis) ∨
        (∃ i entry, s'.thisRound = .sent entry :: s.thisRound ∧
          SendLawful c s s' o answers nowMs i entry) ∨
        ∃ entry, s'.thisRound = .capped entry :: s.thisRound ∧
          ∀ counter ∈ (RouteCaps.of entry).plain,
            Limits.liveSum s'.redis nowMs counter = Limits.liveSum s.redis nowMs counter)
  | .roundOver now jitter took =>
    s'.redis = s.redis ∧
      ((s'.thisRound = s.thisRound ∧ s'.earlier = s.earlier) ∨
        (s'.thisRound = [] ∧ s'.earlier = s.thisRound :: s.earlier ∧
          RetryLawful s now jitter took))
  | _ => s'.redis = s.redis ∧ s'.earlier = s.earlier ∧ sentTo s'.thisRound = sentTo s.thisRound

/-! ## The invariant -/

/-- Between two attempts of a round. -/
def Phase.between : Phase → Bool
  | picking _ => true
  | roundOver => true
  | _ => false

/-- What the locals are in terms of what happened. -/
structure Selection.Inv (c : SelectionCtx) (s : Selection) : Prop where
  tried : ∀ e ∈ c.group,
    e.providerId ∈ s.tried ↔ e.providerId ∈ sentTo s.thisRound ∨ ¬ s.Asked e.providerId
  capped : ∀ r, r ∈ s.capped.routes ↔ r ∈ foundCapped s.thisRound
  transients : ∀ p, p ∈ s.transients ↔ FailedForTheMoment p s.history
  lastError : s.lastError = lastFailure s.history
  attempted : s.attempted = true ↔ sentTo s.thisRound ≠ []
  failuresSent : FailuresSent s.thisRound
  sending : ∀ entry, s.phase = .sending entry → entry.providerId ∈ sentTo s.thisRound
  settled : s.phase.between = true → sentTo s.thisRound ≠ [] →
    ∃ e, lastFailure s.thisRound = some e

namespace Selection.Inv

/-- A change of phase between two attempts. -/
theorem of_phase {phase : Phase} {n : Nat} (h : s.Inv c) (hs : s.phase.between = true)
    (hphase : phase.between = true) : Inv c { s with phase := phase, attemptsLeft := n } :=
  { h with
    sending := by
      rintro entry rfl
      cases hphase
    settled := fun _ => h.settled hs }

/-- The end of the selection. -/
theorem finish {result : Except GatewayError RouteEntry} (h : s.Inv c) :
    Inv c { s with phase := .finished result } :=
  { h with
    sending := nofun
    settled := nofun }

theorem of_redis {redis : Limits.Redis} (h : s.Inv c) : Inv c { s with redis := redis } :=
  { h with }

end Selection.Inv

namespace Selection

theorem between_pickPhase (n : Nat) : (pickPhase n).between = true := by
  cases n <;> rfl

theorem Inv.nextAttempt (h : s.Inv c) (hs : s.phase.between = true) : (s.nextAttempt c).Inv c := by
  unfold Selection.nextAttempt
  split
  · exact h.of_phase hs rfl
  · exact h.of_phase hs (between_pickPhase _)

theorem Inv.beginRound (h : Inv c { s with attempted := false }) (hs : s.phase.between = true) :
    (s.beginRound c).Inv c := by
  have hround : Inv c { s with attempted := false, attemptsLeft := c.group.length } := { h with }
  exact hround.nextAttempt hs

theorem inv_start (c : SelectionCtx) (redis : Limits.Redis) (budget : Budget) :
    (start c redis budget).Inv c := by
  refine Inv.beginRound (s := ⟨redis, [], .none, [], none, budget, false, 0, .roundOver, [], []⟩)
    ?_ rfl
  exact
    { tried := fun e _ => by simp [sentTo, Asked]
      capped := fun r => by simp [CappedRoutes.none, foundCapped]
      transients := fun p => by simp [FailedForTheMoment, history, latestFailure]
      lastError := by simp [history, lastFailure]
      attempted := by simp [sentTo]
      failuresSent := by simp [FailuresSent]
      sending := nofun
      settled := fun _ h => absurd rfl h }

end Selection

/-! ## The steps -/

namespace Selection

variable {entry : RouteEntry} {e : GatewayError} {left : Nat}

/-- A provider's failure changes its own entry in `transient` only. -/
theorem mem_transients_fail {p : Uuid} (h : s.Inv c) :
    p ∈ s.transients.filter (fun q => q ≠ entry.providerId) ++
        (if isTransient e then [entry.providerId] else []) ↔
      FailedForTheMoment p (.failed entry e :: s.history) := by
  rw [List.mem_append, List.mem_filter, h.transients]
  unfold FailedForTheMoment
  rw [latestFailure_failed]
  by_cases hp : entry.providerId = p
  · subst hp
    cases ht : isTransient e <;> simp [ht]
  · have hp' : p ≠ entry.providerId := Ne.symm hp
    cases ht : isTransient e <;> simp [hp, hp']

theorem Inv.fail (h : s.Inv c) (hphase : s.phase = .sending entry) : (s.fail c entry e).Inv c := by
  unfold Selection.fail
  split
  next =>
    have hsent := h.sending entry hphase
    -- the phase is set by `nextAttempt`, so that of the state before it is free
    have hinv : Inv c { s with
        transients := s.transients.filter (fun p => p ≠ entry.providerId) ++
          (if isTransient e then [entry.providerId] else [])
        lastError := some e
        thisRound := .failed entry e :: s.thisRound
        phase := .roundOver } :=
      { h with
        transients := fun p => mem_transients_fail h
        lastError := rfl
        failuresSent := by
          intro entry' e' hmem
          rcases List.mem_cons.mp hmem with heq | hmem
          · cases heq
            exact hsent
          · exact h.failuresSent entry' e' hmem
        sending := nofun
        settled := fun _ _ => ⟨e, rfl⟩ }
    have hnext := hinv.nextAttempt rfl
    unfold Selection.nextAttempt at hnext ⊢
    cases hleft : s.attemptsLeft with
    | zero =>
      simp only [hleft] at hnext ⊢
      exact hnext
    | succ n =>
      simp only [hleft] at hnext ⊢
      exact hnext
  next => exact h.finish

/-- The providers of a retry round. -/
theorem Inv.again (h : s.Inv c) (hphase : s.phase = .roundOver) : (s.again c).Inv c := by
  have hflat : (s.thisRound :: s.earlier).flatten = s.history := List.flatten_cons
  have hhistory : [] ++ (s.thisRound :: s.earlier).flatten = s.history := by
    rw [hflat, List.nil_append]
  have htried : ∀ e ∈ c.group,
      e.providerId ∈ (c.group.map RouteEntry.providerId).filter (fun p => p ∉ s.transients) ↔
        ¬ FailedForTheMoment e.providerId s.history := by
    intro e he
    have hmem : e.providerId ∈ c.group.map RouteEntry.providerId := List.mem_map_of_mem he
    simp only [List.mem_filter, hmem, true_and, decide_eq_true_eq]
    rw [h.transients]
  have hinv : Inv c
      { redis := s.redis
        tried := (c.group.map RouteEntry.providerId).filter fun p => p ∉ s.transients
        capped := .none
        transients := s.transients
        lastError := s.lastError
        budget := s.budget.sent
        attempted := false
        attemptsLeft := s.attemptsLeft
        phase := s.phase
        thisRound := []
        earlier := s.thisRound :: s.earlier } :=
    { tried := fun e he => by
        rw [htried e he]
        simp only [sentTo, List.not_mem_nil, false_or, Asked, reduceCtorEq, hflat]
      capped := fun r => by simp [CappedRoutes.none, foundCapped]
      transients := by
        intro p
        rw [h.transients, ← hhistory]
        rfl
      lastError := by
        rw [h.lastError, ← hhistory]
        rfl
      attempted := by simp [sentTo]
      failuresSent := by simp [FailuresSent]
      sending := by
        rw [hphase]
        nofun
      settled := fun _ hne => absurd rfl hne }
  exact Inv.beginRound hinv (by rw [hphase]; rfl)

/-- A pick that is sent to is recorded as tried in this round. -/
theorem Inv.send {redis : Limits.Redis} (h : s.Inv c) :
    Inv c { s with
      redis := redis
      tried := s.tried ++ [entry.providerId]
      attempted := true
      phase := .sending entry
      thisRound := .sent entry :: s.thisRound } :=
  { h with
    tried := by
      intro e he
      rw [List.mem_append, List.mem_singleton, h.tried e he, sentTo_sent, List.mem_cons]
      unfold Asked
      tauto
    attempted := by simp
    failuresSent := by
      intro entry' e' hmem
      have hmem := (List.mem_cons.mp hmem).resolve_left nofun
      exact List.mem_cons_of_mem _ (h.failuresSent entry' e' hmem)
    sending := by
      intro entry' he
      cases he
      exact List.mem_cons_self
    settled := nofun }

/-- A pick found at its cap is recorded as such. -/
theorem Inv.cap {redis : Limits.Redis} {label : String} {secs : Int} (h : s.Inv c)
    (hs : s.phase.between = true) :
    Inv c { s with
      redis := redis
      capped := s.capped.add entry.routeId label secs
      phase := pickPhase left
      thisRound := .capped entry :: s.thisRound } :=
  { h with
    capped := by
      intro r
      rw [foundCapped_capped, List.mem_cons, ← h.capped, CappedRoutes.add, List.mem_append,
        List.mem_singleton]
      exact or_comm
    failuresSent := by
      intro entry' e' hmem
      exact h.failuresSent entry' e' ((List.mem_cons.mp hmem).resolve_left nofun)
    sending := by
      intro entry' he
      have hb := between_pickPhase left
      rw [show pickPhase left = .sending entry' from he] at hb
      cases hb
    settled := fun _ => h.settled hs }

/-- A pass finds nothing, is refused, sends, or finds a cap. -/
theorem pass_cases [AddMonoid K] [LinearOrder K] (s : Selection) (c : SelectionCtx)
    (o : PickInput K) (answers : Bool) (nowMs : Int) (left : Nat) :
    (s.pass c o answers nowMs left = { s with phase := .roundOver }) ∨
      ∃ x redis answer, pickWithStrategy c.group s.tried s.capped.routes c.pin o = some x ∧
        admitAt s.redis answers (.of x.entry) c.failClosed nowMs = (redis, answer) ∧
        ((∃ e, answer = .error e ∧ s.pass c o answers nowMs left =
            { s with redis := redis, phase := .finished (.error e) }) ∨
          (answer = .ok .admitted ∧ s.pass c o answers nowMs left =
            { s with
              redis := redis
              tried := s.tried ++ [x.entry.providerId]
              attempted := true
              phase := .sending x.entry
              thisRound := .sent x.entry :: s.thisRound }) ∨
          ∃ label secs, answer = .ok (.capped label secs) ∧ s.pass c o answers nowMs left =
            { s with
              redis := redis
              capped := s.capped.add x.entry.routeId label secs
              phase := pickPhase left
              thisRound := .capped x.entry :: s.thisRound }) := by
  unfold pass
  cases hp : pickWithStrategy c.group s.tried s.capped.routes c.pin o with
  | none => exact .inl rfl
  | some x =>
    cases hcaps : admitAt s.redis answers (.of x.entry) c.failClosed nowMs with
    | mk redis answer =>
      refine .inr ⟨x, redis, answer, rfl, hcaps, ?_⟩
      simp only [hcaps]
      cases answer with
      | error e => exact .inl ⟨e, rfl, rfl⟩
      | ok admission =>
        cases admission with
        | admitted => exact .inr (.inl ⟨rfl, rfl⟩)
        | capped label secs => exact .inr (.inr ⟨label, secs, rfl, rfl⟩)

/-- Every step keeps the invariant. -/
theorem inv_step [AddMonoid K] [LinearOrder K] {a : Input K} (h : s.Inv c)
    (hstep : SelectionStep c s a s') : s'.Inv c := by
  cases hstep with
  | other redis => exact h.of_redis
  | pass o answers nowMs hphase hdraw =>
    rename_i left
    have hs : s.phase.between = true := by rw [hphase]; rfl
    obtain heq | ⟨x, redis, answer, -, -, ⟨e, -, heq⟩ | ⟨-, heq⟩ | ⟨label, secs, -, heq⟩⟩ :=
      s.pass_cases c o answers nowMs left
    · rw [heq]
      exact h.of_phase (n := s.attemptsLeft) hs rfl
    · rw [heq]
      exact h.of_redis.finish
    · rw [heq]
      exact h.send
    · rw [heq]
      exact h.cap hs
  | answered hphase => exact h.finish
  | failed e hphase => exact h.fail hphase
  | cut hphase hhard => exact h.finish
  | roundOver now jitter took hphase =>
    unfold endRound
    split
    · exact h.again hphase
    · exact h.finish

/-! ## The law -/

/-- A provider that this round has not sent to keeps the failure it had before. -/
theorem Inv.latestFailure_history {p : Uuid} (h : s.Inv c) (hp : p ∉ sentTo s.thisRound) :
    latestFailure p s.history = latestFailure p s.earlier.flatten :=
  latestFailure_append fun entry' e' hmem he => hp (he ▸ h.failuresSent entry' e' hmem)

/-- An admitted pick is lawful. -/
theorem Inv.send_lawful [AddMonoid K] [LinearOrder K] {x : Slot K} {redis : Limits.Redis}
    (h : s.Inv c) (hdraw : 0 ≤ o.draw)
    (hpick : pickWithStrategy c.group s.tried s.capped.routes c.pin o = some x)
    (hcaps : admitAt s.redis answers (.of x.entry) c.failClosed nowMs = (redis, .ok .admitted))
    (s' : Selection) (hredis : s'.redis = redis) :
    ∃ i, SendLawful c s s' o answers nowMs i x.entry := by
  obtain ⟨hmem, hex⟩ := pickWithStrategy_spec hdraw hpick
  obtain ⟨hslot, honly, hfirst⟩ := pinToHolder_spec hmem hex
  obtain ⟨i, e, hi, rfl⟩ := mem_slots.mp hslot
  have he : e ∈ c.group := List.mem_of_getElem? hi
  -- none of the exclusions holds of the pick itself
  have hin := mt slotAt_excluded.mpr (Bool.eq_false_iff.mp hex)
  rw [not_or, not_or, not_and, h.tried e he, not_or, not_not] at hin
  obtain ⟨hstate, ⟨hnotsent, hasked⟩, hcap⟩ := hin
  refine ⟨i, hi, honly, fun p hp hne j e' hj hprov => ?_, hnotsent, fun hopen => ?_, ?_, ?_, ?_⟩
  · have hout := (hfirst p hp).resolve_left hne _ (mem_slots.mpr ⟨j, e', hj, rfl⟩) hprov
    rw [slotAt_excluded, h.tried e' (List.mem_of_getElem? hj), h.capped] at hout
    subst hprov
    tauto
  · exact Bool.not_eq_false _ ▸ hstate hopen
  · rwa [h.capped] at hcap
  · rintro rfl counter hcounter
    have hadm := congrArg Prod.snd hcaps
    have hstore := congrArg Prod.fst hcaps
    simp only at hadm hstore
    rw [hredis, ← hstore]
    exact liveSum_of_admitted hadm hcounter
  · intro hretry
    unfold FailedForTheMoment
    change ∃ e', latestFailure e.providerId s.history = some e' ∧ isTransient e' = true
    rw [h.latestFailure_history hnotsent]
    exact hasked.resolve_left hretry

/-- A round follows only a round that sent something and failed for the moment. -/
theorem Inv.retry_lawful {now took wait : Int} {jitter : ℚ} (h : s.Inv c)
    (hphase : s.phase = .roundOver) (hwait : s.retryWait now jitter took = some wait) :
    RetryLawful s now jitter took := by
  unfold retryWait at hwait
  cases hlast : s.lastError with
  | none =>
    rw [hlast] at hwait
    cases hwait
  | some e =>
    rw [hlast] at hwait
    simp only at hwait
    split at hwait
    next hatt =>
      rw [Bool.and_eq_true, h.attempted] at hatt
      obtain ⟨e', he'⟩ := h.settled (by rw [hphase]; rfl) hatt.1
      have hsame : e' = e := by
        have := (lastFailure_append he').symm.trans (h.lastError.symm.trans hlast)
        exact Option.some.inj this
      subst hsame
      exact ⟨hatt.1, _, wait, he', Budget.isTransient_of_waitAfterTaking hwait, hwait⟩
    next => cases hwait

theorem nextAttempt_redis (s : Selection) (c : SelectionCtx) :
    (s.nextAttempt c).redis = s.redis ∧ (s.nextAttempt c).thisRound = s.thisRound ∧
      (s.nextAttempt c).earlier = s.earlier := by
  unfold nextAttempt
  split <;> exact ⟨rfl, rfl, rfl⟩

theorem fail_redis (s : Selection) (c : SelectionCtx) (entry : RouteEntry) (e : GatewayError) :
    (s.fail c entry e).redis = s.redis ∧ (s.fail c entry e).earlier = s.earlier ∧
      sentTo (s.fail c entry e).thisRound = sentTo s.thisRound := by
  unfold fail
  split
  · obtain ⟨h₁, h₂, h₃⟩ := nextAttempt_redis { s with
      transients := s.transients.filter (fun p => p ≠ entry.providerId) ++
        (if isTransient e then [entry.providerId] else [])
      lastError := some e
      thisRound := .failed entry e :: s.thisRound } c
    exact ⟨h₁, h₃, by rw [h₂, sentTo_failed]⟩
  · exact ⟨rfl, rfl, rfl⟩

theorem Inv.step_lawful [AddMonoid K] [LinearOrder K] {a : Input K} (h : s.Inv c)
    (hstep : SelectionStep c s a s') : StepLawful c s a s' := by
  cases hstep with
  | other redis => exact ⟨rfl, rfl⟩
  | pass o answers nowMs hphase hdraw =>
    rename_i left
    obtain heq | ⟨x, redis, answer, hpick, hcaps, ⟨e, rfl, heq⟩ | ⟨rfl, heq⟩ |
      ⟨label, secs, rfl, heq⟩⟩ := s.pass_cases c o answers nowMs left
    · rw [heq]
      exact ⟨rfl, .inl ⟨rfl, rfl⟩⟩
    · rw [heq]
      refine ⟨rfl, .inl ⟨rfl, ?_⟩⟩
      exact admitAt_error hcaps
    · rw [heq]
      obtain ⟨i, hlaw⟩ := h.send_lawful hdraw hpick hcaps { s with
        redis := redis
        tried := s.tried ++ [x.entry.providerId]
        attempted := true
        phase := .sending x.entry
        thisRound := .sent x.entry :: s.thisRound } rfl
      exact ⟨rfl, .inr (.inl ⟨i, x.entry, rfl, hlaw⟩)⟩
    · rw [heq]
      refine ⟨rfl, .inr (.inr ⟨x.entry, rfl, fun counter hcounter => ?_⟩)⟩
      have hcap := congrArg Prod.snd hcaps
      have hstore := congrArg Prod.fst hcaps
      simp only at hcap hstore
      rw [← hstore]
      exact liveSum_of_capped hcap hcounter
  | answered hphase => exact ⟨rfl, rfl, rfl⟩
  | failed e hphase => exact fail_redis s c _ e
  | cut hphase hhard => exact ⟨rfl, rfl, rfl⟩
  | roundOver now jitter took hphase =>
    unfold endRound
    split
    next wait hwait =>
      obtain ⟨h₁, h₂, h₃⟩ := nextAttempt_redis { s with
        budget := s.budget.sent
        tried := (c.group.map RouteEntry.providerId).filter fun p => p ∉ s.transients
        capped := .none
        thisRound := []
        earlier := s.thisRound :: s.earlier
        attempted := false
        attemptsLeft := c.group.length } c
      exact ⟨h₁, .inr ⟨h₂, h₃, h.retry_lawful hphase hwait⟩⟩
    next => exact ⟨rfl, .inl ⟨rfl, rfl⟩⟩

end Selection

/--
On every run of the selection, every send obeys the pin, the breakers and the caps, a pick
found at its cap is charged nothing, and every retry round is one for failures of the moment.
-/
theorem selection_lawful [AddMonoid K] [LinearOrder K] (c : SelectionCtx) (redis : Limits.Redis)
    (budget : Budget) {inputs : List (Input K)}
    (run : Steps (SelectionStep c) (Selection.start c redis budget) inputs s) {a : Input K}
    (h : SelectionStep c s a s') : StepLawful c s a s' :=
  (run.invariant (fun _ _ _ hinv hstep => Selection.inv_step hinv hstep)
    (Selection.inv_start c redis budget)).step_lawful h

/-! ## A model with one route -/

def soleRoute : RouteEntry :=
  ⟨1, 10, "openai-eu", some "gpt-4o", 100, none, none, none, .openAiChat, []⟩

def soleCtx : SelectionCtx := ⟨[soleRoute], "gpt-4o", some (.first 1), false⟩

def quietPick : PickInput Nat := ⟨fun _ => .closed, fun _ => 100, none, 7⟩

/-- The upstream is overloaded and says to wait a second. -/
def overloaded : GatewayError := .providerHttpError 503 "overloaded" (some 1000)

/-- The first attempt has failed, a minute is allowed for retries. -/
def soleFailed : Selection :=
  ((Selection.start soleCtx Store.empty ⟨some 60000, none, 0⟩).pass soleCtx quietPick true 0 0).fail
    soleCtx soleRoute overloaded

/-- The retry round sends to the same route, lawfully. -/
theorem selection_lawful_sole : StepLawful soleCtx (soleFailed.endRound soleCtx 0 1 0)
    (.pass quietPick true 1000)
    ((soleFailed.endRound soleCtx 0 1 0).pass soleCtx quietPick true 1000 0) :=
  selection_lawful soleCtx Store.empty ⟨some 60000, none, 0⟩
    (.cons (.pass quietPick true 0 rfl (by decide))
      (.cons (.failed overloaded rfl) (.cons (.roundOver 0 1 0 rfl) (.nil _))))
    (.pass quietPick true 1000 rfl (by decide))

end ThinkWatch.Gateway
