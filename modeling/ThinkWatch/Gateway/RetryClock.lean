import Mathlib.Tactic.Linarith
import ThinkWatch.Gateway.Failover
import ThinkWatch.Gateway.OneAttempt

/-!
# Sending again ends in time

The loops that send again, that of `select_route_with_failover`
(`crates/gateway/src/proxy/routing.rs`) and the attempt loop of `build_chat_pump`
(`lifecycle/mod.rs`), against a clock. A step has an instant, no step goes back in time, and an
action that reads the clock reads that instant. Time passes where the code awaits, which is from a
step to the next; the backoff is spread by a fifth at most.

The selection sleeps at the instant it is granted a wait. The pump asks for its wait, then awaits
`Resend::admit`, and only then starts to wait: the deadline was checked for an earlier instant.
-/

namespace ThinkWatch.Gateway

open Lib

/-! ## A wait -/

/-- A wait before sending again. `took` is what the next attempt was expected to take. -/
structure Wait where
  granted : Int
  started : Int
  length : Int
  took : Int
deriving DecidableEq, Repr

namespace Wait

def ends (w : Wait) : Int := w.started + w.length

end Wait

/-- `random_range(0.8..=1.2)`. -/
def Spread (jitter : ℚ) : Prop := 4 / 5 ≤ jitter ∧ jitter ≤ 6 / 5

theorem two_secs_le_backoff (n : Nat) : 2000 ≤ backoff n := by
  have hpow : (1 : Int) ≤ 2 ^ (min (max n 1) 4 - 1) := one_le_pow₀ (by decide)
  unfold backoff
  omega

theorem minSaidWait_le {e : GatewayError} : ∀ d ∈ saidToWait e, minSaidWait ≤ d := by
  intro d hd
  unfold saidToWait at hd
  split at hd
  · split_ifs at hd
    · cases hd
    · obtain rfl := Option.some.inj hd
      exact le_max_right _ _
  · cases hd

namespace Budget

variable {b : Budget} {now took wait : Int} {jitter : ℚ}

/-- A granted wait is never shorter than the upstream's own word is held to. -/
theorem minSaidWait_le_of_waitAt {said : Option Int} (hspread : Spread jitter)
    (hsaid : ∀ d ∈ said, minSaidWait ≤ d) (h : b.waitAt now said jitter took = some wait) :
    minSaidWait ≤ wait := by
  have hwait : wait = said.getD ⌊backoff (b.retries + 1) * jitter⌋ := by
    unfold waitAt at h
    split at h
    · cases h
    · simp only at h
      split_ifs at h
      split at h
      · exact (Option.some.inj h).symm
      · split_ifs at h
        exact (Option.some.inj h).symm
  rw [hwait]
  cases said with
  | some d => exact hsaid d rfl
  | none =>
    rw [Option.getD_none]
    have hbackoff : (2000 : ℚ) ≤ (backoff (b.retries + 1) : Int) := by
      exact_mod_cast two_secs_le_backoff (b.retries + 1)
    refine Int.le_floor.mpr ?_
    rw [show ((minSaidWait : Int) : ℚ) = 250 from rfl]
    have := mul_le_mul hbackoff hspread.1 (by norm_num) (by linarith)
    linarith

/-- What a request is allowed: `retryWait` from its arrival, and a whole answer until `hard`. -/
def allowance (arrived retryWait : Int) (hard : Option Int) : Budget :=
  match hard with
  | some hard => (new arrived retryWait).within hard
  | none => new arrived retryWait

theorem hard_allowance (arrived retryWait : Int) (hard : Option Int) :
    (allowance arrived retryWait hard).hard = hard := by
  cases hard <;> rfl

theorem deadline_allowance {arrived retryWait d : Int} {hard : Option Int}
    (h : (allowance arrived retryWait hard).deadline = some d) : d = arrived + retryWait := by
  have hnew : (new arrived retryWait).deadline = some d := by
    cases hard <;> exact h
  unfold new at hnew
  simp only at hnew
  split_ifs at hnew
  exact (Option.some.inj hnew).symm

end Budget

/-! ## The selection against a clock -/

/-- An attempt that is over. -/
structure Attempt where
  began : Int
  ended : Int
deriving DecidableEq, Repr

/--
A selection, the instants it keeps and what the clock saw. `sentAt` is the instant of the last
pass, at which the attempt it admitted starts; `asleepUntil` is the end of the last wait.
-/
structure RoundClock where
  selection : Selection
  now : Int
  sentAt : Int
  lastTook : Int
  asleepUntil : Int
  waits : List Wait
  attempts : List Attempt

namespace RoundClock

variable {N : Type*}

def start (c : SelectionCtx) (redis : Limits.Redis) (budget : Budget) (now : Int) : RoundClock :=
  ⟨.start c redis budget, now, now, 0, now, [], []⟩

/-- A step to `s` at the instant `at_`. -/
def after (t : RoundClock) (at_ : Int) (s : Selection) : Input N → RoundClock
  | .other _ => { t with selection := s, now := at_ }
  | .pass _ _ _ => { t with selection := s, now := at_, sentAt := at_ }
  | .answered | .failed _ | .cut =>
    { t with
      selection := s
      now := at_
      lastTook := at_ - t.sentAt
      attempts := ⟨t.sentAt, at_⟩ :: t.attempts }
  | .roundOver _ jitter _ =>
    match t.selection.retryWait at_ jitter t.lastTook with
    | none => { t with selection := s, now := at_ }
    | some wait =>
      { t with
        selection := s
        now := at_
        asleepUntil := at_ + wait
        waits := ⟨at_, at_, wait, t.lastTook⟩ :: t.waits }

/-- Other requests act while this one sleeps. -/
def Input.isOther : Input N → Bool
  | .other _ => true
  | _ => false

/-- The instants an input reads. -/
def Reads (t : RoundClock) (at_ : Int) : Input N → Prop
  | .roundOver now jitter took => now = at_ ∧ took = t.lastTook ∧ Spread jitter
  | _ => True

structure Step [AddMonoid N] [LinearOrder N] (c : SelectionCtx) (t : RoundClock)
    (a : Int × Input N) (t' : RoundClock) : Prop where
  step : SelectionStep c t.selection a.2 t'.selection
  after : t' = t.after a.1 t'.selection a.2
  later : t.now ≤ a.1
  reads : t.Reads a.1 a.2
  asleep : Input.isOther a.2 = false → t.asleepUntil ≤ a.1
  /-- `timeout_at`: at the hard deadline the attempt under way is over. -/
  timeout : ∀ entry hard, t.selection.phase = .sending entry → t.selection.budget.hard = some hard →
    a.1 ≤ max t.sentAt hard
  cut : a.2 = .cut → ∀ hard, t.selection.budget.hard = some hard → hard ≤ a.1

/-- The rounds of a selection end in time. -/
structure InTime (arrived retryWait : Int) (hard : Option Int) (t : RoundClock) : Prop where
  floor : ∀ w ∈ t.waits, minSaidWait ≤ w.length
  deadline : ∀ w ∈ t.waits, w.ends ≤ arrived + retryWait
  room : ∀ w ∈ t.waits, ∀ h ∈ hard, w.ends + w.took ≤ h
  /-- A wait for each round but the first. -/
  rounds : t.selection.earlier.length = t.waits.length
  finite : minSaidWait * t.waits.length ≤ retryWait
  once : ∀ round ∈ t.selection.thisRound :: t.selection.earlier, (sentTo round).Nodup
  attempts : ∀ a ∈ t.attempts, ∀ h ∈ hard, a.ended ≤ max a.began h
  underWay : ∀ entry, t.selection.phase = .sending entry → ∀ h ∈ hard, t.now ≤ max t.sentAt h

end RoundClock

/-! ## What a step of the selection does -/

namespace Selection

variable {N : Type*} {c : SelectionCtx} {s s' : Selection}

/-- The allowance of the selection stays, but for the count of the retries. -/
def SameAllowance (s s' : Selection) : Prop :=
  s'.budget.deadline = s.budget.deadline ∧ s'.budget.hard = s.budget.hard

theorem budget_nextAttempt (s : Selection) (c : SelectionCtx) :
    (s.nextAttempt c).budget = s.budget := by
  unfold nextAttempt
  split <;> rfl

theorem budget_fail (s : Selection) (c : SelectionCtx) (entry : RouteEntry) (e : GatewayError) :
    (s.fail c entry e).budget = s.budget := by
  unfold fail
  split
  · exact budget_nextAttempt _ c
  · rfl

theorem sameAllowance_step [AddMonoid N] [LinearOrder N] {i : Input N}
    (h : SelectionStep c s i s') : s.SameAllowance s' := by
  cases h with
  | other redis => exact ⟨rfl, rfl⟩
  | pass o answers nowMs hphase hdraw =>
    obtain heq | ⟨x, redis, answer, -, -, ⟨e, -, heq⟩ | ⟨-, heq⟩ | ⟨label, secs, -, heq⟩⟩ :=
      s.pass_cases c o answers nowMs _
    all_goals
      rw [heq]
      exact ⟨rfl, rfl⟩
  | answered hphase => exact ⟨rfl, rfl⟩
  | failed e hphase =>
    rw [SameAllowance, budget_fail]
    exact ⟨rfl, rfl⟩
  | cut hphase hhard => exact ⟨rfl, rfl⟩
  | roundOver now jitter took hphase =>
    unfold endRound
    split
    · rw [SameAllowance, show (s.again c).budget = s.budget.sent from budget_nextAttempt _ c]
      exact ⟨rfl, rfl⟩
    · exact ⟨rfl, rfl⟩

/-- Each step keeps the sends of a round to one for a provider. -/
theorem nodup_step [AddMonoid N] [LinearOrder N] {i : Input N} (hinv : s.Inv c)
    (h : SelectionStep c s i s')
    (hnodup : ∀ round ∈ s.thisRound :: s.earlier, (sentTo round).Nodup) :
    ∀ round ∈ s'.thisRound :: s'.earlier, (sentTo round).Nodup := by
  have hlaw := hinv.step_lawful h
  have hthis := hnodup s.thisRound List.mem_cons_self
  have hearlier := fun round hr => hnodup round (List.mem_cons_of_mem _ hr)
  have hsame : s'.earlier = s.earlier → (sentTo s'.thisRound).Nodup →
      ∀ round ∈ s'.thisRound :: s'.earlier, (sentTo round).Nodup := by
    intro he hs round hround
    rcases List.mem_cons.mp hround with rfl | hround
    · exact hs
    · exact hearlier round (he ▸ hround)
  cases i with
  | other redis =>
    obtain ⟨h1, h2⟩ := hlaw
    exact hsame h2 (h1 ▸ hthis)
  | pass o answers nowMs =>
    obtain ⟨he, ⟨h1, -⟩ | ⟨j, entry, h1, hsend⟩ | ⟨entry, h1, -⟩⟩ := hlaw
    · exact hsame he (h1 ▸ hthis)
    · refine hsame he ?_
      rw [h1]
      exact List.nodup_cons.mpr ⟨hsend.once, hthis⟩
    · refine hsame he ?_
      rw [h1]
      exact hthis
  | answered | failed e | cut =>
    obtain ⟨-, he, hs⟩ := hlaw
    exact hsame he (hs ▸ hthis)
  | roundOver now jitter took =>
    obtain ⟨-, ⟨h1, h2⟩ | ⟨h1, h2, -⟩⟩ := hlaw
    · exact hsame h2 (h1 ▸ hthis)
    · intro round hround
      rw [h1, h2] at hround
      rcases List.mem_cons.mp hround with rfl | hround
      · exact List.nodup_nil
      · exact hnodup round hround

/-- A round is over with each wait. -/
theorem earlier_endRound (s : Selection) (c : SelectionCtx) (now took : Int) (jitter : ℚ) :
    (s.endRound c now jitter took).earlier.length =
      s.earlier.length + (s.retryWait now jitter took).toList.length := by
  unfold endRound
  cases s.retryWait now jitter took with
  | none => rfl
  | some wait => exact congrArg List.length (nextAttempt_redis _ c).2.2

theorem step_roundOver [AddMonoid N] [LinearOrder N] {now took : Int} {jitter : ℚ}
    (h : SelectionStep (K := N) c s (.roundOver now jitter took) s') :
    s' = s.endRound c now jitter took := by
  cases h
  rfl

theorem phase_other [AddMonoid N] [LinearOrder N] {redis : Limits.Redis}
    (h : SelectionStep (K := N) c s (.other redis) s') : s'.phase = s.phase := by
  cases h
  rfl

/-- The ends of an attempt. -/
def ended : Input N → Bool
  | .answered | .failed _ | .cut => true
  | _ => false

theorem sending_of_ended [AddMonoid N] [LinearOrder N] {i : Input N} (hi : ended i = true)
    (h : SelectionStep c s i s') : ∃ entry, s.phase = .sending entry := by
  cases h with
  | answered hphase | failed _ hphase | cut hphase => exact ⟨_, hphase⟩
  | other | pass | roundOver => cases hi

/-- A wait of the selection is granted by its budget. -/
theorem waitAfterTaking_of_retryWait {now took wait : Int} {jitter : ℚ}
    (h : s.retryWait now jitter took = some wait) :
    ∃ e, s.budget.waitAt now (saidToWait e) jitter took = some wait := by
  unfold retryWait at h
  split at h
  · next e he =>
    split_ifs at h
    unfold Budget.waitAfterTaking at h
    split_ifs at h
    exact ⟨e, h⟩
  · cases h

end Selection

namespace Selection

theorem between_nextAttempt (s : Selection) (c : SelectionCtx) :
    (s.nextAttempt c).phase.between = true := by
  unfold nextAttempt
  split
  · rfl
  · exact between_pickPhase _

/-- The end of a round sends nothing. -/
theorem phase_endRound (s : Selection) (c : SelectionCtx) (now took : Int) (jitter : ℚ)
    (entry : RouteEntry) : (s.endRound c now jitter took).phase ≠ .sending entry := by
  unfold endRound
  split
  · intro h
    have hbetween : (s.again c).phase.between = true := between_nextAttempt _ c
    rw [h] at hbetween
    cases hbetween
  · exact nofun

end Selection

/-! ## Every round is in time -/

namespace RoundClock

variable {N : Type*} {c : SelectionCtx} {arrived retryWait : Int} {hard : Option Int}
  {t t' : RoundClock}

structure Inv (c : SelectionCtx) (arrived retryWait : Int) (hard : Option Int) (t : RoundClock) :
    Prop extends t.InTime arrived retryWait hard where
  selection : t.selection.Inv c
  deadline_eq : t.selection.budget.deadline = (Budget.allowance arrived retryWait hard).deadline
  hard_eq : t.selection.budget.hard = hard
  /-- What the waits took is behind the clock, or behind the sleep under way. -/
  spent : arrived + minSaidWait * t.waits.length ≤ max t.now t.asleepUntil

theorem inv_start (c : SelectionCtx) (redis : Limits.Redis) {now : Int} (hwait : 0 ≤ retryWait)
    (hnow : arrived ≤ now) :
    (start c redis (.allowance arrived retryWait hard) now).Inv c arrived retryWait hard := by
  have hbudget : (Selection.start c redis (.allowance arrived retryWait hard)).budget =
      .allowance arrived retryWait hard := Selection.budget_nextAttempt _ c
  have hrounds := Selection.nextAttempt_redis ⟨redis, [], .none, [], none,
    .allowance arrived retryWait hard, false, c.group.length, .roundOver, [], []⟩ c
  obtain ⟨-, hthis, hearlier⟩ := hrounds
  exact {
    floor := nofun
    deadline := nofun
    room := nofun
    rounds := congrArg List.length hearlier
    finite := by
      show minSaidWait * 0 ≤ retryWait
      omega
    once := by
      show ∀ round ∈ (Selection.start c redis _).thisRound :: (Selection.start c redis _).earlier, _
      unfold Selection.start Selection.beginRound
      rw [hthis, hearlier]
      simp [sentTo]
    attempts := nofun
    underWay := fun _ _ _ _ => le_max_left _ _
    selection := Selection.inv_start c redis _
    deadline_eq := congrArg Budget.deadline hbudget
    hard_eq := (congrArg Budget.hard hbudget).trans (Budget.hard_allowance ..)
    spent := by
      show arrived + minSaidWait * 0 ≤ max now now
      omega }

/-- A step that starts no wait. -/
theorem Inv.quiet (h : t.Inv c arrived retryWait hard) (hsel : t'.selection.Inv c)
    (hsame : t.selection.SameAllowance t'.selection)
    (honce : ∀ round ∈ t'.selection.thisRound :: t'.selection.earlier, (sentTo round).Nodup)
    (hwaits : t'.waits = t.waits) (hasleep : t'.asleepUntil = t.asleepUntil)
    (hearlier : t'.selection.earlier = t.selection.earlier) (hnow : t.now ≤ t'.now)
    (hattempts : ∀ a ∈ t'.attempts, ∀ h ∈ hard, a.ended ≤ max a.began h)
    (hunder : ∀ entry, t'.selection.phase = .sending entry → ∀ h ∈ hard, t'.now ≤ max t'.sentAt h) :
    t'.Inv c arrived retryWait hard where
  floor := hwaits ▸ h.floor
  deadline := hwaits ▸ h.deadline
  room := hwaits ▸ h.room
  rounds := by rw [hearlier, hwaits, h.rounds]
  finite := hwaits ▸ h.finite
  once := honce
  attempts := hattempts
  underWay := hunder
  selection := hsel
  deadline_eq := hsame.1.trans h.deadline_eq
  hard_eq := hsame.2.trans h.hard_eq
  spent := by
    rw [hwaits, hasleep]
    exact h.spent.trans (max_le_max_right _ hnow)

/-- A round that is followed by another one: the wait is granted and starts at once. -/
theorem Inv.sleeps (h : t.Inv c arrived retryWait hard) {at_ wait : Int} {jitter : ℚ}
    (hspread : Spread jitter) (hlater : t.now ≤ at_) (hasleep : t.asleepUntil ≤ at_)
    (hwait : t.selection.retryWait at_ jitter t.lastTook = some wait) :
    minSaidWait ≤ wait ∧ at_ + wait ≤ arrived + retryWait ∧
      (∀ h ∈ hard, at_ + wait + t.lastTook ≤ h) ∧
      arrived + minSaidWait * t.waits.length ≤ at_ := by
  obtain ⟨e, he⟩ := Selection.waitAfterTaking_of_retryWait hwait
  obtain ⟨⟨d, hd, hfits⟩, hroom⟩ := Budget.fits_of_waitAt he
  rw [h.deadline_eq] at hd
  rw [h.hard_eq] at hroom
  rw [Budget.deadline_allowance hd] at hfits
  exact ⟨Budget.minSaidWait_le_of_waitAt hspread minSaidWait_le he, hfits, hroom,
    h.spent.trans (max_le hlater hasleep)⟩

theorem Inv.roundOver [AddMonoid N] [LinearOrder N] (h : t.Inv c arrived retryWait hard)
    {at_ now took : Int} {jitter : ℚ}
    (hstep : Step (N := N) c t (at_, .roundOver now jitter took) t') :
    t'.Inv c arrived retryWait hard := by
  obtain ⟨rfl, rfl, hspread⟩ := hstep.reads
  have hlater : t.now ≤ now := hstep.later
  have hsel := Selection.inv_step h.selection hstep.step
  have hsame := Selection.sameAllowance_step hstep.step
  have honce := Selection.nodup_step h.selection hstep.step h.once
  have hend := Selection.step_roundOver hstep.step
  have hearlier := Selection.earlier_endRound t.selection c now t.lastTook jitter
  have hphase : ∀ entry, t'.selection.phase ≠ .sending entry := fun entry =>
    hend ▸ Selection.phase_endRound t.selection c now t.lastTook jitter entry
  rw [← hend] at hearlier
  have hafter := hstep.after
  cases hw : t.selection.retryWait now jitter t.lastTook with
  | none =>
    simp only [after, hw] at hafter
    have hsame' : t'.selection.earlier = t.selection.earlier := by
      rw [hend]
      unfold Selection.endRound
      rw [hw]
    generalize t'.selection = s' at *
    subst hafter
    exact h.quiet hsel hsame honce rfl rfl hsame' hlater h.attempts
      fun entry hs => absurd hs (hphase entry)
  | some wait =>
    obtain ⟨hfloor, hdeadline, hroom, hspent⟩ :=
      h.sleeps hspread hlater (hstep.asleep rfl) hw
    simp only [after, hw] at hafter
    rw [hw] at hearlier
    generalize t'.selection = s' at *
    subst hafter
    have hwaits : ∀ P : Wait → Prop, P ⟨now, now, wait, t.lastTook⟩ → (∀ w ∈ t.waits, P w) →
        ∀ w ∈ (⟨now, now, wait, t.lastTook⟩ : Wait) :: t.waits, P w :=
      fun P hnew hold => List.forall_mem_cons.mpr ⟨hnew, hold⟩
    exact {
      floor := hwaits _ hfloor h.floor
      deadline := hwaits _ hdeadline h.deadline
      room := hwaits _ hroom h.room
      rounds := by rw [hearlier, h.rounds]; rfl
      finite := by
        rw [List.length_cons]
        push_cast
        linarith
      once := honce
      attempts := h.attempts
      underWay := fun entry hs => absurd hs (hphase entry)
      selection := hsel
      deadline_eq := hsame.1.trans h.deadline_eq
      hard_eq := hsame.2.trans h.hard_eq
      spent := by
        rw [List.length_cons]
        push_cast
        exact le_max_of_le_right (by linarith) }

/-- The end of an attempt. -/
theorem Inv.ended (h : t.Inv c arrived retryWait hard) {at_ : Int} {entry : RouteEntry}
    (hphase : t.selection.phase = .sending entry)
    (htimeout : ∀ entry hard, t.selection.phase = .sending entry →
      t.selection.budget.hard = some hard → at_ ≤ max t.sentAt hard) :
    (∀ a ∈ (⟨t.sentAt, at_⟩ : Attempt) :: t.attempts, ∀ h ∈ hard, a.ended ≤ max a.began h) ∧
      ∀ h ∈ hard, at_ ≤ max t.sentAt h := by
  have hnew : ∀ h ∈ hard, at_ ≤ max t.sentAt h := fun hard' hh =>
    htimeout entry hard' hphase (h.hard_eq.trans hh)
  exact ⟨List.forall_mem_cons.mpr ⟨hnew, h.attempts⟩, hnew⟩

theorem Inv.step [AddMonoid N] [LinearOrder N] (h : t.Inv c arrived retryWait hard)
    {a : Int × Input N} (hstep : Step c t a t') : t'.Inv c arrived retryWait hard := by
  obtain ⟨at_, i⟩ := a
  have hlater : t.now ≤ at_ := hstep.later
  have hsel := Selection.inv_step h.selection hstep.step
  have hsame := Selection.sameAllowance_step hstep.step
  have honce := Selection.nodup_step h.selection hstep.step h.once
  have hlaw := h.selection.step_lawful hstep.step
  have hafter := hstep.after
  have htimeout := hstep.timeout
  cases i with
  | other redis =>
    have hphase := Selection.phase_other hstep.step
    generalize t'.selection = s' at *
    subst hafter
    refine h.quiet hsel hsame honce rfl rfl hlaw.2 hlater h.attempts fun entry hs hard' hh => ?_
    exact htimeout entry hard' (hphase ▸ hs) (h.hard_eq.trans hh)
  | pass o answers nowMs =>
    generalize t'.selection = s' at *
    subst hafter
    exact h.quiet hsel hsame honce rfl rfl hlaw.1 hlater h.attempts fun _ _ _ _ => le_max_left _ _
  | answered | failed e | cut =>
    obtain ⟨entry, hphase⟩ := Selection.sending_of_ended rfl hstep.step
    obtain ⟨hattempts, hunder⟩ := h.ended hphase htimeout
    generalize t'.selection = s' at *
    subst hafter
    exact h.quiet hsel hsame honce rfl rfl hlaw.2.1 hlater hattempts fun _ _ => hunder
  | roundOver now jitter took => exact h.roundOver hstep

/-- In every run, the rounds of a selection are in time. -/
theorem inTime_of_run [AddMonoid N] [LinearOrder N] (hwait : 0 ≤ retryWait) {now : Int}
    (hnow : arrived ≤ now) {redis : Limits.Redis} {inputs : List (Int × Input N)}
    (hrun : Steps (Step c) (start c redis (.allowance arrived retryWait hard) now) inputs t) :
    t.InTime arrived retryWait hard :=
  (hrun.invariant (fun _ _ _ hinv hstep => hinv.step hstep) (inv_start c redis hwait hnow)).toInTime

end RoundClock

/-! ## What a step of the pump does -/

namespace Stream

variable {K : Codec} {c : StreamCtx K} {s s' : Pump K}

/-- An attempt is under way, or the body has ended. -/
def Phase.runs : Phase → Bool
  | unpolled | waiting | admitting _ _ _ | dropped => false
  | _ => true

namespace Pump

/-- The body goes on, or ends. -/
structure GoesOn (s s' : Pump K) : Prop where
  budget : s'.budget = s.budget
  opened : s'.opened = s.opened
  runs : s'.phase.runs = true

/-- A wait is granted, and `Resend::admit` begins. -/
structure Granted (s s' : Pump K) (now : Int) (jitter : ℚ) : Prop where
  budget : s'.budget = s.budget
  opened : s'.opened = s.opened
  asks : ∃ failed wait said, s'.phase = .admitting failed wait .snapshot ∧
    (∀ d ∈ said, minSaidWait ≤ d) ∧ s.budget.waitAt now said jitter 0 = some wait

theorem GoesOn.congr {s₁ : Pump K} (h : s₁.GoesOn s') (hbudget : s₁.budget = s.budget)
    (hopened : s₁.opened = s.opened) : s.GoesOn s' :=
  ⟨h.budget.trans hbudget, h.opened.trans hopened, h.runs⟩

theorem granted_of_outcome {now wait : Int} {jitter : ℚ} {errorTag : String} {status : Nat}
    {failed : Failed} (h : s.budget.waitAfterOutcome now jitter errorTag status = some wait)
    (hbudget : s'.budget = s.budget) (hopened : s'.opened = s.opened)
    (hphase : s'.phase = .admitting failed wait .snapshot) : s.Granted s' now jitter := by
  unfold Budget.waitAfterOutcome at h
  split_ifs at h
  exact ⟨hbudget, hopened, failed, wait, none, hphase, nofun, h⟩

theorem waitAfterOutcome_of_said {said : Said} {now wait : Int} {jitter : ℚ}
    (h : s.retryAfterSaid c said now jitter = some wait) :
    ∃ errorTag status, s.budget.waitAfterOutcome now jitter errorTag status = some wait := by
  unfold retryAfterSaid at h
  split at h
  · exact ⟨_, _, h⟩
  · cases h

theorem goesOn_finish : s.GoesOn (s.finish c) := by
  unfold finish
  simp only
  split
  next => exact ⟨rfl, rfl, rfl⟩
  next => split <;> exact ⟨rfl, rfl, rfl⟩

theorem goesOn_fail (message : String) (outcome : StreamOutcome) :
    s.GoesOn (s.fail c message outcome) := ⟨rfl, rfl, rfl⟩

theorem goesOn_receive (chunk : Bytes) (room : Bool) : s.GoesOn (s.receive c chunk room) := by
  cases room <;> exact ⟨rfl, rfl, rfl⟩

theorem goesOn_declined (failed : Failed) : s.GoesOn (s.declined c failed) := by
  cases failed <;> exact ⟨rfl, rfl, rfl⟩

theorem goesOn_deliver (chunk : Bytes) (next : Next) : s.GoesOn (s.deliver c chunk next) := by
  unfold deliver
  simp only
  split
  next => exact ⟨rfl, rfl, rfl⟩
  next =>
    split
    next =>
      cases next with
      | pull => exact ⟨rfl, rfl, rfl⟩
      | finish => exact goesOn_finish.congr rfl rfl
      | fail message outcome => exact ⟨rfl, rfl, rfl⟩
    next => cases next <;> exact ⟨rfl, rfl, rfl⟩

theorem goesOn_afterOpen (answer : Except GatewayError (Wire K)) (now : Int) (jitter : ℚ) :
    s.GoesOn (s.afterOpen c answer now jitter) ∨
      s.Granted (s.afterOpen c answer now jitter) now jitter := by
  unfold afterOpen
  cases answer with
  | ok wire => exact .inl ⟨rfl, rfl, rfl⟩
  | error e =>
    simp only
    split
    next wait hw =>
      unfold Budget.waitAfter Budget.waitAfterTaking at hw
      split_ifs at hw
      exact .inr ⟨rfl, rfl, _, wait, saidToWait e, rfl, minSaidWait_le, hw⟩
    next => exact .inl ⟨rfl, rfl, rfl⟩

theorem goesOn_streamEnded (now : Int) (jitter : ℚ) :
    s.GoesOn (s.streamEnded c now jitter) ∨ s.Granted (s.streamEnded c now jitter) now jitter := by
  unfold streamEnded
  split
  next => exact .inl goesOn_finish
  next =>
    simp only
    split
    next wait hw =>
      obtain ⟨said, -, hsaid⟩ := Option.bind_eq_some_iff.mp hw
      obtain ⟨tag, status, hout⟩ := waitAfterOutcome_of_said hsaid
      exact .inr (granted_of_outcome hout rfl rfl rfl)
    next => exact .inl ⟨rfl, rfl, rfl⟩

theorem goesOn_broke (message : String) (outcome : StreamOutcome) (now : Int) (jitter : ℚ) :
    s.GoesOn (s.broke c message outcome now jitter) ∨
      s.Granted (s.broke c message outcome now jitter) now jitter := by
  unfold broke
  split
  next => exact .inl (goesOn_fail message outcome)
  next =>
    simp only
    split
    next wait hw =>
      split at hw
      next => exact .inr (granted_of_outcome hw rfl rfl rfl)
      next => cases hw
    next => exact .inl ⟨rfl, rfl, rfl⟩

theorem goesOn_pull (item : Option (Except String Bytes)) (room : Bool) (now : Int) (jitter : ℚ) :
    s.GoesOn (s.pull c item room now jitter) ∨
      s.Granted (s.pull c item room now jitter) now jitter := by
  unfold pull
  split
  next => exact goesOn_streamEnded now jitter
  next => exact goesOn_broke _ _ now jitter
  next raw =>
    split
    next => exact .inl (goesOn_receive raw room)
    next =>
      split
      next => exact .inl ((goesOn_receive _ room).congr rfl rfl)
      next => exact goesOn_broke _ _ now jitter

theorem goesOn_read (chunk : Bytes) (now : Int) (jitter : ℚ) :
    s.GoesOn (s.read c chunk now jitter) ∨ s.Granted (s.read c chunk now jitter) now jitter := by
  unfold read
  simp only
  split
  next => exact .inl ⟨rfl, rfl, rfl⟩
  next =>
    split
    next => exact .inl ⟨rfl, rfl, rfl⟩
    next =>
      split
      next => exact .inl ⟨rfl, rfl, rfl⟩
      next =>
        split
        next => exact .inl ⟨rfl, rfl, rfl⟩
        next =>
          split
          next wait hw =>
            obtain ⟨tag, status, hout⟩ := waitAfterOutcome_of_said hw
            exact .inr (granted_of_outcome hout rfl rfl rfl)
          next => exact .inl ⟨rfl, rfl, rfl⟩

/-- The clock's reading and the spread an action is given. -/
def readings : Action K → Option (Int × ℚ)
  | .opened _ now jitter | .pull _ _ now jitter | .read now jitter => some (now, jitter)
  | _ => none

/-- A step, by what it does to the attempts and the waits. -/
inductive Turn (c : StreamCtx K) (s : Pump K) : Action K → Pump K → Prop where
  | begins {a : Action K} (at_ : s.phase = .unpolled ∨ s.phase = .waiting ∧ a = .wake) :
      Turn c s a s.goOut
  | goesOn {a : Action K} {s' : Pump K} (goes : s.GoesOn s') (fresh : a ≠ .recorded)
      (at_ : s.phase.runs = true ∨ ∃ failed wait stage, s.phase = .admitting failed wait stage) :
      Turn c s a s'
  | grants {a : Action K} {s' : Pump K} {now : Int} {jitter : ℚ} (at_ : s.phase.runs = true)
      (reads : readings a = some (now, jitter)) (granted : s.Granted s' now jitter) : Turn c s a s'
  | admits {a : Action K} {failed : Failed} {wait : Int} {stage stage' : Admitting}
      {samples : List Sample} (at_ : s.phase = .admitting failed wait stage)
      (later : stage' ≠ .snapshot) (fresh : a ≠ .recorded) :
      Turn c s a { s with phase := .admitting failed wait stage', samples := samples }
  | recorded {failed : Failed} {wait : Int} {ran : Bool}
      (at_ : s.phase = .admitting failed wait (.recording ran)) : Turn c s .recorded s.resending
  | tick (at_ : s.phase = .waiting) : Turn c s .tick s.tick
  | drop : Turn c s .drop { s with phase := .dropped }
  | tail {ran : Bool} (ended : (∃ ending, s.phase = .returned ending) ∨ s.phase = .dropped) :
      Turn c s (.tail ran) (s.tail c ran)

theorem turn_goesOn {a : Action K} {phase : Phase} (at_ : s.phase = phase)
    (hruns : phase.runs = true) (hfresh : a ≠ .recorded) (h : s.GoesOn s') : Turn c s a s' :=
  .goesOn h hfresh (.inl (at_ ▸ hruns))

/-- A step that reads the clock. -/
theorem turn_reads {a : Action K} {phase : Phase} {now : Int} {jitter : ℚ} (at_ : s.phase = phase)
    (hruns : phase.runs = true) (hreads : readings a = some (now, jitter)) (hfresh : a ≠ .recorded)
    (h : s.GoesOn s' ∨ s.Granted s' now jitter) : Turn c s a s' :=
  h.elim (turn_goesOn at_ hruns hfresh) (.grants (at_ ▸ hruns) hreads)

theorem step_turn {a : Action K} (h : Step c s a s') : Turn c s a s' := by
  cases h with
  | poll at_ => exact .begins (.inl at_)
  | wake at_ => exact .begins (.inr ⟨at_, rfl⟩)
  | tickWaiting at_ => exact .tick at_
  | tickOpening at_ => exact turn_goesOn at_ rfl nofun ⟨rfl, rfl, at_ ▸ rfl⟩
  | tickPulling at_ => exact turn_goesOn at_ rfl nofun ⟨rfl, rfl, at_ ▸ rfl⟩
  | opened at_ => exact turn_reads at_ rfl rfl nofun (goesOn_afterOpen ..)
  | pull at_ => exact turn_reads at_ rfl rfl nofun (goesOn_pull ..)
  | fast at_ => exact turn_goesOn at_ rfl nofun ⟨rfl, rfl, at_ ▸ rfl⟩
  | slow at_ => exact turn_goesOn at_ rfl nofun ⟨rfl, rfl, rfl⟩
  | read at_ => exact turn_reads at_ rfl rfl nofun (goesOn_read ..)
  | deliver at_ => exact turn_goesOn at_ rfl nofun (goesOn_deliver ..)
  | finish at_ => exact turn_goesOn at_ rfl nofun goesOn_finish
  | fail at_ => exact turn_goesOn at_ rfl nofun (goesOn_fail ..)
  | shut at_ => exact .goesOn (goesOn_declined _) nofun (.inr ⟨_, _, _, at_⟩)
  | capped at_ => exact .goesOn (goesOn_declined _) nofun (.inr ⟨_, _, _, at_⟩)
  | snapshot at_ => exact .admits at_ nofun nofun
  | admitted at_ => exact .admits at_ nofun nofun
  | record at_ => exact .admits at_ nofun nofun
  | recorded at_ => exact .recorded at_
  | drop => exact .drop
  | tail ended => exact .tail ended

end Pump

end Stream

/-! ## The pump against a clock -/

/-- A pump and what the clock saw. `granted` is the instant the last wait was granted at. -/
structure PumpClock (K : Stream.Codec) where
  pump : Stream.Pump K
  now : Int
  granted : Int
  asleepUntil : Int
  waits : List Wait

/-- A wait was just granted. -/
def Stream.Phase.asks : Stream.Phase → Bool
  | admitting _ _ .snapshot => true
  | _ => false

namespace PumpClock

open ThinkWatch.Gateway.Stream (Action Pump StreamCtx Codec)

variable {K : Codec}

def start (c : StreamCtx K) (now : Int) : PumpClock K := ⟨.start c, now, now, now, []⟩

/-- A step to `s` at the instant `at_`: a wait starts once `Resend::admit` is through. -/
def after (t : PumpClock K) (at_ : Int) (s : Pump K) (a : Action K) : PumpClock K :=
  match t.pump.phase, a with
  | .admitting _ wait (.recording _), .recorded =>
    { t with
      pump := s
      now := at_
      asleepUntil := at_ + wait
      waits := ⟨t.granted, at_, wait, 0⟩ :: t.waits }
  | _, _ =>
    { t with
      pump := s
      now := at_
      granted := if s.phase.asks then at_ else t.granted }

structure Step (c : StreamCtx K) (t : PumpClock K) (a : Int × Action K) (t' : PumpClock K) :
    Prop where
  step : Stream.Step c t.pump a.2 t'.pump
  after : t' = t.after a.1 t'.pump a.2
  later : t.now ≤ a.1
  reads : ∀ r ∈ Pump.readings a.2, r.1 = a.1 ∧ Spread r.2
  asleep : a.2 = .wake → t.asleepUntil ≤ a.1

/-- What holds of the attempts of a stream, whatever `Resend::admit` takes. -/
structure Bounded (arrived retryWait : Int) (t : PumpClock K) : Prop where
  floor : ∀ w ∈ t.waits, minSaidWait ≤ w.length
  granted : ∀ w ∈ t.waits, w.granted + w.length ≤ arrived + retryWait
  /-- One attempt between two waits. -/
  once : t.pump.opened ≤ t.waits.length + 1
  finite : minSaidWait * t.waits.length ≤ retryWait

/--
The condition on a step: when `Resend::admit` is through, it took no longer than the deadline had
left when the wait was granted.
-/
def OnTime (arrived retryWait : Int) (t : PumpClock K) (a : Int × Action K) : Prop :=
  ∀ failed wait ran, t.pump.phase = .admitting failed wait (.recording ran) → a.2 = .recorded →
    a.1 - t.granted ≤ arrived + retryWait - (t.granted + wait)

/-- Where the clock stands with what the waits took. -/
def At (arrived retryWait : Int) (t : PumpClock K) : Prop :=
  match t.pump.phase with
  | .unpolled => arrived + minSaidWait * t.waits.length ≤ t.now ∧ t.pump.opened ≤ t.waits.length
  | .waiting =>
    arrived + minSaidWait * t.waits.length ≤ t.asleepUntil ∧ t.pump.opened ≤ t.waits.length
  | .admitting _ wait _ =>
    minSaidWait ≤ wait ∧ arrived + minSaidWait * t.waits.length ≤ t.granted ∧ t.granted ≤ t.now ∧
      t.granted + wait ≤ arrived + retryWait
  | .dropped => True
  | _ => arrived + minSaidWait * t.waits.length ≤ t.now

structure Inv (arrived retryWait : Int) (t : PumpClock K) : Prop
    extends t.Bounded arrived retryWait where
  deadline_eq : t.pump.budget.deadline = (Budget.new arrived retryWait).deadline
  stands : t.At arrived retryWait

variable {c : StreamCtx K} {arrived retryWait : Int} {t t' : PumpClock K}

theorem after_quiet {at_ : Int} {s : Pump K} {a : Action K}
    (h : ∀ failed wait ran, t.pump.phase = .admitting failed wait (.recording ran) →
      a ≠ .recorded) :
    t.after at_ s a =
      { t with pump := s, now := at_, granted := if s.phase.asks then at_ else t.granted } := by
  unfold after
  split
  next hphase => exact absurd rfl (h _ _ _ hphase)
  next => rfl

theorem at_runs (h : t.pump.phase.runs = true) :
    t.At arrived retryWait ↔ arrived + minSaidWait * t.waits.length ≤ t.now := by
  unfold At
  cases hp : t.pump.phase with
  | unpolled | waiting | dropped | admitting _ _ _ =>
    rw [hp] at h
    cases h
  | _ => rfl

/-- A step that starts no wait. -/
theorem Inv.quiet (h : t.Inv arrived retryWait) {at_ : Int} {s : Pump K} {a : Action K}
    (hafter : t' = t.after at_ s a)
    (hfresh : ∀ failed wait ran, t.pump.phase = .admitting failed wait (.recording ran) →
      a ≠ .recorded)
    (hbudget : s.budget = t.pump.budget) (honce : s.opened ≤ t.waits.length + 1)
    (hstands : At arrived retryWait
      { t with pump := s, now := at_, granted := if s.phase.asks then at_ else t.granted }) :
    t'.Inv arrived retryWait := by
  rw [after_quiet hfresh] at hafter
  subst hafter
  exact {
    floor := h.floor
    granted := h.granted
    once := honce
    finite := h.finite
    deadline_eq := (congrArg Budget.deadline hbudget).trans h.deadline_eq
    stands := hstands }

/-- What the waits took is over by the next attempt's end. -/
theorem Inv.spent (h : t.Inv arrived retryWait) {at_ : Int} (hlater : t.now ≤ at_)
    (hphase : t.pump.phase.runs = true ∨
      ∃ failed wait stage, t.pump.phase = .admitting failed wait stage) :
    arrived + minSaidWait * t.waits.length ≤ at_ := by
  have hstands := h.stands
  rcases hphase with hruns | ⟨failed, wait, stage, hphase⟩
  · exact ((at_runs hruns).mp hstands).trans hlater
  · unfold At at hstands
    rw [hphase] at hstands
    exact hstands.2.1.trans (hstands.2.2.1.trans hlater)

/-- The wait that is granted fits, and is no shorter than the least. -/
theorem Inv.grants (h : t.Inv arrived retryWait) {at_ : Int} {s : Pump K} {a : Action K}
    {jitter : ℚ} (hspread : Spread jitter) (hlater : t.now ≤ at_)
    (hruns : t.pump.phase.runs = true) (hgranted : t.pump.Granted s at_ jitter)
    (hafter : t' = t.after at_ s a) : t'.Inv arrived retryWait := by
  obtain ⟨failed, wait, said, hphase, hsaid, hwait⟩ := hgranted.asks
  obtain ⟨⟨d, hd, hfits⟩, -⟩ := Budget.fits_of_waitAt hwait
  rw [h.deadline_eq] at hd
  have hdeadline : (Budget.allowance arrived retryWait none).deadline = some d := hd
  rw [Budget.deadline_allowance hdeadline] at hfits
  refine h.quiet hafter (fun failed wait ran hp => ?_) hgranted.budget
    (hgranted.opened ▸ h.once) ?_
  · rw [hp] at hruns
    cases hruns
  · unfold At
    simp only [hphase, Stream.Phase.asks, if_true]
    exact ⟨Budget.minSaidWait_le_of_waitAt hspread hsaid hwait, h.spent hlater (.inl hruns),
      le_refl _, hfits⟩

theorem Inv.recorded (h : t.Inv arrived retryWait) {at_ wait : Int} {failed : Stream.Failed}
    {ran : Bool} (hphase : t.pump.phase = .admitting failed wait (.recording ran))
    (hlater : t.now ≤ at_) (hafter : t' = t.after at_ t.pump.resending .recorded) :
    t'.Inv arrived retryWait ∧ t'.waits = ⟨t.granted, at_, wait, 0⟩ :: t.waits := by
  have hstands := h.stands
  unfold At at hstands
  rw [hphase] at hstands
  obtain ⟨hfloor, hspent, hnow, hfits⟩ := hstands
  unfold after at hafter
  rw [hphase] at hafter
  subst hafter
  refine ⟨?_, rfl⟩
  exact {
    floor := List.forall_mem_cons.mpr ⟨hfloor, h.floor⟩
    granted := List.forall_mem_cons.mpr ⟨hfits, h.granted⟩
    once := h.once.trans (Nat.le_succ _)
    finite := by
      rw [List.length_cons]
      push_cast
      linarith
    deadline_eq := h.deadline_eq
    stands := by
      refine ⟨?_, h.once⟩
      rw [List.length_cons]
      push_cast
      linarith }

theorem inv_start (hbudget : c.budget = .new arrived retryWait) {now : Int} (hwait : 0 ≤ retryWait)
    (hnow : arrived ≤ now) : (start c now).Inv arrived retryWait where
  floor := nofun
  granted := nofun
  once := Nat.zero_le _
  finite := by
    show minSaidWait * 0 ≤ retryWait
    omega
  deadline_eq := congrArg Budget.deadline hbudget
  stands := by
    have hspent : arrived + minSaidWait * (0 : Int) ≤ now := by omega
    exact ⟨hspent, Nat.le_refl 0⟩

/-- One step of the pump, whatever it takes. -/
theorem Inv.step (h : t.Inv arrived retryWait) {a : Int × Action K} (hstep : Step c t a t') :
    t'.Inv arrived retryWait := by
  obtain ⟨at_, a⟩ := a
  have hlater : t.now ≤ at_ := hstep.later
  have hafter := hstep.after
  have hreads := hstep.reads
  have hasleep := hstep.asleep
  have hturn := Pump.step_turn hstep.step
  have hstands := h.stands
  generalize t'.pump = s' at *
  cases hturn with
  | begins hat =>
    have hspent : arrived + minSaidWait * t.waits.length ≤ at_ ∧
        t.pump.opened ≤ t.waits.length := by
      unfold At at hstands
      rcases hat with hphase | ⟨hphase, hwake⟩
      · rw [hphase] at hstands
        exact ⟨hstands.1.trans hlater, hstands.2⟩
      · rw [hphase] at hstands
        exact ⟨hstands.1.trans (hasleep hwake), hstands.2⟩
    refine h.quiet hafter (fun failed wait ran hp => ?_) rfl (Nat.succ_le_succ hspent.2) hspent.1
    rcases hat with hphase | ⟨hphase, -⟩ <;> exact nomatch hphase.symm.trans hp
  | goesOn goes fresh hat =>
    refine h.quiet hafter (fun _ _ _ _ => fresh) goes.budget (goes.opened ▸ h.once) ?_
    exact (at_runs goes.runs).mpr (h.spent hlater hat)
  | grants hat reads granted =>
    obtain ⟨rfl, hspread⟩ := hreads _ reads
    exact h.grants hspread hlater hat granted hafter
  | @admits _ failed wait stage stage' _ hat later fresh =>
    refine h.quiet hafter (fun _ _ _ _ => fresh) rfl h.once ?_
    have hasks : Stream.Phase.asks (.admitting failed wait stage') = false := by
      cases stage' with
      | snapshot => exact absurd rfl later
      | caps | recording _ => rfl
    unfold At at hstands ⊢
    rw [hat] at hstands
    simp only [hasks, Bool.false_eq_true, if_false]
    exact ⟨hstands.1, hstands.2.1, hstands.2.2.1.trans hlater, hstands.2.2.2⟩
  | recorded hat => exact (h.recorded hat hlater hafter).1
  | tick hat =>
    refine h.quiet hafter (fun _ _ _ hp => nomatch hat.symm.trans hp) rfl h.once ?_
    unfold At at hstands ⊢
    rw [hat] at hstands
    simp only [Pump.tick, hat]
    exact hstands
  | drop =>
    exact h.quiet hafter (fun _ _ _ _ => nofun) rfl h.once trivial
  | tail ended =>
    refine h.quiet hafter (fun _ _ _ _ => nofun) rfl h.once ?_
    unfold At at hstands ⊢
    rcases ended with ⟨ending, hphase⟩ | hphase
    · rw [hphase] at hstands
      simp only [Pump.tail, hphase]
      exact hstands.trans hlater
    · simp only [Pump.tail, hphase]

/-- A step on time starts no wait that ends past the deadline. -/
theorem ends_step {a : Int × Action K} (hstep : Step c t a t')
    (hontime : t.OnTime arrived retryWait a) (hends : ∀ w ∈ t.waits, w.ends ≤ arrived + retryWait) :
    ∀ w ∈ t'.waits, w.ends ≤ arrived + retryWait := by
  obtain ⟨at_, a⟩ := a
  have hafter := hstep.after
  unfold after at hafter
  split at hafter
  next hphase ha =>
    have hlate := hontime _ _ _ hphase ha
    rw [hafter]
    refine List.forall_mem_cons.mpr ⟨?_, hends⟩
    unfold Wait.ends
    linarith
  next =>
    rw [hafter]
    exact hends

/-- A step that is not on time starts one that does. -/
theorem late_step {a : Int × Action K} (hstep : Step c t a t')
    (hlate : ¬ t.OnTime arrived retryWait a) : ∃ w ∈ t'.waits, arrived + retryWait < w.ends := by
  obtain ⟨at_, a⟩ := a
  unfold OnTime at hlate
  push Not at hlate
  obtain ⟨failed, wait, ran, hphase, rfl, hlate⟩ := hlate
  have hafter := hstep.after
  unfold after at hafter
  rw [hphase] at hafter
  refine ⟨⟨t.granted, at_, wait, 0⟩, by rw [hafter]; exact List.mem_cons_self, ?_⟩
  unfold Wait.ends
  linarith

theorem bounded_of_run (hbudget : c.budget = .new arrived retryWait) (hwait : 0 ≤ retryWait)
    {now : Int} (hnow : arrived ≤ now) {actions : List (Int × Action K)}
    (hrun : Steps (Step c) (start c now) actions t) : t.Bounded arrived retryWait :=
  (hrun.invariant (fun _ _ _ hinv hstep => hinv.step hstep)
    (inv_start hbudget hwait hnow)).toBounded

theorem ends_of_run {now : Int} {actions : List (Int × Action K)}
    (hrun : Steps (fun t a t' => t.OnTime arrived retryWait a ∧ Step c t a t') (start c now)
      actions t) : ∀ w ∈ t.waits, w.ends ≤ arrived + retryWait :=
  hrun.invariant (I := fun t => ∀ w ∈ t.waits, w.ends ≤ arrived + retryWait)
    (fun _ _ _ hends hstep => ends_step hstep.2 hstep.1 hends) nofun

end PumpClock

/-! ## Every run -/

/--
Sending again ends in time. The rounds of a selection do in every run. The attempts of a stream are
bounded in every run, and where `Resend::admit` is on time no wait ends past the deadline; a step
that is not on time starts a wait that does.
-/
theorem retries_end_in_time (N : Type*) [AddMonoid N] [LinearOrder N] (arrived retryWait now : Int)
    (hwait : 0 ≤ retryWait) (hnow : arrived ≤ now) :
    (∀ (c : SelectionCtx) (redis : Limits.Redis) (hard : Option Int) (inputs : List (Int × Input N))
        (t : RoundClock), Steps (RoundClock.Step c)
          (.start c redis (.allowance arrived retryWait hard) now) inputs t →
        t.InTime arrived retryWait hard) ∧
      ∀ (K : Stream.Codec) (c : Stream.StreamCtx K) (actions : List (Int × Stream.Action K))
        (t : PumpClock K), c.budget = .new arrived retryWait →
        (Steps (PumpClock.Step c) (.start c now) actions t →
          t.Bounded arrived retryWait ∧
            ∀ a t', t.Step c a t' → ¬ t.OnTime arrived retryWait a →
              ∃ w ∈ t'.waits, arrived + retryWait < w.ends) ∧
        (Steps (fun t a t' => t.OnTime arrived retryWait a ∧ PumpClock.Step c t a t')
            (.start c now) actions t →
          ∀ w ∈ t.waits, w.ends ≤ arrived + retryWait) := by
  refine ⟨fun c redis hard inputs t hrun => RoundClock.inTime_of_run hwait hnow hrun,
    fun K c actions t hbudget => ⟨fun hrun => ⟨?_, fun a t' => PumpClock.late_step⟩,
      PumpClock.ends_of_run⟩⟩
  exact PumpClock.bounded_of_run hbudget hwait hnow hrun

/-! ### A stream and a whole answer that are sent again -/

namespace PumpClock

open ThinkWatch.Gateway.Stream (Action Pump StreamCtx Codec)

variable {K : Codec} {c : StreamCtx K} {t : PumpClock K}

theorem pump_after (at_ : Int) (s : Pump K) (a : Action K) : (t.after at_ s a).pump = s := by
  unfold after
  split <;> rfl

theorem Step.of {at_ : Int} {s : Pump K} {a : Action K} (h : Stream.Step c t.pump a s)
    (later : t.now ≤ at_) (reads : ∀ r ∈ Pump.readings a, r.1 = at_ ∧ Spread r.2)
    (asleep : a = .wake → t.asleepUntil ≤ at_) : Step c t (at_, a) (t.after at_ s a) where
  step := by rw [pump_after]; exact h
  after := by rw [pump_after]
  later := later
  reads := reads
  asleep := asleep

end PumpClock

namespace RoundClock

variable {N : Type*} {c : SelectionCtx} {t : RoundClock}

theorem selection_after (at_ : Int) (s : Selection) (i : Input N) :
    (t.after at_ s i).selection = s := by
  cases i with
  | roundOver now jitter took =>
    unfold after
    simp only
    split <;> rfl
  | _ => rfl

theorem Step.of [AddMonoid N] [LinearOrder N] {at_ : Int} {s : Selection} {i : Input N}
    (h : SelectionStep c t.selection i s) (later : t.now ≤ at_) (reads : t.Reads at_ i)
    (asleep : Input.isOther i = false → t.asleepUntil ≤ at_)
    (timeout : ∀ entry hard, t.selection.phase = .sending entry →
      t.selection.budget.hard = some hard → at_ ≤ max t.sentAt hard)
    (cut : i = .cut → ∀ hard, t.selection.budget.hard = some hard → hard ≤ at_) :
    Step c t (at_, i) (t.after at_ s i) where
  step := by rw [selection_after]; exact h
  after := by rw [selection_after]
  later := later
  reads := reads
  asleep := asleep
  timeout := timeout
  cut := cut

end RoundClock

/-- Ten seconds for sending again. -/
def tenSecs : Stream.StreamCtx Stream.Pump.chatSse :=
  { Stream.Pump.chatStream with budget := .new 0 10000 }

/-- The upstream is down and does not say for how long. -/
def down : GatewayError := .providerHttpError 503 "down" none

/-- An attempt that fails at `failed` and may go out again at `admitted`. -/
def sentAgain (failed admitted : Int) : List (Int × Stream.Action Stream.Pump.chatSse) :=
  [(0, .poll), (failed, .opened (.error down) failed 1), (failed, .snapshot .closed),
    (failed, .caps (.ok .admitted)), (failed, .record), (admitted, .recorded)]

theorem waitAfter_down {failed : Int} (h : failed ≤ 8000) :
    tenSecs.budget.waitAfter failed 1 down = some 2000 := by
  have hfloor : ⌊((backoff 1 : Int) : ℚ) * 1⌋ = 2000 := by
    rw [mul_one, Int.floor_intCast]
    rfl
  have hwait : tenSecs.budget.waitAfter failed 1 down =
      if failed + ⌊((backoff 1 : Int) : ℚ) * 1⌋ > 0 + 10000 then none
      else some ⌊((backoff 1 : Int) : ℚ) * 1⌋ := rfl
  rw [hwait, hfloor, if_neg (by omega)]

theorem spread_one {at_ : Int} : ∀ r ∈ some (at_, (1 : ℚ)), r.1 = at_ ∧ Spread r.2 := by
  intro r hr
  obtain rfl := Option.some.inj hr
  exact ⟨rfl, by norm_num [Spread]⟩

/-- The run of `sentAgain`, each of whose steps meets `C`. -/
theorem exists_sentAgain
    {C : PumpClock Stream.Pump.chatSse → Int × Stream.Action Stream.Pump.chatSse → Prop}
    {failed admitted : Int} (h0 : 0 ≤ failed) (hfits : failed ≤ 8000)
    (hle : failed ≤ admitted) (hquiet : ∀ t a, a.2 ≠ .recorded → C t a)
    (hrecorded : ∀ t, t.pump.phase = .admitting (.refused down) 2000 (.recording true) →
      t.granted = failed → C t (admitted, .recorded)) :
    ∃ t, Steps (fun t a t' => C t a ∧ PumpClock.Step tenSecs t a t') (.start tenSecs 0)
      (sentAgain failed admitted) t ∧ t.waits = [⟨failed, admitted, 2000, 0⟩] := by
  let asked : Stream.Pump Stream.Pump.chatSse :=
    { (Stream.Pump.start tenSecs).goOut with phase := .admitting (.refused down) 2000 .snapshot }
  have hopen :
      (Stream.Pump.start tenSecs).goOut.afterOpen tenSecs (.error down) failed 1 = asked := by
    have hwait : (Stream.Pump.start tenSecs).goOut.budget.waitAfter failed 1 down = some 2000 :=
      waitAfter_down hfits
    simp only [Stream.Pump.afterOpen, hwait]
    rfl
  have hopened : Stream.Step tenSecs (Stream.Pump.start tenSecs).goOut
      (.opened (.error down) failed 1) asked := hopen ▸ .opened rfl
  exact ⟨_, .cons ⟨hquiet _ _ nofun, .of (.poll rfl) (le_refl 0) nofun nofun⟩ <|
    .cons ⟨hquiet _ _ nofun, .of hopened h0 spread_one nofun⟩ <|
    .cons ⟨hquiet _ _ nofun, .of (.snapshot rfl nofun) (le_refl failed) nofun nofun⟩ <|
    .cons ⟨hquiet _ _ nofun, .of (.admitted rfl) (le_refl failed) nofun nofun⟩ <|
    .cons ⟨hquiet _ _ nofun, .of (.record rfl) (le_refl failed) nofun nofun⟩ <|
    .single ⟨hrecorded _ rfl rfl, .of (.recorded rfl) hle nofun nofun⟩, rfl⟩

/-- `Resend::admit` takes half a second, and the wait ends half a second past the deadline. -/
theorem late_wait : ¬ ∀ t, Steps (PumpClock.Step tenSecs) (.start tenSecs 0)
    (sentAgain 8000 8500) t → ∀ w ∈ t.waits, w.ends ≤ 0 + 10000 := by
  intro h
  obtain ⟨t, hrun, hwaits⟩ := exists_sentAgain (C := fun _ _ => True)
    (show (0 : Int) ≤ 8000 by decide) (by decide) (show (8000 : Int) ≤ 8500 by decide)
    (fun _ _ _ => trivial) fun _ _ _ => trivial
  have hends := h t (hrun.mono fun _ _ _ hstep => hstep.2) ⟨8000, 8500, 2000, 0⟩
    (hwaits ▸ List.mem_cons_self)
  exact absurd hends (by decide)

/-- One round that failed, which the selection is about to repeat. -/
theorem exists_soleAgain : ∃ t, Steps (RoundClock.Step (N := Nat) soleCtx)
    (.start soleCtx Store.empty (.allowance 0 10000 (some 118000)) 0)
    [(0, .pass quietPick true 0), (100, .failed overloaded), (150, .roundOver 150 1 100)] t ∧
    t.waits = [⟨150, 150, 1000, 100⟩] := by
  refine ⟨_, .cons (.of (.pass quietPick true 0 rfl (by decide)) (by decide) trivial (by decide)
    nofun nofun) <| .cons (.of (.failed overloaded rfl) (by decide) trivial (by decide)
    (fun _ hard _ hh => ?_) nofun) <| .single (.of (.roundOver 150 1 100 rfl) (by decide)
    ⟨rfl, rfl, by norm_num [Spread]⟩ (by decide) nofun nofun), rfl⟩
  obtain rfl : (118000 : Int) = hard := Option.some.inj hh
  decide

theorem retries_end_in_time_once :
    (∃ t : RoundClock, t.waits = [⟨150, 150, 1000, 100⟩] ∧ t.InTime 0 10000 (some 118000)) ∧
      ∃ t : PumpClock Stream.Pump.chatSse, t.waits = [⟨7000, 7100, 2000, 0⟩] ∧ t.Bounded 0 10000 ∧
        ∀ w ∈ t.waits, w.ends ≤ 0 + 10000 := by
  obtain ⟨hrounds, hattempts⟩ := retries_end_in_time Nat 0 10000 0 (by decide) (by decide)
  obtain ⟨t, hrun, hwaits⟩ := exists_soleAgain
  obtain ⟨u, hstream, hone⟩ := exists_sentAgain (C := PumpClock.OnTime 0 10000)
    (show (0 : Int) ≤ 7000 by decide) (by decide) (show (7000 : Int) ≤ 7100 by decide)
    (fun t a ha failed wait ran _ h => absurd h ha) fun t hphase hgranted failed wait ran h _ => by
      obtain ⟨-, rfl, -⟩ := Stream.Phase.admitting.inj (hphase.symm.trans h)
      rw [hgranted]
      decide
  obtain ⟨hbounded, hends⟩ := hattempts Stream.Pump.chatSse tenSecs (sentAgain 7000 7100) u rfl
  exact ⟨⟨t, hwaits, hrounds soleCtx Store.empty (some 118000) _ t hrun⟩, u, hone,
    (hbounded (hstream.mono fun _ _ _ hstep => hstep.2)).1, hends hstream⟩

end ThinkWatch.Gateway
