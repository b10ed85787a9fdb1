import ThinkWatch.Gateway.OneAttempt

/-!
# Each attempt is counted once

A failed attempt that goes out again is counted by `Resend::admit`, the last one by the tail. That
the last one was counted already the tail reads off `Sent.waiting`, which is set after `admit` has
returned. A client that leaves while `admit` waits for the script that has recorded the sample
leaves an attempt that the tail counts a second time; one that leaves before the body is polled
leaves a sample of no attempt. Otherwise the samples are the attempts, as far as Redis runs the
scripts that record them.
-/

namespace ThinkWatch.Gateway.Stream.Pump

open Lib

variable {K : Codec} {c : StreamCtx K} {s s' t : Pump K} {a : Action K} {as : List (Action K)}

/-! ## What is claimed -/

/-- Every attempt has a sample once the tail has run: the ones that were sent again an error. -/
def CountedOnce (s : Pump K) : Prop :=
  s.settled = true → s.samples.length = s.opened ∧
    ∃ last, s.samples = List.replicate (s.opened - 1) .error ++ [last]

/--
The client does not leave before the first poll, nor between the script that has recorded a failed
attempt and the note that it was; and Redis runs the scripts that record.
-/
def Noted (s : Pump K) : Action K → Prop
  | .drop => s.phase ≠ .unpolled ∧
      ∀ failed wait, s.phase ≠ .admitting failed wait (.recording true)
  | .recorded => ∀ failed wait, s.phase ≠ .admitting failed wait (.recording false)
  | .tail ran => ran = true
  | _ => True

/-! ## The invariant -/

/-- An attempt is under way, and those before it are counted. -/
structure Open (s : Pump K) : Prop where
  pos : 0 < s.opened
  waiting : s.sent.waiting = false
  samples : s.samples = List.replicate (s.opened - 1) .error
  unsettled : s.settled = false

/-- All attempts are counted. -/
structure Closed (s : Pump K) : Prop where
  pos : 0 < s.opened
  samples : s.samples = List.replicate s.opened .error
  unsettled : s.settled = false

/-- The tail has run. -/
structure Settled (s : Pump K) : Prop where
  pos : 0 < s.opened
  samples : ∃ last, s.samples = List.replicate (s.opened - 1) .error ++ [last]
  settled : s.settled = true

def Tally (s : Pump K) : Phase → Prop
  | .unpolled => s.opened = 0 ∧ s.samples = [] ∧ s.settled = false
  | .waiting => s.Closed ∧ s.sent.waiting = true
  | .admitting _ _ (.recording true) => s.Closed
  | .returned _ => s.Open ∨ s.Settled
  | .dropped => s.Open ∨ s.Closed ∧ s.sent.waiting = true ∨ s.Settled
  | _ => s.Open

theorem Open.tally (h : s.Open) {phase : Phase} (hunder : phase.underWay = true) :
    s.Tally phase := by
  cases phase with
  | returned ending => exact .inl h
  | unpolled | waiting | dropped => cases hunder
  | admitting failed wait stage =>
    cases stage with
    | snapshot | caps => exact h
    | recording ran =>
      cases ran with
      | false => exact h
      | true => cases hunder
  | opening | pulling | reading _ | delivering _ _ | finishing | failing _ _ => exact h

theorem Tally.open {phase : Phase} (h : s.Tally phase) (hunder : phase.underWay = true)
    (hrunning : ∀ ending, phase ≠ .returned ending) : s.Open := by
  cases phase with
  | returned ending => exact absurd rfl (hrunning ending)
  | unpolled | waiting | dropped => cases hunder
  | admitting failed wait stage =>
    cases stage with
    | snapshot | caps => exact h
    | recording ran =>
      cases ran with
      | false => exact h
      | true => cases hunder
  | opening | pulling | reading _ | delivering _ _ | finishing | failing _ _ => exact h

theorem Open.proceeds (h : s.Open) (hproceeds : s.Proceeds s') : s'.Open where
  pos := hproceeds.opened ▸ h.pos
  waiting := hproceeds.waiting.trans h.waiting
  samples := by rw [hproceeds.samples, hproceeds.opened, h.samples]
  unsettled := hproceeds.settled.trans h.unsettled

theorem replicate_sub_one {n : Nat} (h : 0 < n) :
    List.replicate (n - 1) Sample.error ++ [.error] = List.replicate n .error := by
  obtain ⟨k, rfl⟩ := Nat.exists_eq_succ_of_ne_zero h.ne'
  exact List.replicate_succ'.symm

/-- The sample of the attempt that failed. -/
theorem Open.record (h : s.Open) (phase : Phase) :
    Closed { s with phase, samples := s.samples ++ [.error] } where
  pos := h.pos
  samples := by
    show s.samples ++ [Sample.error] = List.replicate s.opened .error
    rw [h.samples, replicate_sub_one h.pos]
  unsettled := h.unsettled

/-- The tail counts the attempt that nothing has counted. -/
theorem Open.tail (h : s.Open) : (s.tail c true).Settled where
  pos := h.pos
  samples := by
    refine ⟨if (s.outcome c).success then .success else .error, ?_⟩
    show s.samples ++ (finalizeHealth s.sent.waiting (s.outcome c).success).toList = _
    rw [h.waiting, h.samples]
    rfl
  settled := rfl

theorem Closed.tail (h : s.Closed) (hwaiting : s.sent.waiting = true) :
    (s.tail c true).Settled where
  pos := h.pos
  samples := by
    refine ⟨.error, ?_⟩
    show s.samples ++ (finalizeHealth s.sent.waiting (s.outcome c).success).toList =
      List.replicate (s.opened - 1) .error ++ [.error]
    rw [hwaiting, h.samples, replicate_sub_one h.pos]
    exact List.append_nil _
  settled := rfl

/-- Every phase in which the client may leave a stream that was polled. -/
theorem Tally.drop (h : s.Tally s.phase) (hunder : ∀ ending, s.phase ≠ .returned ending)
    (hnoted : Noted s (.drop : Action K)) : Tally { s with phase := .dropped } .dropped := by
  obtain ⟨hpolled, hrecorded⟩ := hnoted
  cases hphase : s.phase with
  | unpolled => exact absurd hphase hpolled
  | waiting =>
    rw [hphase] at h
    exact .inr (.inl ⟨{ h.1 with }, h.2⟩)
  | returned ending => exact absurd hphase (hunder ending)
  | dropped =>
    rw [hphase] at h
    rcases h with h | ⟨h, hwaiting⟩ | h
    · exact .inl { h with }
    · exact .inr (.inl ⟨{ h with }, hwaiting⟩)
    · exact .inr (.inr { h with })
  | admitting failed wait stage =>
    have hstage : (Phase.admitting failed wait stage).underWay = true := by
      cases stage with
      | snapshot | caps => rfl
      | recording ran =>
        cases ran with
        | false => rfl
        | true => exact absurd hphase (hrecorded failed wait)
    exact .inl { h.open (hphase ▸ hstage) hunder with }
  | opening | pulling | reading _ | delivering _ _ | finishing | failing _ _ =>
    exact .inl { h.open (hphase ▸ rfl) hunder with }

theorem tally_step (h : s.Tally s.phase) (hnoted : Noted s a) (hstep : Step c s a s') :
    s'.Tally s'.phase := by
  cases step_effect hstep with
  | begins at_ =>
    rcases at_ with hphase | hphase
    · rw [hphase] at h
      obtain ⟨hopened, hsamples, hunsettled⟩ := h
      refine ⟨Nat.succ_pos _, rfl, ?_, hunsettled⟩
      show s.samples = List.replicate (s.opened + 1 - 1) .error
      rw [hsamples, hopened]
      rfl
    · rw [hphase] at h
      exact ⟨Nat.succ_pos _, rfl, h.1.samples, h.1.unsettled⟩
  | proceeds under running hproceeds =>
    exact ((h.open under running).proceeds hproceeds).tally hproceeds.underWay
  | tick at_ =>
    rw [at_] at h
    show Tally _ s.phase
    rw [at_]
    exact ⟨{ h.1 with }, h.2⟩
  | record at_ =>
    rw [at_] at h
    exact Open.record h _
  | @recorded failed wait ran at_ =>
    cases ran with
    | false => exact absurd at_ (hnoted failed wait)
    | true =>
      rw [at_] at h
      exact ⟨⟨h.pos, h.samples, h.unsettled⟩, rfl⟩
  | drop under held => exact h.drop under hnoted
  | @tail ran ended unsettled =>
    obtain rfl : ran = true := hnoted
    have hnot : ¬ s.Settled := fun hsettled => by
      rw [hsettled.settled] at unsettled
      cases unsettled
    show Tally _ s.phase
    rcases ended with ⟨ending, hphase⟩ | hphase
    · rw [hphase] at h ⊢
      rcases h with h | h
      · exact .inr h.tail
      · exact absurd h hnot
    · rw [hphase] at h ⊢
      rcases h with h | ⟨h, hwaiting⟩ | h
      · exact .inr (.inr h.tail)
      · exact .inr (.inr (h.tail hwaiting))
      · exact absurd h hnot

theorem Settled.countedOnce (h : s.Settled) : s.CountedOnce := by
  intro _
  obtain ⟨last, hsamples⟩ := h.samples
  refine ⟨?_, last, hsamples⟩
  have hpos := h.pos
  rw [hsamples, List.length_append, List.length_replicate, List.length_singleton]
  omega

theorem Tally.countedOnce (h : s.Tally s.phase) : s.CountedOnce := by
  have hunsettled : s.settled = false → s.CountedOnce := by
    intro hfalse htrue
    rw [htrue] at hfalse
    cases hfalse
  cases hphase : s.phase with
  | unpolled =>
    rw [hphase] at h
    exact hunsettled h.2.2
  | waiting =>
    rw [hphase] at h
    exact hunsettled h.1.unsettled
  | returned ending =>
    rw [hphase] at h
    rcases h with h | h
    · exact hunsettled h.unsettled
    · exact h.countedOnce
  | dropped =>
    rw [hphase] at h
    rcases h with h | ⟨h, -⟩ | h
    · exact hunsettled h.unsettled
    · exact hunsettled h.unsettled
    · exact h.countedOnce
  | admitting failed wait stage =>
    by_cases hstage : stage = .recording true
    · rw [hphase, hstage] at h
      exact hunsettled h.unsettled
    · have hunder : (Phase.admitting failed wait stage).underWay = true := by
        cases stage with
        | snapshot | caps => rfl
        | recording ran =>
          cases ran with
          | false => rfl
          | true => exact absurd rfl hstage
      rw [hphase] at h
      exact hunsettled (h.open hunder nofun).unsettled
  | opening | pulling | reading _ | delivering _ _ | finishing | failing _ _ =>
    rw [hphase] at h
    exact hunsettled (Tally.open h rfl nofun).unsettled

/-! ## The samples of a stream -/

/-- In every such run each attempt is counted once. -/
theorem attempts_counted_once (c : StreamCtx K)
    (hrun : Steps (fun s a s' => s.Noted a ∧ Step c s a s') (start c) as t) : t.CountedOnce := by
  refine Tally.countedOnce ?_
  refine hrun.invariant (I := fun s => s.Tally s.phase) (fun s a s' h hstep => ?_) ⟨rfl, rfl, rfl⟩
  exact tally_step h hstep.1 hstep.2

/-- The frame of an answer that ends at once. -/
def doneFrame : Bytes := [100, 97, 116, 97, 58, 32, 91, 68, 79, 78, 69, 93, 10, 10]

example : doneFrame = ChatSse.ascii "data: [DONE]\n\n" := by decide +kernel

/-- An attempt that is sent again, and one that answers. -/
def answeredAgain : List (Action chatSse) :=
  [.poll, .opened (.error overloaded) 0 1] ++ admitted ++
    [.opened (.ok ⟨.chat, none, (), ()⟩) 2000 1, .pull (some (.ok doneFrame)) true 2100 1,
      .read 2100 1, .deliver, .pull none true 2200 1, .tail true]

theorem attempts_counted_once_resent :
    ∃ t, Steps (Step chatStream) (start chatStream) answeredAgain t ∧
      t.CountedOnce ∧ t.settled = true ∧ t.samples = [.error, .success] := by
  have hrun : Steps (fun s a s' => s.Noted a ∧ Step chatStream s a s') (start chatStream)
      answeredAgain _ :=
    .cons ⟨trivial, .poll rfl⟩ <| .cons ⟨trivial, .opened rfl⟩ <|
    .cons ⟨trivial, .snapshot rfl nofun⟩ <| .cons ⟨trivial, .admitted rfl⟩ <|
    .cons ⟨trivial, .record rfl⟩ <| .cons ⟨fun _ _ h => (by cases h), .recorded rfl⟩ <|
    .cons ⟨trivial, .tickWaiting rfl rfl⟩ <| .cons ⟨trivial, .wake rfl⟩ <|
    .cons ⟨trivial, .opened rfl⟩ <| .cons ⟨trivial, .pull rfl⟩ <| .cons ⟨trivial, .read rfl⟩ <|
    .cons ⟨trivial, @Step.deliver _ _ _ doneFrame .pull (by decide +kernel)⟩ <|
    .cons ⟨trivial, .pull (by decide +kernel)⟩ <|
    .single ⟨rfl, .tail (.inl ⟨.finished, by decide +kernel⟩) (by decide +kernel)⟩
  exact ⟨_, hrun.mono fun _ _ _ h => h.2, attempts_counted_once chatStream hrun, rfl,
    by decide +kernel⟩

/-- The client leaves while `admit` waits for the script that has recorded the failure. -/
def leaving : List (Action chatSse) :=
  [.poll, .opened (.error overloaded) 0 1, .snapshot .closed, .caps (.ok .admitted), .record,
    .drop, .tail true]

/-- The tail counts the attempt again, and as a success. -/
theorem attempt_counted_twice :
    ∃ t, Steps (Step chatStream) (start chatStream) leaving t ∧ t.opened = 1 ∧
      t.samples = [.error, .success] ∧ ¬ t.CountedOnce := by
  refine ⟨_, .cons (.poll rfl) <| .cons (.opened rfl) <| .cons (.snapshot rfl nofun) <|
    .cons (.admitted rfl) <| .cons (.record rfl) <| .cons (.drop nofun nofun) <|
    .single (.tail (.inr rfl) rfl), rfl, rfl, fun hcounted => ?_⟩
  exact absurd (hcounted rfl).1 (by decide)

end ThinkWatch.Gateway.Stream.Pump
