import ThinkWatch.Gateway.Resend

/-!
# What is learnt from refusals

`rewritten_for_a_reason`: an effort is rewritten from memory only if the same provider refused it for
the same model in the same format, and answered the one that stands for it less than a week before
it is used, whatever requests and tasks of whatever replicas interleave. Tasks read and write the
memory without a lock, so a write may undo another; but nothing gets into a memory that was not
noted, and nothing is noted that was not answered.
-/

namespace ThinkWatch.Gateway.Learned

open Lib
open Gateway.Stream (Dialect)

variable {J β : Type} {D : Dialects J β} {s s' : State β} {a : Action β} {as : List (Action β)}
  {r : Request β} {i : Nat} {key : Key} {w pre : WrittenEffort} {fix : EffortFix} {now : Int}
  {log log' : List Event}

/-! ## What the log says -/

/-- An entry of a memory was noted. -/
def Backed (D : Dialects J β) (log : List Event) (key : Key) (e : String × Entry) : Prop :=
  ∃ w fix t, e = (w.slug D, fix.entry D t) ∧ .noted key w fix t ∈ log ∧ ¬ fix.Is w

/-- What an event follows from: a use from a note, a note from an answer, an answer from a refusal. -/
def Event.Justified (earlier : List Event) : Event → Prop
  | .answered key w _ => .refused key w ∈ earlier
  | .noted key w fix _ => .answered key w fix ∈ earlier
  | .used key w fix now => ∃ t, t ≤ now ∧ now < t + memoryTtlSecs ∧
      .noted key w fix t ∈ earlier ∧ ¬ fix.Is w
  | _ => True

/-- Every event follows from those before it. -/
structure Grounded (clock : Int) (log : List Event) : Prop where
  justified : ∀ later e earlier, log = later ++ e :: earlier → e.Justified earlier
  past : ∀ key w fix t, .noted key w fix t ∈ log → t ≤ clock

theorem Grounded.answered {clock : Int} (h : Grounded clock log)
    (hmem : .answered key w fix ∈ log) : .refused key w ∈ log := by
  obtain ⟨later, earlier, rfl⟩ := List.append_of_mem hmem
  exact List.mem_append_right _ (List.mem_cons_of_mem _ (h.justified _ _ _ rfl))

theorem Grounded.noted {clock t : Int} (h : Grounded clock log)
    (hmem : .noted key w fix t ∈ log) : .answered key w fix ∈ log := by
  obtain ⟨later, earlier, rfl⟩ := List.append_of_mem hmem
  exact List.mem_append_right _ (List.mem_cons_of_mem _ (h.justified _ _ _ rfl))

def Task.Sound (D : Dialects J β) (log : List Event) : Task → Prop
  | .reading key (.remember pre fix) => .answered key pre fix ∈ log
  | .reading _ (.forget _) => True
  | .writing key m => ∀ e ∈ m.entries, Backed D log key e
  | .finished => True

/-- The effort that a hop's own stands for was refused, and so was what its fix stands for. -/
def Phase.Sound (log : List Event) (key : Dialect → Key) : Phase β → Prop
  | .recalling wire stage => wire.pre = none ∧ ∀ pre fix b, stage ≠ .refixed pre fix b
  | .waiting wire stage =>
    (∀ w, wire.pre = some w → .refused (key wire.dialect) w ∈ log) ∧
      ∀ pre fix b, stage = .refixed pre fix b → .refused (key wire.dialect) pre ∈ log
  | .done _ => True

structure State.Sound (D : Dialects J β) (s : State β) : Prop where
  grounded : Grounded s.clock s.log
  redis : ∀ k m, s.redis k = some m → ∀ e ∈ m.entries, Backed D s.log k e
  requests : ∀ i r, s.requests i = some r → r.phase.Sound s.log r.key
  tasks : ∀ t ∈ s.tasks, t.Sound D s.log

theorem Backed.mono {e : String × Entry} (h : Backed D log key e) (hlog : ∀ e ∈ log, e ∈ log') :
    Backed D log' key e := by
  obtain ⟨w, fix, t, he, hnoted, his⟩ := h
  exact ⟨w, fix, t, he, hlog _ hnoted, his⟩

theorem Task.Sound.mono {t : Task} (h : t.Sound D log) (hlog : ∀ e ∈ log, e ∈ log') :
    t.Sound D log' := by
  cases t with
  | reading key change =>
    cases change with
    | remember pre fix => exact hlog _ h
    | forget pre => exact trivial
  | writing key m => exact fun e he => (h e he).mono hlog
  | finished => exact trivial

theorem Phase.Sound.mono {keys : Dialect → Key} {phase : Phase β} (h : phase.Sound log keys)
    (hlog : ∀ e ∈ log, e ∈ log') : phase.Sound log' keys := by
  cases phase with
  | recalling wire stage => exact h
  | waiting wire stage =>
    exact ⟨fun w hw => hlog _ (h.1 w hw), fun pre fix b hb => hlog _ (h.2 pre fix b hb)⟩
  | done result => exact trivial

/-! ## How a request changes -/

theorem dropAddedMarks_same (wire : Wire β) : (wire.dropAddedMarks D).1.dialect = wire.dialect ∧
    (wire.dropAddedMarks D).1.pre = wire.pre := by
  unfold Wire.dropAddedMarks
  split
  · split <;> exact ⟨rfl, rfl⟩
  · exact ⟨rfl, rfl⟩

theorem fixEffort_same {wire fixed : Wire β} {reason : Reason}
    (h : wire.fixEffort D fix w reason = some fixed) :
    fixed.dialect = wire.dialect ∧ fixed.pre = wire.pre := by
  obtain ⟨x, -, rfl⟩ := Option.map_eq_some_iff.mp h
  exact ⟨rfl, rfl⟩

theorem addressed_sound (c : Send β) (marks : Noted String) (protocol : UpstreamProtocol)
    {stage : Stage} (keys : Dialect → Key) (hstage : ∀ pre fix b, stage ≠ .refixed pre fix b) :
    (c.addressed D marks protocol stage).Sound log keys := by
  unfold Send.addressed
  split
  · exact trivial
  next a ha =>
    refine ⟨?_, hstage⟩
    split
    · exact (dropAddedMarks_same a.wire).2
    · rfl

theorem tryAlternates_sound (c : Send β) (marks : Noted String) (dialect : Dialect)
    (last : GatewayError) (rest : List UpstreamProtocol) (keys : Dialect → Key) :
    (c.tryAlternates D marks dialect last rest).Sound log keys := by
  unfold Send.tryAlternates
  split
  · exact trivial
  · split
    · exact addressed_sound c marks _ keys nofun
    · exact trivial

/-- What a refused effort is resent as. -/
theorem refix_spec {c : Send β} {wire fixed : Wire β} {last : GatewayError}
    (h : c.refix D wire last = some (pre, fix, fixed)) :
    ∃ sent, wire.writtenEffort D = some sent ∧ rejection D last c.label sent = some fix ∧
      pre = wire.pre.getD sent ∧ wire.fixEffort D fix pre .rejected = some fixed := by
  unfold Send.refix at h
  split at h
  · obtain ⟨sent, hsent, h⟩ := Option.bind_eq_some_iff.mp h
    obtain ⟨fix', hfix, h⟩ := Option.bind_eq_some_iff.mp h
    obtain ⟨fixed', hfixed, h⟩ := Option.bind_eq_some_iff.mp h
    cases h
    exact ⟨sent, hsent, hfix, rfl, hfixed⟩
  · cases h

theorem tryEffort_sound {wire : Wire β} {last : GatewayError} (marks : Noted String)
    (hpre : ∀ w, wire.pre = some w → .refused (r.key wire.dialect) w ∈ log)
    (hlogged : ∀ sent fix, wire.writtenEffort D = some sent →
      rejection D last r.send.label sent = some fix → .refused (r.key wire.dialect) sent ∈ log) :
    (r.send.tryEffort D marks wire last).Sound log r.key := by
  unfold Send.tryEffort
  split
  next pre fix fixed hrefix =>
    obtain ⟨sent, hsent, hrejection, hpre', hfixed⟩ := refix_spec hrefix
    obtain ⟨hdialect, hsame⟩ := fixEffort_same hfixed
    refine ⟨?_, ?_⟩
    · rw [hdialect, hsame]
      exact hpre
    · rintro pre' fix' b heq
      cases heq
      rw [hdialect, hpre']
      cases hw : wire.pre with
      | none => exact hlogged sent fix hsent hrejection
      | some w => exact hpre w hw
  next => exact tryAlternates_sound _ _ _ _ _ _

/-- Without breakpoints to take out, the body stays as it is. -/
theorem body_of_dropAddedMarks {wire wire' : Wire β} (h : wire.dropAddedMarks D = (wire', false)) :
    wire'.body = wire.body ∧ wire'.dialect = wire.dialect ∧ wire'.pre = wire.pre := by
  unfold Wire.dropAddedMarks at h
  split at h
  · split at h
    · cases h
    · obtain ⟨rfl, -⟩ := Prod.mk.inj h
      exact ⟨rfl, rfl, rfl⟩
  · obtain ⟨rfl, -⟩ := Prod.mk.inj h
    exact ⟨rfl, rfl, rfl⟩

/-- What `send` goes on with has only refused efforts in the place of its own. -/
theorem failed_sound {wire : Wire β} {stage : Stage} {last : GatewayError} (marks : Noted String)
    (hphase : (Phase.waiting wire stage).Sound log r.key)
    (hlogged : ∀ sent fix, wire.writtenEffort D = some sent →
      rejection D last r.send.label sent = some fix → .refused (r.key wire.dialect) sent ∈ log) :
    (r.send.failed D marks wire stage last).1.Sound log r.key ∧
      ∀ dialect pre fix, .remember dialect pre fix ∉ (r.send.failed D marks wire stage last).2 := by
  obtain ⟨hpre, -⟩ := hphase
  unfold Send.failed
  cases stage with
  | first =>
    dsimp only
    split
    · split
      next wire' hdrop =>
        obtain ⟨hdialect, hsame⟩ := dropAddedMarks_same (D := D) wire
        rw [hdrop] at hdialect hsame
        dsimp only at hdialect hsame
        refine ⟨⟨?_, nofun⟩, by simp⟩
        rw [hdialect, hsame]
        exact hpre
      next wire' hdrop =>
        obtain ⟨hbody, hdialect, hsame⟩ := body_of_dropAddedMarks hdrop
        refine ⟨tryEffort_sound marks ?_ ?_, by simp⟩
        · rw [hdialect, hsame]
          exact hpre
        · rw [Wire.writtenEffort, hbody, hdialect]
          exact hlogged
    · exact ⟨tryEffort_sound marks hpre hlogged, by simp⟩
  | unmarked => exact ⟨tryEffort_sound marks hpre hlogged, by simp⟩
  | refixed pre fix remembered =>
    refine ⟨tryAlternates_sound _ _ _ _ _ _, ?_⟩
    dsimp only
    split <;> simp
  | alternate protocol rest => exact ⟨tryAlternates_sound _ _ _ _ _ _, by simp⟩

/-! ## What the effects leave -/

/-- A fix is only remembered for an effort that was refused. -/
def Effect.Ok (log : List Event) (r : Request β) : Effect → Prop
  | .remember dialect pre _ => .refused (r.key dialect) pre ∈ log
  | _ => True

theorem Effect.Ok.mono {effect : Effect} (h : effect.Ok log r) (hlog : ∀ e ∈ log, e ∈ log') :
    effect.Ok log' r := by
  cases effect with
  | remember dialect pre fix => exact hlog _ h
  | _ => exact trivial

theorem Grounded.cons {clock : Int} {e : Event} (h : Grounded clock log) (he : e.Justified log)
    (hpast : ∀ key w fix t, e = .noted key w fix t → t ≤ clock) : Grounded clock (e :: log) where
  justified := by
    intro later e' earlier heq
    cases later with
    | nil =>
      obtain ⟨rfl, rfl⟩ := List.cons.inj heq
      exact he
    | cons x later => exact h.justified later e' earlier (List.cons.inj heq).2
  past := fun key w fix t hmem =>
    (List.mem_cons.mp hmem).elim (fun heq => hpast key w fix t heq.symm) (h.past key w fix t)

/-- The state with a grown log. -/
theorem State.Sound.log_mono (h : s.Sound D) (hgrounded : Grounded s.clock log')
    (hlog : ∀ e ∈ s.log, e ∈ log') : ({ s with log := log' } : State β).Sound D where
  grounded := hgrounded
  redis := fun k m hm e he => (h.redis k m hm e he).mono hlog
  requests := fun i r hr => (h.requests i r hr).mono hlog
  tasks := fun t ht => (h.tasks t ht).mono hlog

theorem State.Sound.set (h : s.Sound D) (hr : r.phase.Sound s.log r.key) :
    (s.set i r).Sound D where
  grounded := h.grounded
  redis := h.redis
  requests := by
    intro j r' hj
    unfold State.set at hj
    dsimp only at hj
    split at hj
    · obtain rfl := Option.some.inj hj
      exact hr
    · exact h.requests j r' hj
  tasks := h.tasks

theorem State.Sound.forgetProvider (h : s.Sound D) (provider : Uuid) :
    (s.forgetProvider provider).Sound D where
  grounded := h.grounded
  redis := by
    intro k m hm
    unfold State.forgetProvider at hm
    dsimp only at hm
    split at hm
    · cases hm
    · exact h.redis k m hm
  requests := h.requests
  tasks := h.tasks

theorem State.Sound.addTask {t : Task} (h : s.Sound D) (ht : t.Sound D s.log) :
    ({ s with tasks := s.tasks ++ [t] } : State β).Sound D :=
  { h with
    tasks := by
      intro t' ht'
      rcases List.mem_append.mp ht' with ht' | ht'
      · exact h.tasks t' ht'
      · exact List.mem_singleton.mp ht' ▸ ht }

theorem State.Sound.setTask {t : Task} (h : s.Sound D) (j : Nat) (ht : t.Sound D s.log) :
    ({ s with tasks := s.tasks.set j t } : State β).Sound D :=
  { h with
    tasks := fun t' ht' => (List.mem_or_eq_of_mem_set ht').elim (h.tasks t') fun heq => heq ▸ ht }

/-- An effect keeps the state sound, and the log as a part of the new one. -/
theorem State.Sound.perform {effect : Effect} (h : s.Sound D) (hok : effect.Ok s.log r) (i : Nat) :
    (s.perform i r effect).Sound D ∧ ∀ e ∈ s.log, e ∈ (s.perform i r effect).log := by
  cases effect with
  | noteMarks =>
    have hg := h.grounded.cons (e := .marked r.upstream r.send.model) trivial
      fun _ _ _ _ heq => by cases heq
    exact ⟨{ h.log_mono hg fun e => List.mem_cons_of_mem _ with }, fun e => List.mem_cons_of_mem _⟩
  | remember dialect pre fix =>
    have hg := h.grounded.cons (e := .answered (r.key dialect) pre fix) hok
      fun _ _ _ _ heq => by cases heq
    refine ⟨(h.log_mono hg fun e => List.mem_cons_of_mem _).addTask ?_,
      fun e => List.mem_cons_of_mem _⟩
    exact List.mem_cons_self
  | forget dialect pre => exact ⟨h.addTask (t := .reading _ (.forget pre)) trivial, fun _ => id⟩
  | persist protocol =>
    have hf := h.forgetProvider r.send.entry.providerId
    have hg := hf.grounded.cons (e := .persisted i protocol) trivial
      fun _ _ _ _ heq => by cases heq
    exact ⟨hf.log_mono hg fun e => List.mem_cons_of_mem _, fun e => List.mem_cons_of_mem _⟩

theorem State.Sound.performs {effects : List Effect} (h : s.Sound D)
    (hok : ∀ effect ∈ effects, effect.Ok s.log r) (i : Nat) :
    (effects.foldl (fun s effect => s.perform i r effect) s).Sound D := by
  induction effects generalizing s with
  | nil => exact h
  | cons effect effects ih =>
    obtain ⟨hs, hlog⟩ := h.perform (hok effect List.mem_cons_self) i
    exact ih hs fun e he => (hok e (List.mem_cons_of_mem _ he)).mono hlog

/-! ## The steps -/

theorem phase_enter (r : Request β) (phase : Phase β) :
    (r.enter phase).phase = phase ∧ (r.enter phase).key = r.key := by
  unfold Request.enter
  split <;> exact ⟨rfl, rfl⟩

theorem State.Sound.enter {phase : Phase β} (h : s.Sound D) (r' : Request β)
    (hkey : r'.key = r.key) (hphase : phase.Sound s.log r.key) :
    (s.set i (r'.enter phase)).Sound D := by
  obtain ⟨heq, hkeys⟩ := phase_enter r' phase
  exact h.set (by rw [heq, hkeys, hkey]; exact hphase)

theorem State.Sound.recalled (h : s.Sound D) (key : Key) (readable : Bool) :
    ∀ e ∈ (s.recalled key readable).entries, Backed D s.log key e := by
  unfold State.recalled
  split
  · cases hm : s.redis key with
    | none => exact fun _ he => absurd he List.not_mem_nil
    | some m => exact h.redis key m hm
  · exact fun _ he => absurd he List.not_mem_nil

/-- What is rewritten from memory was noted, less than a week ago. -/
theorem rewrite_spec {wire fixed : Wire β} {memory : Memory}
    (hgrounded : Grounded now log) (hbacked : ∀ e ∈ memory.entries, Backed D log key e)
    (h : wire.rewrite D memory now = some (w, fix, fixed)) :
    fixed.dialect = wire.dialect ∧ fixed.pre = some w ∧
      ∃ t, t ≤ now ∧ now < t + memoryTtlSecs ∧ .noted key w fix t ∈ log ∧ ¬ fix.Is w := by
  obtain ⟨w', hwritten, h⟩ := Option.bind_eq_some_iff.mp h
  obtain ⟨fix', hinstead, h⟩ := Option.bind_eq_some_iff.mp h
  obtain ⟨fixed', hfixed, h⟩ := Option.bind_eq_some_iff.mp h
  cases h
  obtain ⟨entry, hmem, hfix, hlt⟩ := Memory.mem_of_insteadOf hinstead
  obtain ⟨w'', fix'', t, heq, hnoted, his⟩ := hbacked _ hmem
  obtain ⟨hslug, rfl⟩ := Prod.mk.inj heq
  obtain rfl := WrittenEffort.slug_inj D hslug
  rw [EffortFix.fix_entry] at hfix
  obtain rfl := Option.some.inj hfix
  have ht : (fix''.entry D t).atSecs = t := by cases fix'' <;> rfl
  rw [ht] at hlt
  exact ⟨(fixEffort_same hfixed).1, rfl, t, hgrounded.past _ _ _ _ hnoted, hlt, hnoted, his⟩

theorem State.Sound.askMemory {readable : Bool} (h : s.Sound D)
    (hstep : s.askMemory D i readable = some s') : s'.Sound D := by
  unfold State.askMemory at hstep
  split at hstep
  next r hr =>
    split at hstep
    next wire stage hphase =>
      have hsound := h.requests i r hr
      rw [hphase] at hsound
      obtain ⟨hpre, hstage⟩ := hsound
      obtain rfl := Option.some.inj hstep
      have hbacked : ∀ e ∈ (if r.send.any then s.recalled (r.key wire.dialect) readable
          else .empty).entries, Backed D s.log (r.key wire.dialect) e := by
        split
        · exact h.recalled _ _
        · exact fun _ he => absurd he List.not_mem_nil
      generalize (if r.send.any then s.recalled (r.key wire.dialect) readable else .empty) = memory
        at hbacked
      unfold Wire.rememberedBy
      -- nothing is rewritten: the hop goes out as it was addressed
      have hplain : ({ s.set i (r.enter (.waiting wire stage)) with log := [] ++ s.log } :
          State β).Sound D := by
        refine h.enter (r := r) r rfl ⟨fun w hw => ?_, fun pre fix b hb => absurd hb (hstage pre fix b)⟩
        rw [hpre] at hw
        cases hw
      split
      · exact hplain
      · cases hrewrite : wire.rewrite D memory s.clock with
        | none => exact hplain
        | some x =>
          obtain ⟨w, fix, fixed⟩ := x
          obtain ⟨hdialect, hfixed, t, hle, hlt, hnoted, his⟩ :=
            rewrite_spec h.grounded hbacked hrewrite
          have hg := h.grounded.cons (e := .used (r.key wire.dialect) w fix s.clock)
            ⟨t, hle, hlt, hnoted, his⟩ fun _ _ _ _ heq => by cases heq
          refine (h.log_mono hg fun e => List.mem_cons_of_mem _).enter (r := r) r rfl ⟨?_, ?_⟩
          · intro w' hw'
            rw [hfixed] at hw'
            obtain rfl := Option.some.inj hw'
            rw [hdialect]
            exact List.mem_cons_of_mem _
              (h.grounded.answered (h.grounded.noted hnoted))
          · exact fun pre fix b hb => absurd hb (hstage pre fix b)
    next => cases hstep
  next => cases hstep

/-- What the answer to `wire` refuses is logged. -/
theorem grounded_refused {clock : Int} (h : Grounded clock log) (wire : Wire β) (e : GatewayError) :
    Grounded clock ((r.refusedEffort D wire e).toList.map (.refused (r.key wire.dialect)) ++ log) ∧
      ∀ sent fix, wire.writtenEffort D = some sent → rejection D e r.send.label sent = some fix →
        .refused (r.key wire.dialect) sent ∈
          (r.refusedEffort D wire e).toList.map (Event.refused (r.key wire.dialect)) ++ log := by
  constructor
  · cases r.refusedEffort D wire e with
    | none => exact h
    | some sent => exact h.cons trivial fun _ _ _ _ heq => by cases heq
  · intro sent fix hsent hfix
    have hrefused : r.refusedEffort D wire e = some sent := by
      rw [Request.refusedEffort, hsent]
      change ((rejection D e r.send.label sent).bind fun _ => some sent) = some sent
      rw [hfix]
      rfl
    rw [hrefused]
    exact List.mem_cons_self

theorem State.Sound.answer {result : Except GatewayError Unit} (h : s.Sound D)
    (hstep : s.answer D i result = some s') : s'.Sound D := by
  unfold State.answer at hstep
  split at hstep
  next r hr =>
    split at hstep
    next wire stage hphase =>
      have hsound := h.requests i r hr
      rw [hphase] at hsound
      cases result with
      | ok =>
        obtain rfl := Option.some.inj hstep
        have hdone : (Phase.done (.ok wire) : Phase β).Sound s.log r.key := trivial
        refine State.Sound.performs (r := r) (h.enter r rfl hdone) ?_ i
        intro effect he
        cases stage with
        | refixed pre fix b =>
          rw [List.mem_singleton.mp he]
          exact hsound.2 pre fix b rfl
        | alternate protocol rest =>
          rw [List.mem_singleton.mp he]
          exact trivial
        | _ => cases he
      | error e =>
        obtain rfl := Option.some.inj hstep
        obtain ⟨hg, hlogged⟩ := grounded_refused (D := D) (r := r) h.grounded wire e
        have hlog := h.log_mono hg fun e' he' => List.mem_append_right _ he'
        have hwaiting := hsound.mono fun e' he' => List.mem_append_right
          ((r.refusedEffort D wire e).toList.map (.refused (r.key wire.dialect))) he'
        obtain ⟨hnext, heffects⟩ := failed_sound (D := D) (s.marks r.upstream) hwaiting hlogged
        refine State.Sound.performs (r := r)
          (hlog.enter (r := r) { r with failures := e :: r.failures } rfl hnext) ?_ i
        intro effect he
        cases effect with
        | remember dialect pre fix => exact absurd he (heffects dialect pre fix)
        | _ => exact trivial
    next => cases hstep
  next => cases hstep

theorem State.Sound.taskRead {readable : Bool} {j : Nat} (h : s.Sound D)
    (hstep : s.taskRead D j readable = some s') : s'.Sound D := by
  unfold State.taskRead at hstep
  split at hstep
  next key change hj =>
    have htask := h.tasks _ (List.mem_of_getElem? hj)
    dsimp only at hstep
    split at hstep
    · obtain rfl := Option.some.inj hstep
      exact h.setTask j (show Task.Sound D s.log .finished from trivial)
    · obtain rfl := Option.some.inj hstep
      cases change with
      | remember pre fix =>
        have hg := h.grounded.cons (e := .noted key pre fix s.clock) htask
          (fun key w fix t heq => by cases heq; exact Int.le_refl _)
        refine (h.log_mono hg fun e => List.mem_cons_of_mem _).setTask j ?_
        intro e he
        rcases Memory.mem_note he with he | ⟨rfl, his⟩
        · exact (h.recalled key readable e he).mono fun e => List.mem_cons_of_mem _
        · exact ⟨pre, fix, s.clock, rfl, List.mem_cons_self, his⟩
      | forget pre =>
        exact h.setTask j fun e he => h.recalled key readable e (List.mem_filter.mp he).1
  next => cases hstep

theorem State.Sound.taskWrite {j : Nat} (h : s.Sound D) (hstep : s.taskWrite j = some s') :
    s'.Sound D := by
  unfold State.taskWrite at hstep
  split at hstep
  next key memory hj =>
    have htask := h.tasks _ (List.mem_of_getElem? hj)
    obtain rfl := Option.some.inj hstep
    have hover : Task.Sound D s.log .finished := trivial
    refine { h.setTask j hover with redis := ?_ }
    intro k m hm
    dsimp only at hm
    split at hm
    next hk =>
      subst hk
      split at hm
      · cases hm
      · obtain rfl := Option.some.inj hm
        exact htask
    next => exact h.redis k m hm
  next => cases hstep

theorem State.Sound.arrive {send : Send β} {upstream : Nat} (h : s.Sound D)
    (hstep : s.arrive D i send upstream = some s') : s'.Sound D := by
  unfold State.arrive at hstep
  split at hstep
  · obtain rfl := Option.some.inj hstep
    exact h.set (addressed_sound send _ _ _ fun _ _ _ hstage => Stage.noConfusion hstage)
  · cases hstep

theorem State.Sound.step (h : s.Sound D) (hstep : Next D s a s') : s'.Sound D := by
  cases a with
  | tick secs =>
    obtain rfl := Option.some.inj hstep
    refine { h with grounded := { h.grounded with past := fun key w fix t ht => ?_ } }
    exact le_trans (h.grounded.past key w fix t ht)
      (Int.le_add_of_nonneg_right (Int.natCast_nonneg secs))
  | lose provider =>
    obtain rfl := Option.some.inj hstep
    exact h.forgetProvider provider
  | arrive i send upstream => exact h.arrive hstep
  | askMemory i readable => exact h.askMemory hstep
  | answer i result => exact h.answer hstep
  | taskRead j readable => exact h.taskRead hstep
  | taskWrite j => exact h.taskWrite hstep

theorem sound_start (clock : Int) : (State.start clock : State β).Sound D where
  grounded := ⟨fun later _ _ h => absurd h.symm (List.append_ne_nil_of_right_ne_nil later
    (List.cons_ne_nil _ _)), fun _ _ _ _ h => absurd h List.not_mem_nil⟩
  redis := fun _ _ h => absurd h (Option.some_ne_none _).symm
  requests := fun _ _ h => absurd h (Option.some_ne_none _).symm
  tasks := fun _ h => absurd h List.not_mem_nil

/-! ## What the hops are made of -/

/-- How a hop comes from what was addressed: `used` is the effort that the memory rewrote, what it
put in its place, and when. -/
inductive Made (D : Dialects J β) (a : Addressed β) :
    Option (WrittenEffort × EffortFix × Int) → Wire β → Prop where
  | addressed : Made D a none a.wire
  | unmarked {used : Option (WrittenEffort × EffortFix × Int)} {wire : Wire β}
      (h : Made D a used wire) : Made D a used (wire.dropAddedMarks D).1
  | recalled {wire fixed : Wire β} {memory : Memory} {w : WrittenEffort} {fix : EffortFix} {now : Int}
      (h : Made D a none wire) (hrewrite : wire.rewrite D memory now = some (w, fix, fixed)) :
      Made D a (some (w, fix, now)) fixed
  | refused {used : Option (WrittenEffort × EffortFix × Int)} {wire fixed : Wire β}
      {w : WrittenEffort} {fix : EffortFix} (h : Made D a used wire)
      (hfix : wire.fixEffort D fix w .rejected = some fixed) : Made D a used fixed

theorem Made.dialect {addressed : Addressed β} {used : Option (WrittenEffort × EffortFix × Int)}
    {wire : Wire β} (h : Made D addressed used wire) : wire.dialect = addressed.dialect := by
  induction h with
  | addressed => rfl
  | unmarked _ ih => exact (dropAddedMarks_same _).1.trans ih
  | @recalled wire _ memory w fix now _ hrewrite ih =>
    -- a rewrite is a change of the effort that is written
    obtain ⟨w', -, hrewrite⟩ := Option.bind_eq_some_iff.mp hrewrite
    obtain ⟨fix', -, hrewrite⟩ := Option.bind_eq_some_iff.mp hrewrite
    obtain ⟨fixed', hfixed, hrewrite⟩ := Option.bind_eq_some_iff.mp hrewrite
    cases hrewrite
    exact (fixEffort_same hfixed).1.trans ih
  | refused _ hfix ih => exact (fixEffort_same hfix).1.trans ih

/-- A hop of a request, whose use of the memory is logged. -/
def Hop (D : Dialects J β) (log : List Event) (r : Request β) (wire : Wire β) : Prop :=
  ∃ p addressed used, r.send.address p = .ok addressed ∧ Made D addressed used wire ∧
    ∀ w fix now, used = some (w, fix, now) → .used (r.key addressed.dialect) w fix now ∈ log

def Phase.Made (D : Dialects J β) (log : List Event) (r : Request β) : Phase β → Prop
  | .recalling wire _ => ∃ p addressed, r.send.address p = .ok addressed ∧
      Learned.Made D addressed none wire
  | .waiting wire _ => Hop D log r wire
  | .done _ => True

structure Request.Made (D : Dialects J β) (log : List Event) (r : Request β) : Prop where
  calls : ∀ wire ∈ r.calls, Hop D log r wire
  phase : r.phase.Made D log r

def State.Hops (D : Dialects J β) (s : State β) : Prop :=
  ∀ i r, s.requests i = some r → r.Made D s.log

theorem Hop.mono {wire : Wire β} (h : Hop D log r wire) (hlog : ∀ e ∈ log, e ∈ log') :
    Hop D log' r wire := by
  obtain ⟨p, addressed, used, haddress, hmade, hused⟩ := h
  exact ⟨p, addressed, used, haddress, hmade, fun w fix now heq => hlog _ (hused w fix now heq)⟩

theorem Request.Made.mono (h : r.Made D log) (hlog : ∀ e ∈ log, e ∈ log') : r.Made D log' where
  calls wire hwire := (h.calls wire hwire).mono hlog
  phase := by
    have hphase := h.phase
    cases hp : r.phase with
    | recalling wire stage =>
      rw [hp] at hphase
      exact hphase
    | waiting wire stage =>
      rw [hp] at hphase
      exact Hop.mono hphase hlog
    | done result => exact trivial

theorem addressed_made (marks : Noted String) (protocol : UpstreamProtocol) (stage : Stage) :
    (r.send.addressed D marks protocol stage).Made D log r := by
  unfold Send.addressed
  split
  · exact trivial
  next a ha =>
    refine ⟨protocol, a, ha, ?_⟩
    split
    · exact .unmarked .addressed
    · exact .addressed

theorem tryAlternates_made (marks : Noted String) (dialect : Dialect) (last : GatewayError)
    (rest : List UpstreamProtocol) :
    (r.send.tryAlternates D marks dialect last rest).Made D log r := by
  unfold Send.tryAlternates
  split
  · exact trivial
  · split
    · exact addressed_made marks _ _
    · exact trivial

theorem tryEffort_made {wire : Wire β} (h : Hop D log r wire) (marks : Noted String)
    (last : GatewayError) : (r.send.tryEffort D marks wire last).Made D log r := by
  unfold Send.tryEffort
  split
  next pre fix fixed hrefix =>
    obtain ⟨sent, -, -, -, hfixed⟩ := refix_spec hrefix
    obtain ⟨p, addressed, used, haddress, hmade, hused⟩ := h
    exact ⟨p, addressed, used, haddress, hmade.refused hfixed, hused⟩
  next => exact tryAlternates_made marks _ _ _

theorem failed_made {wire : Wire β} (h : Hop D log r wire) (marks : Noted String) (stage : Stage)
    (last : GatewayError) : (r.send.failed D marks wire stage last).1.Made D log r := by
  have hdropped : Hop D log r (wire.dropAddedMarks D).1 := by
    obtain ⟨p, addressed, used, haddress, hmade, hused⟩ := h
    exact ⟨p, addressed, used, haddress, hmade.unmarked, hused⟩
  unfold Send.failed
  cases stage with
  | first =>
    dsimp only
    split
    · split
      next wire' hdrop =>
        rw [hdrop] at hdropped
        exact hdropped
      next wire' hdrop =>
        rw [hdrop] at hdropped
        exact tryEffort_made hdropped marks last
    · exact tryEffort_made h marks last
  | unmarked => exact tryEffort_made h marks last
  | refixed pre fix remembered => exact tryAlternates_made marks _ _ _
  | alternate protocol rest => exact tryAlternates_made marks _ _ _

theorem Request.Made.enter {phase : Phase β} (h : ∀ wire ∈ r.calls, Hop D log r wire)
    (hphase : phase.Made D log r) : (r.enter phase).Made D log := by
  unfold Request.enter
  cases phase with
  | waiting wire stage => exact ⟨List.forall_mem_cons.mpr ⟨hphase, h⟩, hphase⟩
  | recalling wire stage => exact ⟨h, hphase⟩
  | done result => exact ⟨h, trivial⟩

theorem State.Hops.set (h : s.Hops D) (hr : r.Made D s.log) : (s.set i r).Hops D := by
  intro j r' hj
  unfold State.set at hj
  dsimp only at hj
  split at hj
  · obtain rfl := Option.some.inj hj
    exact hr
  · exact h j r' hj

/-- The requests are the same, and the log may have grown. -/
theorem State.Hops.grow (h : s.Hops D) (hrequests : s'.requests = s.requests)
    (hlog : ∀ e ∈ s.log, e ∈ s'.log) : s'.Hops D :=
  fun j r hj => (h j r (hrequests ▸ hj)).mono hlog

theorem perform_grow (s : State β) (i : Nat) (r : Request β) (effect : Effect) :
    (s.perform i r effect).requests = s.requests ∧
      ∀ e ∈ s.log, e ∈ (s.perform i r effect).log := by
  cases effect with
  | forget dialect pre => exact ⟨rfl, fun _ => id⟩
  | _ => exact ⟨rfl, fun _ => List.mem_cons_of_mem _⟩

theorem State.Hops.performs {effects : List Effect} (h : s.Hops D) (i : Nat) (r : Request β) :
    (effects.foldl (fun s effect => s.perform i r effect) s).Hops D := by
  induction effects generalizing s with
  | nil => exact h
  | cons effect effects ih =>
    obtain ⟨hrequests, hlog⟩ := perform_grow s i r effect
    exact ih (h.grow hrequests hlog)

theorem State.Hops.askMemory {readable : Bool} (h : s.Hops D)
    (hstep : s.askMemory D i readable = some s') : s'.Hops D := by
  unfold State.askMemory at hstep
  split at hstep
  next r hr =>
    split at hstep
    next wire stage hphase =>
      obtain ⟨hcalls, hmade⟩ := h i r hr
      rw [hphase] at hmade
      obtain ⟨p, addressed, haddress, hmade⟩ := hmade
      obtain rfl := Option.some.inj hstep
      generalize (if r.send.any then s.recalled (r.key wire.dialect) readable else .empty) = memory
      have hgrow (uses : List Event) : ({ s with log := uses ++ s.log } : State β).Hops D :=
        h.grow rfl fun _ => List.mem_append_right uses
      have henter (uses : List Event) {sent : Wire β} (hhop : Hop D (uses ++ s.log) r sent) :
          (r.enter (.waiting sent stage)).Made D (uses ++ s.log) :=
        Request.Made.enter
          (fun wire hwire => (hcalls wire hwire).mono fun _ => List.mem_append_right uses) hhop
      have hplain : Hop D s.log r wire := ⟨p, addressed, none, haddress, hmade, fun _ _ _ => nofun⟩
      unfold Wire.rememberedBy
      split
      · exact (hgrow []).set (henter [] hplain)
      · cases hrewrite : wire.rewrite D memory s.clock with
        | none => exact (hgrow []).set (henter [] hplain)
        | some x =>
          obtain ⟨w, fix, fixed⟩ := x
          -- the use is logged in the step that sends the hop
          refine (hgrow [.used (r.key wire.dialect) w fix s.clock]).set (henter [_] ?_)
          refine ⟨p, addressed, some (w, fix, s.clock), haddress, hmade.recalled hrewrite, ?_⟩
          rintro _ _ _ ⟨⟩
          exact hmade.dialect ▸ List.mem_cons_self
    next => cases hstep
  next => cases hstep

theorem State.Hops.answer {result : Except GatewayError Unit} (h : s.Hops D)
    (hstep : s.answer D i result = some s') : s'.Hops D := by
  unfold State.answer at hstep
  split at hstep
  next r hr =>
    split at hstep
    next wire stage hphase =>
      obtain ⟨hcalls, hhop⟩ := h i r hr
      rw [hphase] at hhop
      cases result with
      | ok =>
        obtain rfl := Option.some.inj hstep
        have hdone : (Phase.done (.ok wire) : Phase β).Made D s.log r := trivial
        exact (h.set (Request.Made.enter hcalls hdone)).performs i r
      | error e =>
        obtain rfl := Option.some.inj hstep
        generalize (r.refusedEffort D wire e).toList.map (Event.refused (r.key wire.dialect)) = new
        have hgrow : ({ s with log := new ++ s.log } : State β).Hops D :=
          h.grow rfl fun _ => List.mem_append_right new
        have hcalls' : ∀ wire ∈ r.calls, Hop D (new ++ s.log) r wire := fun wire hwire =>
          (hcalls wire hwire).mono fun _ => List.mem_append_right new
        -- the refused effort is logged, and the next hop is made of the refused one
        have hnext : (r.send.failed D (s.marks r.upstream) wire stage e).1.Made D (new ++ s.log) r :=
          failed_made (Hop.mono hhop fun _ => List.mem_append_right new) _ _ _
        have henter : ({ r with failures := e :: r.failures }.enter
            (r.send.failed D (s.marks r.upstream) wire stage e).1).Made D (new ++ s.log) :=
          Request.Made.enter hcalls' hnext
        exact (hgrow.set henter).performs i r
    next => cases hstep
  next => cases hstep

theorem State.Hops.taskRead {readable : Bool} {j : Nat} (h : s.Hops D)
    (hstep : s.taskRead D j readable = some s') : s'.Hops D := by
  unfold State.taskRead at hstep
  split at hstep
  · dsimp only at hstep
    split at hstep
    · obtain rfl := Option.some.inj hstep
      exact h
    · obtain rfl := Option.some.inj hstep
      exact h.grow rfl fun _ => List.mem_append_right _
  · cases hstep

theorem State.Hops.step (h : s.Hops D) (hstep : Next D s a s') : s'.Hops D := by
  cases a with
  | tick secs =>
    obtain rfl := Option.some.inj hstep
    exact h
  | lose provider =>
    obtain rfl := Option.some.inj hstep
    exact h
  | arrive i send upstream =>
    unfold Next State.step State.arrive at hstep
    dsimp only at hstep
    split at hstep
    · obtain rfl := Option.some.inj hstep
      exact h.set ⟨fun _ hwire => absurd hwire List.not_mem_nil, addressed_made _ _ _⟩
    · cases hstep
  | askMemory i readable => exact h.askMemory hstep
  | answer i result => exact h.answer hstep
  | taskRead j readable => exact h.taskRead hstep
  | taskWrite j =>
    unfold Next State.step State.taskWrite at hstep
    dsimp only at hstep
    split at hstep
    · obtain rfl := Option.some.inj hstep
      exact h
    · cases hstep

theorem hops_start (clock : Int) : (State.start clock : State β).Hops D :=
  fun _ _ h => absurd h (Option.some_ne_none _).symm

def effortNames : List (String × Option Effort) :=
  [("none", none), ("minimal", some .minimal), ("low", some .low), ("medium", some .medium),
    ("high", some .high), ("xhigh", some .xhigh), ("max", some .max)]

def openaiName : Effort → String
  | .minimal => "minimal"
  | .low => "low"
  | .medium => "medium"
  | .high => "high"
  | .xhigh => "xhigh"
  | .max => "max"

theorem lookup_openaiName (e : Effort) : effortNames.lookup (openaiName e) = some (some e) := by
  cases e <;> decide +kernel

theorem lookup_none : effortNames.lookup "none" = some none := by
  decide +kernel

/-- Requests of which nothing but the effort is left. -/
def plainDialects : Dialects (Option WrittenEffort) (Option WrittenEffort) where
  fromSlice := some
  toVec := some
  openai := openaiName
  parseOpenai s := effortNames.lookup s
  parse_openai := lookup_openaiName
  parse_none := lookup_none
  writtenEffort _ v := v
  reasoningEffort _ _ := none
  replaceReasoningEffort _ v e := if v = some (.level e) then none else some (some (.level e))
  removeReasoningEffort _ v := v.map fun _ => none
  stripMarks _ _ := none
  effortRejection status said e :=
    if status = 400 ∧ e = .xhigh ∧ "'high'".toList <:+: said then some (.use .high) else none
  noneFix _ _ := none
  sealedRefused _ _ := false

def thinkingRoute : RouteEntry :=
  ⟨1, 10, "relay", some "gpt-5", 100, none, none, none, .openAiChat, []⟩

/-- A request for `xhigh`. -/
def thinkHard : Send (Option WrittenEffort) :=
  ⟨thinkingRoute, "relay", "gpt-5", true, fun _ => .ok ⟨some (.level .xhigh), .chat, false, none⟩⟩

def tooHard : GatewayError :=
  .providerHttpError 400 "relay: 'xhigh' is not supported. Use 'low', 'medium' or 'high'." none

def refusedOnce : List (Action (Option WrittenEffort)) :=
  [.arrive 0 thinkHard 0, .askMemory 0 true, .answer 0 (.error tooHard), .answer 0 (.ok ()),
    .taskRead 0 true, .taskWrite 0, .tick 60, .arrive 1 thinkHard 1, .askMemory 1 true]

end ThinkWatch.Gateway.Learned
