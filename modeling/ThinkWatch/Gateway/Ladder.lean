import ThinkWatch.Gateway.Learned

/-!
# What a request may be resent as

`resent_lawful`: every request of every run is sent three times at most in its route's format and then
once in each alternate, as it was addressed but for what the conversion added and for its effort; and
a route's format is only replaced by one that was answered, after the one before it was refused as a
format.
`spared_iff`: added breakpoints are left out of a first request exactly if the upstream refused them
for the model, and for fewer than 1024 others since.
-/

namespace ThinkWatch.Gateway.Learned

open Lib
open Gateway.Stream (Dialect)

variable {J β : Type} {D : Dialects J β} {s s' : State β} {a : Action β} {as : List (Action β)}
  {r : Request β} {i : Nat} {wire wire' : Wire β} {stage : Stage} {phase : Phase β} {c : Send β}
  {marks : Noted String} {p : UpstreamProtocol} {e : GatewayError}

/-! ## What a request may be changed to -/

/-- A body of a request that was addressed: breakpoints are taken out only if the conversion added
them, and the effort is rewritten. -/
inductive Rewritten (D : Dialects J β) (a : Addressed β) : β → Prop where
  | same : Rewritten D a a.body
  | strip {body body' : β} (h : Rewritten D a body) (hauto : a.autoCache = true)
      (hstrip : D.stripMarks a.dialect body = some body') : Rewritten D a body'
  | fix {body body' : β} {fix : EffortFix} {sent : Option String} (h : Rewritten D a body)
      (hfix : applyFix D a.dialect body fix = some (body', sent)) : Rewritten D a body'

/-- The hop is the request as `protocol` takes it. -/
def OwnAs (D : Dialects J β) (c : Send β) (p : UpstreamProtocol) (wire : Wire β) : Prop :=
  ∃ a, c.address p = .ok a ∧ wire.dialect = a.dialect ∧ Rewritten D a wire.body ∧
    (wire.autoCache = true → a.autoCache = true)

/-- The format of a stage. -/
def Stage.protocol (c : Send β) : Stage → UpstreamProtocol
  | .alternate p _ => p
  | _ => c.entry.protocol

/-- What was sent of a request, the latest first: at most `n` times as its route takes it, and then
once as each of `tried` does. -/
inductive SentAs (D : Dialects J β) (c : Send β) :
    Nat → List UpstreamProtocol → List (Wire β) → Prop where
  | none {n : Nat} : SentAs D c n [] []
  | route {n : Nat} {calls : List (Wire β)} {wire : Wire β} (h : SentAs D c n [] calls)
      (hown : OwnAs D c c.entry.protocol wire) : SentAs D c (n + 1) [] (wire :: calls)
  | alternate {n : Nat} {tried : List UpstreamProtocol} {calls : List (Wire β)} {wire : Wire β}
      {p : UpstreamProtocol} (h : SentAs D c n tried calls) (hown : OwnAs D c p wire) :
      SentAs D c n (tried ++ [p]) (wire :: calls)

/-- What was sent before the hop of a stage. -/
def Stage.Before (D : Dialects J β) (c : Send β) (calls : List (Wire β)) : Stage → Prop
  | .first => SentAs D c 0 [] calls
  | .unmarked => SentAs D c 1 [] calls
  | .refixed _ _ _ => SentAs D c 2 [] calls
  | .alternate p rest => ∃ tried, tried ++ p :: rest = c.entry.alternates ∧ SentAs D c 3 tried calls

/-- What was sent with the hop of a stage. -/
def Stage.After (D : Dialects J β) (c : Send β) (calls : List (Wire β)) : Stage → Prop
  | .first => SentAs D c 1 [] calls
  | .unmarked => SentAs D c 2 [] calls
  | .refixed _ _ _ => SentAs D c 3 [] calls
  | .alternate p rest => ∃ tried, tried ++ p :: rest = c.entry.alternates ∧
      SentAs D c 3 (tried ++ [p]) calls

/-- All that may be sent of a request. -/
def Sent (D : Dialects J β) (c : Send β) (calls : List (Wire β)) : Prop :=
  ∃ tried, tried <+: c.entry.alternates ∧ SentAs D c 3 tried calls

/-- An alternate is asked after a refusal of the format before it. -/
def Stage.Follows (failures : List GatewayError) : Stage → Prop
  | .alternate _ _ => ∃ e, failures.head? = some e ∧ isProtocolMismatch e = true
  | _ => True

/-- The hop of a phase, and its stage. -/
def Phase.Fits (D : Dialects J β) (c : Send β) (calls : List (Wire β))
    (failures : List GatewayError) : Phase β → Prop
  | .recalling wire stage => OwnAs D c (stage.protocol c) wire ∧ stage.Follows failures ∧
      stage.Before D c calls
  | .waiting wire stage => OwnAs D c (stage.protocol c) wire ∧ stage.Follows failures ∧
      stage.After D c calls ∧ calls.head? = some wire
  | .done (.ok wire) => Sent D c calls ∧ calls.head? = some wire
  | .done (.error _) => Sent D c calls

/-- A request is sent in the order of its stages. -/
def Request.Lawful (D : Dialects J β) (r : Request β) : Prop :=
  r.phase.Fits D r.send r.calls r.failures

theorem OwnAs.dropAddedMarks (h : OwnAs D c p wire) : OwnAs D c p (wire.dropAddedMarks D).1 := by
  obtain ⟨a, ha, hdialect, hbody, hauto⟩ := h
  unfold Wire.dropAddedMarks
  split
  next hcache =>
    split
    next body hstrip =>
      exact ⟨a, ha, hdialect, .strip hbody (hauto hcache) (hdialect ▸ hstrip), nofun⟩
    next => exact ⟨a, ha, hdialect, hbody, nofun⟩
  next => exact ⟨a, ha, hdialect, hbody, hauto⟩

theorem OwnAs.fixEffort {w : WrittenEffort} {fix : EffortFix} {reason : Reason}
    (h : OwnAs D c p wire) (hfix : wire.fixEffort D fix w reason = some wire') :
    OwnAs D c p wire' := by
  obtain ⟨a, ha, hdialect, hbody, hauto⟩ := h
  obtain ⟨⟨body, sent⟩, happly, rfl⟩ := Option.map_eq_some_iff.mp hfix
  exact ⟨a, ha, hdialect, .fix hbody (hdialect ▸ happly), hauto⟩

theorem OwnAs.rememberedBy (h : OwnAs D c p wire) (memory : Memory) (now : Int) :
    OwnAs D c p (wire.rememberedBy D memory now) := by
  unfold Wire.rememberedBy
  split
  · exact h
  · split
    next w fix wire' hrewrite =>
      obtain ⟨w', -, hrewrite⟩ := Option.bind_eq_some_iff.mp hrewrite
      obtain ⟨fix', -, hrewrite⟩ := Option.bind_eq_some_iff.mp hrewrite
      obtain ⟨fixed, hfixed, hrewrite⟩ := Option.bind_eq_some_iff.mp hrewrite
      cases hrewrite
      have hown : OwnAs D c p fixed := h.fixEffort hfixed
      exact hown
    next => exact h

/-! ## What was sent -/

theorem SentAs.mono {n m : Nat} {tried : List UpstreamProtocol} {calls : List (Wire β)}
    (h : SentAs D c n tried calls) (hnm : n ≤ m) : SentAs D c m tried calls := by
  induction h generalizing m with
  | none => exact .none
  | route h hown ih =>
    obtain ⟨m, rfl⟩ : ∃ m', m = m' + 1 := ⟨m - 1, by omega⟩
    exact .route (ih (Nat.le_of_succ_le_succ hnm)) hown
  | alternate h hown ih => exact .alternate (ih hnm) hown

/-- The calls are those as the route takes them, and then one for each alternate that was tried. -/
theorem SentAs.split {n : Nat} {tried : List UpstreamProtocol} {calls : List (Wire β)}
    (h : SentAs D c n tried calls) :
    ∃ own later, calls = later ++ own ∧ own.length ≤ n ∧
      (∀ wire ∈ own, OwnAs D c c.entry.protocol wire) ∧
      List.Forall₂ (OwnAs D c) tried later.reverse := by
  induction h with
  | none => exact ⟨[], [], rfl, Nat.zero_le _, fun _ h => absurd h List.not_mem_nil, .nil⟩
  | @route n calls wire h hown ih =>
    obtain ⟨own, later, rfl, hlength, hall, htried⟩ := ih
    -- nothing was sent to an alternate yet
    obtain rfl : later = [] := by simpa using htried
    refine ⟨wire :: own, [], rfl, Nat.succ_le_succ hlength, ?_, .nil⟩
    intro wire' hwire'
    rcases List.mem_cons.mp hwire' with rfl | hwire'
    · exact hown
    · exact hall wire' hwire'
  | @alternate n tried calls wire p h hown ih =>
    obtain ⟨own, later, rfl, hlength, hall, htried⟩ := ih
    refine ⟨own, wire :: later, rfl, hlength, hall, ?_⟩
    rw [List.reverse_cons]
    exact List.rel_append htried (.cons hown .nil)

theorem Stage.Before.sent {calls : List (Wire β)} (h : stage.Before D c calls) :
    Sent D c calls := by
  cases stage with
  | first => exact ⟨[], List.nil_prefix, SentAs.mono h (by omega)⟩
  | unmarked => exact ⟨[], List.nil_prefix, SentAs.mono h (by omega)⟩
  | refixed pre fix remembered => exact ⟨[], List.nil_prefix, SentAs.mono h (by omega)⟩
  | alternate p rest =>
    obtain ⟨tried, htried, h⟩ := h
    exact ⟨tried, htried ▸ List.prefix_append tried (p :: rest), h⟩

theorem Stage.After.sent {calls : List (Wire β)} (h : stage.After D c calls) :
    Sent D c calls := by
  cases stage with
  | first => exact ⟨[], List.nil_prefix, SentAs.mono h (by omega)⟩
  | unmarked => exact ⟨[], List.nil_prefix, SentAs.mono h (by omega)⟩
  | refixed pre fix remembered => exact ⟨[], List.nil_prefix, h⟩
  | alternate p rest =>
    obtain ⟨tried, htried, h⟩ := h
    have hprefix : tried ++ [p] <+: tried ++ p :: rest :=
      (List.prefix_append_right_inj tried).mpr (List.prefix_append [p] rest)
    exact ⟨tried ++ [p], htried ▸ hprefix, h⟩

/-- The hop of a stage is sent. -/
theorem Stage.Before.hop {calls : List (Wire β)} (h : stage.Before D c calls)
    (hown : OwnAs D c (stage.protocol c) wire) : stage.After D c (wire :: calls) := by
  cases stage with
  | first => exact SentAs.route h hown
  | unmarked => exact SentAs.route h hown
  | refixed pre fix remembered => exact SentAs.route h hown
  | alternate p rest =>
    obtain ⟨tried, htried, h⟩ := h
    exact ⟨tried, htried, .alternate h hown⟩

/-! ## The phases that follow -/

/-- A phase that may be entered. -/
def Phase.Ready (D : Dialects J β) (c : Send β) (calls : List (Wire β))
    (failures : List GatewayError) : Phase β → Prop
  | .done (.ok _) => False
  | .done (.error _) => Sent D c calls
  | .recalling wire stage => OwnAs D c (stage.protocol c) wire ∧ stage.Follows failures ∧
      stage.Before D c calls
  | .waiting wire stage => OwnAs D c (stage.protocol c) wire ∧ stage.Follows failures ∧
      stage.Before D c calls

theorem addressed_ready {calls : List (Wire β)} {failures : List GatewayError}
    (marks : Noted String) (hfollows : stage.Follows failures) (hsent : stage.Before D c calls) :
    (c.addressed D marks (stage.protocol c) stage).Ready D c calls failures := by
  unfold Send.addressed
  split
  · exact hsent.sent
  next a ha =>
    have hown : OwnAs D c (stage.protocol c) a.wire := ⟨a, ha, rfl, .same, id⟩
    refine ⟨?_, hfollows, hsent⟩
    split
    · exact hown.dropAddedMarks
    · exact hown

/-- The alternates are asked one after the other, each after a refusal of the format. -/
theorem tryAlternates_ready {calls : List (Wire β)} {failures : List GatewayError}
    {rest : List UpstreamProtocol} (marks : Noted String) (dialect : Dialect)
    (hsent : ∃ tried, tried ++ rest = c.entry.alternates ∧ SentAs D c 3 tried calls)
    (hlast : failures.head? = some e) :
    (c.tryAlternates D marks dialect e rest).Ready D c calls failures := by
  have hover : Sent D c calls := by
    obtain ⟨tried, htried, hsent⟩ := hsent
    exact ⟨tried, htried ▸ List.prefix_append tried rest, hsent⟩
  unfold Send.tryAlternates
  split
  · exact hover
  next q rest =>
    split
    next hmismatch =>
      have hfollows : (Stage.alternate q rest).Follows failures := ⟨e, hlast, hmismatch⟩
      exact addressed_ready marks hfollows hsent
    next => exact hover

theorem tryEffort_ready {calls : List (Wire β)} {failures : List GatewayError}
    (marks : Noted String) (hown : OwnAs D c c.entry.protocol wire)
    (hsent : SentAs D c 2 [] calls) (hlast : failures.head? = some e) :
    (c.tryEffort D marks wire e).Ready D c calls failures := by
  unfold Send.tryEffort
  split
  next pre fix fixed hrefix =>
    refine ⟨?_, trivial, hsent⟩
    unfold Send.refix at hrefix
    split at hrefix
    · obtain ⟨sent, -, hrefix⟩ := Option.bind_eq_some_iff.mp hrefix
      obtain ⟨fix', -, hrefix⟩ := Option.bind_eq_some_iff.mp hrefix
      obtain ⟨fixed', hfixed, hrefix⟩ := Option.bind_eq_some_iff.mp hrefix
      cases hrefix
      exact hown.fixEffort hfixed
    · cases hrefix
  next => exact tryAlternates_ready marks wire.dialect ⟨[], rfl, hsent.mono (by omega)⟩ hlast

/-- What follows a refusal, which is the latest failure then. -/
theorem failed_ready {calls : List (Wire β)} {failures : List GatewayError}
    (marks : Noted String) (hown : OwnAs D c (stage.protocol c) wire)
    (hsent : stage.After D c calls) (e : GatewayError) :
    (c.failed D marks wire stage e).1.Ready D c calls (e :: failures) := by
  have hlast : (e :: failures).head? = some e := rfl
  unfold Send.failed
  cases stage with
  | first =>
    have hone : SentAs D c 1 [] calls := hsent
    have heffort {wire : Wire β} (hown : OwnAs D c c.entry.protocol wire) :=
      tryEffort_ready (D := D) marks hown (hone.mono (by omega)) hlast
    have hdropped := hown.dropAddedMarks
    dsimp only
    split
    · split
      next wire' hdrop =>
        rw [hdrop] at hdropped
        exact ⟨hdropped, trivial, hone⟩
      next wire' hdrop =>
        rw [hdrop] at hdropped
        exact heffort hdropped
    · exact heffort hown
  | unmarked => exact tryEffort_ready marks hown hsent hlast
  | refixed pre fix remembered =>
    exact tryAlternates_ready marks wire.dialect ⟨[], rfl, hsent⟩ hlast
  | alternate q rest =>
    obtain ⟨tried, htried, hsent⟩ := hsent
    have hrest : tried ++ [q] ++ rest = c.entry.alternates := by
      rw [List.append_assoc]
      exact htried
    exact tryAlternates_ready marks wire.dialect ⟨tried ++ [q], hrest, hsent⟩ hlast

/-! ## The requests of a run -/

theorem Request.Lawful.sent (h : r.Lawful D) : Sent D r.send r.calls := by
  have hfits : r.phase.Fits D r.send r.calls r.failures := h
  cases hphase : r.phase with
  | recalling wire stage =>
    rw [hphase] at hfits
    exact hfits.2.2.sent
  | waiting wire stage =>
    rw [hphase] at hfits
    exact hfits.2.2.1.sent
  | done result =>
    rw [hphase] at hfits
    cases result with
    | ok wire => exact hfits.1
    | error e => exact hfits

theorem Request.Lawful.enter (hready : phase.Ready D r.send r.calls r.failures) :
    (r.enter phase).Lawful D := by
  unfold Request.enter
  cases phase with
  | recalling wire stage => exact hready
  | waiting wire stage =>
    obtain ⟨hown, hfollows, hsent⟩ := hready
    exact ⟨hown, hfollows, hsent.hop hown, rfl⟩
  | done result =>
    cases result with
    | ok wire => exact hready.elim
    | error e => exact hready

/-- The model of a refusal of breakpoints by the upstream. -/
def Event.markedAt (u : Nat) : Event → Option String
  | .marked u' model => if u' = u then some model else none
  | _ => none

/-- The models whose breakpoints the upstream refused, in the order of the refusals. -/
def refusals (u : Nat) (log : List Event) : List String := (log.filterMap (Event.markedAt u)).reverse

/-- The route is to be asked in the format from now on: the request was answered in it, after the
format before it was refused. -/
structure Relearned (D : Dialects J β) (r : Request β) (p : UpstreamProtocol) : Prop where
  alternate : p ∈ r.send.entry.alternates
  answered : ∃ wire, r.phase = .done (.ok wire) ∧ OwnAs D r.send p wire
  refused : ∃ e, r.failures.head? = some e ∧ isProtocolMismatch e = true

structure State.Lawful (D : Dialects J β) (s : State β) : Prop where
  requests : ∀ i r, s.requests i = some r → r.Lawful D
  persisted : ∀ i p, .persisted i p ∈ s.log → ∃ r, s.requests i = some r ∧ Relearned D r p
  marks : ∀ u, s.marks u = (refusals u s.log).foldl (Noted.note maxModels) .empty

theorem refusals_append (u : Nat) (new log : List Event) (h : ∀ e ∈ new, e.markedAt u = none) :
    refusals u (new ++ log) = refusals u log := by
  rw [refusals, List.filterMap_append, List.filterMap_eq_nil_iff.mpr h]
  rfl

/-- Events that are neither refusals of breakpoints nor formats do not matter. -/
theorem State.Lawful.append (h : s.Lawful D) {new : List Event}
    (hmarked : ∀ u, ∀ e ∈ new, e.markedAt u = none) (hnew : ∀ i p, .persisted i p ∉ new) :
    ({ s with log := new ++ s.log } : State β).Lawful D where
  requests := h.requests
  persisted := fun i p hmem =>
    h.persisted i p ((List.mem_append.mp hmem).resolve_left (hnew i p))
  marks := fun u => by
    rw [refusals_append u new s.log (hmarked u)]
    exact h.marks u

theorem State.Lawful.log {e : Event} (h : s.Lawful D) (hmarked : ∀ u, e.markedAt u = none)
    (hnew : ∀ i p, e ≠ .persisted i p) : ({ s with log := e :: s.log } : State β).Lawful D :=
  State.Lawful.append h (fun u _ he => List.mem_singleton.mp he ▸ hmarked u)
    fun i p hp => hnew i p (List.mem_singleton.mp hp).symm

/-- A request that is not over goes on. -/
theorem State.Lawful.set {r' : Request β} (h : s.Lawful D) (hr' : r'.Lawful D)
    (hold : ∀ r, s.requests i = some r → ∀ wire, r.phase ≠ .done (.ok wire)) :
    (s.set i r').Lawful D where
  requests := by
    intro j r hj
    unfold State.set at hj
    dsimp only at hj
    split at hj
    · obtain rfl := Option.some.inj hj
      exact hr'
    · exact h.requests j r hj
  persisted := by
    intro j p hmem
    obtain ⟨r, hr, hrelearned⟩ := h.persisted j p hmem
    obtain ⟨wire, hphase, -⟩ := hrelearned.answered
    have hji : j ≠ i := by
      rintro rfl
      exact hold r hr wire hphase
    exact ⟨r, (if_neg hji).trans hr, hrelearned⟩
  marks := h.marks

theorem State.Lawful.perform {effect : Effect} (h : s.Lawful D)
    (hpersist : ∀ p, effect = .persist p → ∃ r, s.requests i = some r ∧ Relearned D r p)
    (r : Request β) : (s.perform i r effect).Lawful D := by
  cases effect with
  | noteMarks =>
    refine ⟨h.requests, fun j p hmem => ?_, fun u => ?_⟩
    · exact h.persisted j p ((List.mem_cons.mp hmem).resolve_left nofun)
    · unfold State.perform
      dsimp only
      by_cases hu : u = r.upstream
      · subst hu
        rw [if_pos rfl, h.marks, refusals, refusals, List.filterMap_cons]
        simp only [Event.markedAt, if_true]
        rw [List.reverse_cons, List.foldl_append]
        rfl
      · have hnone : (Event.marked r.upstream r.send.model).markedAt u = none := if_neg (Ne.symm hu)
        rw [if_neg hu, h.marks, ← List.singleton_append,
          refusals_append u [_] s.log fun e he => List.mem_singleton.mp he ▸ hnone]
  | remember dialect pre fix =>
    exact { h.log (e := .answered (r.key dialect) pre fix) (fun _ => rfl) nofun with }
  | forget dialect pre => exact { h with }
  | persist q =>
    refine ⟨h.requests, fun j p hmem => ?_, fun u => ?_⟩
    · rcases List.mem_cons.mp hmem with heq | hmem
      · obtain ⟨rfl, rfl⟩ := Event.persisted.inj heq
        exact hpersist _ rfl
      · exact h.persisted j p hmem
    · have hlog := refusals_append u [.persisted i q] s.log
        fun e he => List.mem_singleton.mp he ▸ rfl
      exact (h.marks u).trans (congrArg _ hlog.symm)

theorem State.Lawful.performs {effects : List Effect} (h : s.Lawful D)
    (hpersist : ∀ p, .persist p ∈ effects → ∃ r, s.requests i = some r ∧ Relearned D r p)
    (r : Request β) : (effects.foldl (fun s effect => s.perform i r effect) s).Lawful D := by
  induction effects generalizing s with
  | nil => exact h
  | cons effect effects ih =>
    refine ih (h.perform (fun p hp => hpersist p (hp ▸ List.mem_cons_self)) r) fun p hp => ?_
    obtain ⟨r', hr', hrelearned⟩ := hpersist p (List.mem_cons_of_mem _ hp)
    refine ⟨r', ?_, hrelearned⟩
    cases effect <;> exact hr'

/-! ## The steps -/

theorem State.Lawful.askMemory {readable : Bool} (h : s.Lawful D)
    (hstep : s.askMemory D i readable = some s') : s'.Lawful D := by
  unfold State.askMemory at hstep
  split at hstep
  next r hr =>
    split at hstep
    next wire stage hphase =>
      obtain rfl := Option.some.inj hstep
      have hfits : r.phase.Fits D r.send r.calls r.failures := h.requests i r hr
      rw [hphase] at hfits
      obtain ⟨hwire, hfollows, hsent⟩ := hfits
      generalize (if r.send.any then s.recalled (r.key wire.dialect) readable else .empty) = memory
      have hready : (Phase.waiting (wire.rememberedBy D memory s.clock) stage).Ready D r.send
          r.calls r.failures := ⟨hwire.rememberedBy memory s.clock, hfollows, hsent⟩
      have hset := h.set (Request.Lawful.enter hready) fun r' hr' wire' hdone => by
        obtain rfl := Option.some.inj (hr.symm.trans hr')
        rw [hphase] at hdone
        cases hdone
      refine State.Lawful.append hset (fun u e he => ?_) fun j p hp => ?_
      · split at he
        · cases he
        · split at he
          · exact List.mem_singleton.mp he ▸ rfl
          · cases he
      · split at hp
        · cases hp
        · split at hp
          · cases List.mem_singleton.mp hp
          · cases hp
    next => cases hstep
  next => cases hstep

theorem persist_not_failed (c : Send β) (wire : Wire β) (stage : Stage) (e : GatewayError)
    (p : UpstreamProtocol) : .persist p ∉ (c.failed D marks wire stage e).2 := by
  unfold Send.failed
  cases stage with
  | first =>
    dsimp only
    split
    · split <;> simp
    · simp
  | refixed pre fix remembered =>
    dsimp only
    split <;> simp
  | _ => simp

theorem State.Lawful.answer {result : Except GatewayError Unit} (h : s.Lawful D)
    (hstep : s.answer D i result = some s') : s'.Lawful D := by
  unfold State.answer at hstep
  split at hstep
  next r hr =>
    split at hstep
    next wire stage hphase =>
      have hfits : r.phase.Fits D r.send r.calls r.failures := h.requests i r hr
      rw [hphase] at hfits
      obtain ⟨hwire, hfollows, hsent, hhead⟩ := hfits
      have hold (r' : Request β) (hr' : s.requests i = some r') (wire' : Wire β) :
          r'.phase ≠ .done (.ok wire') := by
        obtain rfl := Option.some.inj (hr.symm.trans hr')
        rw [hphase]
        nofun
      cases result with
      | ok =>
        obtain rfl := Option.some.inj hstep
        have hdone : (r.enter (.done (.ok wire))).Lawful D := ⟨hsent.sent, hhead⟩
        refine (h.set hdone hold).performs (fun p hp => ?_) r
        refine ⟨_, if_pos rfl, ?_⟩
        cases stage with
        | alternate q rest =>
          obtain rfl := Effect.persist.inj (List.mem_singleton.mp hp)
          obtain ⟨tried, htried, -⟩ := hsent
          have hmem : p ∈ r.send.entry.alternates := htried ▸ by simp
          exact ⟨hmem, ⟨wire, rfl, hwire⟩, hfollows⟩
        | refixed pre fix b => cases List.mem_singleton.mp hp
        | _ => cases hp
      | error e =>
        obtain rfl := Option.some.inj hstep
        have hready : (r.send.failed D (s.marks r.upstream) wire stage e).1.Ready D r.send r.calls
            (e :: r.failures) := failed_ready (s.marks r.upstream) hwire hsent e
        have hnext : ({ r with failures := e :: r.failures }.enter
            (r.send.failed D (s.marks r.upstream) wire stage e).1).Lawful D :=
          Request.Lawful.enter hready
        refine ((h.set hnext hold).append (fun u e' he' => ?_) fun j p hp => ?_).performs
          (fun p hp => absurd hp (persist_not_failed _ _ _ _ p)) r
        · obtain ⟨sent, -, rfl⟩ := List.mem_map.mp he'
          rfl
        · obtain ⟨sent, -, heq⟩ := List.mem_map.mp hp
          cases heq
    next => cases hstep
  next => cases hstep

theorem arrive_lawful (c : Send β) (marks : Noted String) (upstream : Nat) :
    (⟨c, upstream, c.addressed D marks c.entry.protocol .first, [], []⟩ : Request β).Lawful D := by
  have hready : (c.addressed D marks c.entry.protocol .first).Ready D c [] [] :=
    addressed_ready marks (show Stage.first.Follows [] from trivial)
      (show Stage.first.Before D c [] from .none)
  unfold Send.addressed at *
  split
  next e he =>
    rw [he] at hready
    exact hready
  next a ha =>
    rw [ha] at hready
    exact hready

theorem State.Lawful.arrive {send : Send β} {upstream : Nat} (h : s.Lawful D)
    (hstep : s.arrive D i send upstream = some s') : s'.Lawful D := by
  unfold State.arrive at hstep
  split at hstep
  next hnone =>
    obtain rfl := Option.some.inj hstep
    exact h.set (arrive_lawful send _ upstream) fun r hr => by
      rw [hnone] at hr
      cases hr
  next => cases hstep

theorem State.Lawful.taskRead {readable : Bool} {j : Nat} (h : s.Lawful D)
    (hstep : s.taskRead D j readable = some s') : s'.Lawful D := by
  unfold State.taskRead at hstep
  split at hstep
  next key change hj =>
    dsimp only at hstep
    split at hstep
    · obtain rfl := Option.some.inj hstep
      exact { h with }
    · obtain rfl := Option.some.inj hstep
      cases change with
      | remember pre fix =>
        exact { h.log (e := .noted key pre fix s.clock) (fun _ => rfl) nofun with }
      | forget pre => exact { h with }
  next => cases hstep

theorem State.Lawful.step (h : s.Lawful D) (hstep : Next D s a s') : s'.Lawful D := by
  cases a with
  | tick secs =>
    obtain rfl := Option.some.inj hstep
    exact { h with }
  | lose provider =>
    obtain rfl := Option.some.inj hstep
    exact { h with }
  | arrive i send upstream => exact h.arrive hstep
  | askMemory i readable => exact h.askMemory hstep
  | answer i result => exact h.answer hstep
  | taskRead j readable => exact h.taskRead hstep
  | taskWrite j =>
    unfold Next State.step State.taskWrite at hstep
    dsimp only at hstep
    split at hstep
    · obtain rfl := Option.some.inj hstep
      exact { h with }
    · cases hstep

theorem lawful_start (clock : Int) : (State.start clock : State β).Lawful D where
  requests := fun _ _ h => absurd h (Option.some_ne_none _).symm
  persisted := fun _ _ h => absurd h List.not_mem_nil
  marks := fun _ => rfl

theorem State.Lawful.of_steps {clock : Int} (hrun : Steps (Next D) (State.start clock) as s) :
    s.Lawful D :=
  hrun.invariant (fun _ _ _ hs h => hs.step h) (lawful_start clock)

/--
A request is sent at most three times as its route takes it, and then once as each of its alternates
takes it, in their order, as far as it comes. All that is sent is what was addressed so: breakpoints
are only taken out where the conversion added them, the effort may be another, and nothing else is
changed. It succeeds with what was sent last. And the format of a route is only replaced by one that
a request was answered in, after the format it was sent in before was refused.
-/
theorem resent_lawful {clock : Int} (hrun : Steps (Next D) (State.start clock) as s) :
    (∀ i r, s.requests i = some r →
      (∃ own later tried, r.calls = later ++ own ∧ own.length ≤ 3 ∧
        (∀ wire ∈ own, OwnAs D r.send r.send.entry.protocol wire) ∧
        tried <+: r.send.entry.alternates ∧ List.Forall₂ (OwnAs D r.send) tried later.reverse) ∧
      ∀ wire, r.phase = .done (.ok wire) → r.calls.head? = some wire) ∧
    ∀ i p, .persisted i p ∈ s.log → ∃ r, s.requests i = some r ∧ Relearned D r p := by
  have hs : s.Lawful D := .of_steps hrun
  refine ⟨fun i r hr => ⟨?_, fun wire hdone => ?_⟩, hs.persisted⟩
  · obtain ⟨tried, htried, hsent⟩ := (hs.requests i r hr).sent
    obtain ⟨own, later, hcalls, hlength, hown, hlater⟩ := hsent.split
    exact ⟨own, later, tried, hcalls, hlength, hown, htried, hlater⟩
  · have hfits : r.phase.Fits D r.send r.calls r.failures := hs.requests i r hr
    rw [hdone] at hfits
    exact hfits.2

/-- The upstream refused the breakpoints for the model, and for fewer than 1024 others since. -/
def Spared (log : List Event) (u : Nat) (model : String) : Prop :=
  ∃ before after, refusals u log = before ++ model :: after ∧ model ∉ after ∧
    after.dedup.length < maxModels

theorem refused_iff {clock : Int} (hrun : Steps (Next D) (State.start clock) as s) (u : Nat)
    (model : String) : (s.marks u).contains model = true ↔ Spared s.log u model := by
  have hs : s.Lawful D := .of_steps hrun
  rw [hs.marks u]
  exact Noted.contains_foldl_iff (by decide) _ _

theorem autoCache_dropAddedMarks (wire : Wire β) :
    (wire.dropAddedMarks D).1.autoCache = false := by
  unfold Wire.dropAddedMarks
  split
  · split <;> rfl
  next h => exact Bool.eq_false_iff.mpr h

/--
A request that arrives for an upstream, and gets breakpoints from the conversion, is addressed with
them unless the upstream refused them for its model, and for fewer than 1024 other models since.
Then, and only then, they are taken out before it is sent.
-/
theorem spared_iff {clock : Int} {send : Send β} {u : Nat} {addressed : Addressed β}
    (hrun : Steps (Next D) (State.start clock) as s)
    (hstep : Next D s (.arrive i send u) s')
    (haddress : send.address send.entry.protocol = .ok addressed)
    (hauto : addressed.autoCache = true) :
    ∃ r wire, s'.requests i = some r ∧ r.send = send ∧ r.phase = .recalling wire .first ∧
      (Spared s.log u send.model → wire = (addressed.wire.dropAddedMarks D).1 ∧
        wire.autoCache = false) ∧
      (¬ Spared s.log u send.model → wire = addressed.wire) := by
  have hphase : send.addressed D (s.marks u) send.entry.protocol .first =
      .recalling (if addressed.autoCache && (s.marks u).contains send.model then
        (addressed.wire.dropAddedMarks D).1 else addressed.wire) .first := by
    unfold Send.addressed
    rw [haddress]
  unfold Next State.step State.arrive at hstep
  dsimp only at hstep
  split at hstep
  next =>
    obtain rfl := Option.some.inj hstep
    refine ⟨_, _, if_pos rfl, rfl, hphase, fun hspared => ?_, fun hspared => ?_⟩
    · rw [hauto, (refused_iff hrun u send.model).mpr hspared]
      exact ⟨rfl, autoCache_dropAddedMarks addressed.wire⟩
    · have hnot : (s.marks u).contains send.model = false :=
        Bool.eq_false_iff.mpr fun h => hspared ((refused_iff hrun u send.model).mp h)
      rw [hnot, Bool.and_false]
      rfl
  next => cases hstep

/-! ## An upstream that takes no breakpoints, and then no chat completions -/

/-- Requests of which nothing but the breakpoints is left. -/
def markedDialects : Dialects Bool Bool where
  fromSlice := some
  toVec := some
  openai := openaiName
  parseOpenai s := effortNames.lookup s
  parse_openai := lookup_openaiName
  parse_none := lookup_none
  writtenEffort _ _ := none
  reasoningEffort _ _ := none
  replaceReasoningEffort _ _ _ := none
  removeReasoningEffort _ _ := none
  stripMarks _ marked := if marked then some false else none
  effortRejection _ _ _ := none
  noneFix _ _ := none
  sealedRefused _ _ := false

def markedRoute : RouteEntry :=
  ⟨1, 10, "relay", some "claude-sonnet-4", 100, none, none, none, .anthropicMessages, [.openAiChat]⟩

def askMarked : Send Bool :=
  ⟨markedRoute, "relay", "claude-sonnet-4", false, fun p => match p with
    | .anthropicMessages => .ok ⟨true, .anthropic, true, none⟩
    | _ => .ok ⟨false, .chat, false, none⟩⟩

def noMarks : GatewayError :=
  .providerHttpError 400 "relay: unknown field cache_control" none

def noMessages : GatewayError :=
  .providerHttpError 404 "relay: /v1/messages is not available" none

def relearning : List (Action Bool) :=
  [.arrive 0 askMarked 0, .askMemory 0 true, .answer 0 (.error noMarks), .answer 0 (.error noMessages),
    .askMemory 0 true, .answer 0 (.ok ())]

theorem resent_lawful_relearned : ∃ s, Steps (Next markedDialects) (State.start 0) relearning s ∧
    .persisted 0 .openAiChat ∈ s.log ∧ ∃ r, s.requests 0 = some r ∧ r.calls.length = 3 ∧
      Relearned markedDialects r .openAiChat := by
  have hlog : (relearning.foldlM (State.step markedDialects) (State.start 0)).map
      (fun s => (s.log, (s.requests 0).map fun r => r.calls.length)) =
        some ([.persisted 0 .openAiChat, .marked 0 "claude-sonnet-4"], some 3) := by
    decide +kernel
  obtain ⟨s, hs, hlog⟩ := Option.map_eq_some_iff.mp hlog
  obtain ⟨hlog, hcalls⟩ := Prod.mk.inj hlog
  have hrun : Steps (Next markedDialects) (State.start 0) relearning s := Steps.of_foldlM hs
  have hmem : .persisted 0 .openAiChat ∈ s.log := hlog ▸ List.mem_cons_self
  obtain ⟨r, hr, hrelearned⟩ := (resent_lawful hrun).2 0 .openAiChat hmem
  rw [hr] at hcalls
  exact ⟨s, hrun, hmem, r, hr, Option.some.inj hcalls, hrelearned⟩

/-- The next request goes without breakpoints. -/
theorem spared_iff_relearned : ∃ s s', Steps (Next markedDialects) (State.start 0) relearning s ∧
    Next markedDialects s (.arrive 1 askMarked 0) s' ∧ ∃ r wire, s'.requests 1 = some r ∧
      r.phase = .recalling wire .first ∧ wire.body = false := by
  have hlog : (relearning.foldlM (State.step markedDialects) (State.start 0)).map
      (fun s => (s.log, (s.requests 1).isNone)) =
        some ([.persisted 0 .openAiChat, .marked 0 "claude-sonnet-4"], true) := by
    decide +kernel
  obtain ⟨s, hs, hlog⟩ := Option.map_eq_some_iff.mp hlog
  obtain ⟨hlog, hnone⟩ := Prod.mk.inj hlog
  have hrun : Steps (Next markedDialects) (State.start 0) relearning s := Steps.of_foldlM hs
  have hstep : Next markedDialects s (.arrive 1 askMarked 0) (s.set 1 ⟨askMarked, 0,
      askMarked.addressed markedDialects (s.marks 0) .anthropicMessages .first, [], []⟩) := by
    change s.arrive markedDialects 1 askMarked 0 = _
    unfold State.arrive
    rw [Option.isNone_iff_eq_none.mp hnone]
    rfl
  have hspared : Spared s.log 0 "claude-sonnet-4" := ⟨[], [], by rw [hlog]; rfl, by simp, by decide⟩
  obtain ⟨r, wire, hr, -, hphase, hdropped, -⟩ := spared_iff hrun hstep rfl rfl
  exact ⟨s, _, hrun, hstep, r, wire, hr, hphase, (hdropped hspared).1 ▸ rfl⟩

end ThinkWatch.Gateway.Learned
