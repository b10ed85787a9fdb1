import ThinkWatch.Gateway.Sealed

/-!
# Where sealed history goes

`sealed_only_to_holder`: whatever turns of whatever conversations interleave, a request with sealed
content whose conversation has a holder is sent to the holder alone, and the holder is the provider
of the conversation's latest whole answer, which is at most 30 days old.
-/

namespace ThinkWatch.Gateway.SealedHistory

open Lib

variable {K : Type*} [AddMonoid K] [LinearOrder K] {s s' : State} {as : List (Action K)}
  {i : Nat} {r : Request} {t : Turn} {c c' : Conversation} {pin : Option Pin} {h : Holder}

/-! ## Conversations -/

/-- The key tells the user, which has no colon in it, and with it the session. -/
theorem Conversation.key_inj (hc : ':' ∉ c.user.toList) (hc' : ':' ∉ c'.user.toList)
    (heq : c.key = c'.key) : c = c' := by
  obtain ⟨user, session⟩ := c
  obtain ⟨user', session'⟩ := c'
  have hlist := congrArg String.toList heq
  simp only [key, String.toList_append, List.append_assoc] at hlist
  obtain ⟨huser, hsession⟩ := segment_inj hc hc' (List.append_cancel_left hlist)
  obtain rfl : user = user' := String.toList_inj.mp huser
  obtain rfl : session = session' := String.toList_inj.mp hsession
  rfl

theorem user_of_conversation (h : t.conversation = some c) : t.user = some c.user := by
  unfold Turn.conversation at h
  split at h
  · unfold Conversation.of at h
    split at h
    · obtain rfl := Option.some.inj h
      assumption
    · cases h
  · cases h

/-! ## Only to the holder -/

/-- Nothing was sent to another provider than the one the request is pinned to. -/
def OnlyTo (pin : Option Pin) (sel : Selection) : Prop :=
  ∀ p, pin = some (.only p) → ∀ q ∈ Gateway.sentTo sel.history, q = p

theorem sentTo_append (l l' : List Event) :
    Gateway.sentTo (l ++ l') = Gateway.sentTo l ++ Gateway.sentTo l' := by
  induction l with
  | nil => rfl
  | cons e l ih => cases e <;> simp [Gateway.sentTo, ih]

theorem onlyTo_start (limits : Limits.Redis) (budget : Budget) :
    OnlyTo pin (Selection.start (t.ctx pin) limits budget) := by
  intro p _ q hq
  rw [Selection.start, Selection.beginRound] at hq
  rw [Selection.history, (Selection.nextAttempt_redis _ _).2.1,
    (Selection.nextAttempt_redis _ _).2.2] at hq
  cases hq

/-- A step sends to one more provider at most, and to none that the pin does not allow. -/
theorem sentTo_step {sel sel' : Selection} {a : Input K} (hinv : sel.Inv (t.ctx pin))
    (hstep : SelectionStep (t.ctx pin) sel a sel') :
    Gateway.sentTo sel'.history = Gateway.sentTo sel.history ∨
      ∃ entry : RouteEntry,
        Gateway.sentTo sel'.history = entry.providerId :: Gateway.sentTo sel.history ∧
        ∀ p, pin = some (.only p) → entry.providerId = p := by
  have hlaw := hinv.step_lawful hstep
  have hsame (hthis : Gateway.sentTo sel'.thisRound = Gateway.sentTo sel.thisRound)
      (hearlier : sel'.earlier = sel.earlier) :
      Gateway.sentTo sel'.history = Gateway.sentTo sel.history := by
    rw [Selection.history, sentTo_append, hthis, hearlier, ← sentTo_append, Selection.history]
  cases a with
  | other redis => exact Or.inl (hsame (by rw [hlaw.1]) hlaw.2)
  | pass o answers nowMs =>
    obtain ⟨hearlier, ⟨hthis, -⟩ | ⟨j, entry, hthis, hsend⟩ | ⟨entry, hthis, -⟩⟩ := hlaw
    · exact Or.inl (hsame (by rw [hthis]) hearlier)
    · refine Or.inr ⟨entry, ?_, hsend.only⟩
      rw [Selection.history, hthis, hearlier, List.cons_append, sentTo_sent, Selection.history]
    · exact Or.inl (hsame (by rw [hthis, sentTo_capped]) hearlier)
  | answered => exact Or.inl (hsame hlaw.2.2 hlaw.2.1)
  | failed e => exact Or.inl (hsame hlaw.2.2 hlaw.2.1)
  | cut => exact Or.inl (hsame hlaw.2.2 hlaw.2.1)
  | roundOver now jitter took =>
    obtain ⟨-, ⟨hthis, hearlier⟩ | ⟨hthis, hearlier, -⟩⟩ := hlaw
    · exact Or.inl (hsame (by rw [hthis]) hearlier)
    · -- what was the round becomes the latest of the earlier ones
      left
      rw [Selection.history, hthis, hearlier, Selection.history]
      rfl

theorem OnlyTo.step {sel sel' : Selection} {a : Input K} (h : OnlyTo pin sel)
    (hinv : sel.Inv (t.ctx pin)) (hstep : SelectionStep (t.ctx pin) sel a sel') :
    OnlyTo pin sel' := by
  intro p hp q hq
  obtain heq | ⟨entry, heq, honly⟩ := sentTo_step hinv hstep <;> rw [heq] at hq
  · exact h p hp q hq
  · rcases List.mem_cons.mp hq with rfl | hq
    · exact honly p hp
    · exact h p hp q hq

/-- A provider that was sent to stays in the history. -/
theorem sentTo_grows {sel sel' : Selection} {a : Input K} {q : Uuid} (hinv : sel.Inv (t.ctx pin))
    (hstep : SelectionStep (t.ctx pin) sel a sel') (hq : q ∈ Gateway.sentTo sel.history) :
    q ∈ Gateway.sentTo sel'.history := by
  obtain heq | ⟨entry, heq, -⟩ := sentTo_step hinv hstep <;> rw [heq]
  · exact hq
  · exact List.mem_cons_of_mem _ hq

/-! ## What is remembered -/

/-- The holder is the provider of the latest whole answer of the conversation before `now`. -/
structure Holds (answers : List Answer) (c : Conversation) (h : Holder) (now : Int)
    (a : Answer) : Prop where
  mem : a ∈ answers
  conversation : a.conversation = c
  holder : a.holder = h
  before : a.time ≤ now
  inTime : now ≤ a.time + bindingTtlSecs * 1000
  latest : ∀ b ∈ answers, b.conversation = c → b.time < now → b.time ≤ a.time

/-- What the store has was written for a conversation's latest answer. -/
structure Remembers (redis : Store String Holder) (clock : Int) (answers : List Answer) : Prop where
  stored : ∀ k e, redis k = some e → ∃ a ∈ answers, a.conversation.key = k ∧
    e = ⟨a.holder, some (a.time + bindingTtlSecs * 1000)⟩ ∧
    ∀ b ∈ answers, b.conversation.key = k → b.time ≤ a.time
  past : ∀ a ∈ answers, a.time ≤ clock
  user : ∀ a ∈ answers, ':' ∉ a.conversation.user.toList

/-- A request that has been routed. -/
structure Request.Sound (clock : Int) (answers : List Answer) (r : Request) : Prop where
  user : ∀ u, r.turn.user = some u → ':' ∉ u.toList
  found : ∀ h now, r.found = some (h, now) → now ≤ clock ∧
    ∃ c a, r.turn.conversation = some c ∧ Holds answers c h now a
  arrived : r.progress = .arrived → r.found = none
  routed : ∀ pin sel resent, r.progress = .routed pin sel resent →
    sel.Inv (r.turn.ctx pin) ∧ OnlyTo pin sel ∧
    (∀ e ∈ resent, e.providerId ∈ Gateway.sentTo sel.history) ∧
    ∀ h now, r.turn.sealed = some .content → r.found = some (h, now) →
      pin = some (.only h.providerId)

structure State.Sound (s : State) : Prop where
  remembers : Remembers s.redis s.clock s.answers
  requests : ∀ i r, s.requests i = some r → r.Sound s.clock s.answers

theorem Holds.mono {answers : List Answer} {now : Int} {a b : Answer} (hold : Holds answers c h now a)
    (hb : now ≤ b.time) : Holds (b :: answers) c h now a :=
  { hold with
    mem := List.mem_cons_of_mem _ hold.mem
    latest := by
      intro b' hb' hc hlt
      rcases List.mem_cons.mp hb' with rfl | hb'
      · omega
      · exact hold.latest b' hb' hc hlt }

theorem Request.Sound.tick {clock : Int} {answers : List Answer} (hr : r.Sound clock answers)
    (ms : Nat) : r.Sound (clock + ms) answers :=
  { hr with
    found := fun h now hf => ⟨by have := (hr.found h now hf).1; omega, (hr.found h now hf).2⟩ }

theorem Request.Sound.answer {clock : Int} {answers : List Answer} (hr : r.Sound clock answers)
    {b : Answer} (hb : b.time = clock) : r.Sound clock (b :: answers) :=
  { hr with
    found := by
      intro h now hf
      obtain ⟨hnow, c, a, hc, hold⟩ := hr.found h now hf
      exact ⟨hnow, c, a, hc, hold.mono (hb ▸ hnow)⟩ }

/-- A holder that is read is that of the latest answer. -/
theorem Remembers.holds {redis : Store String Holder} {clock : Int} {answers : List Answer}
    (hrem : Remembers redis clock answers) (hc : ':' ∉ c.user.toList)
    (hget : redis.get clock c.key = some h) : ∃ a, Holds answers c h clock a := by
  obtain ⟨e, he, hlive, hv⟩ := Store.get_eq_some.mp hget
  obtain ⟨a, ha, hkey, rfl, hlatest⟩ := hrem.stored _ _ he
  refine ⟨a, ha, Conversation.key_inj (hrem.user a ha) hc hkey, hv, hrem.past a ha,
    of_decide_eq_true hlive, fun b hb hbc _ => hlatest b hb (hbc ▸ rfl)⟩

theorem Remembers.tick {redis : Store String Holder} {clock : Int} {answers : List Answer}
    (hrem : Remembers redis clock answers) (ms : Nat) : Remembers redis (clock + ms) answers :=
  { hrem with
    past := by
      intro a ha
      have := hrem.past a ha
      omega }

theorem Remembers.lose {redis : Store String Holder} {clock : Int} {answers : List Answer}
    (hrem : Remembers redis clock answers) (key : String) :
    Remembers (redis.del key) clock answers :=
  { hrem with
    stored := by
      intro k e he
      by_cases hk : k = key
      · subst hk
        rw [Store.del, Store.put_self] at he
        cases he
      · rw [Store.del, Store.put_ne _ hk] at he
        exact hrem.stored k e he }

theorem Remembers.write {redis : Store String Holder} {clock : Int} {answers : List Answer}
    (hrem : Remembers redis clock answers) (hc : ':' ∉ c.user.toList) :
    Remembers (redis.setEx clock c.key h (bindingTtlSecs * 1000)) clock
      (⟨c, h, clock⟩ :: answers) where
  stored := by
    intro k e he
    by_cases hk : k = c.key
    · subst hk
      rw [Store.setEx, Store.put_self] at he
      obtain rfl := Option.some.inj he
      refine ⟨_, List.mem_cons_self, rfl, rfl, fun b hb _ => ?_⟩
      rcases List.mem_cons.mp hb with rfl | hb
      · exact Int.le_refl _
      · exact hrem.past b hb
    · rw [Store.setEx, Store.put_ne _ hk] at he
      obtain ⟨a, ha, hkey, heq, hlatest⟩ := hrem.stored k e he
      refine ⟨a, List.mem_cons_of_mem _ ha, hkey, heq, fun b hb hbk => ?_⟩
      rcases List.mem_cons.mp hb with rfl | hb
      · exact absurd hbk.symm hk
      · exact hlatest b hb hbk
  past := by
    intro a ha
    rcases List.mem_cons.mp ha with rfl | ha
    · exact Int.le_refl _
    · exact hrem.past a ha
  user := by
    intro a ha
    rcases List.mem_cons.mp ha with rfl | ha
    · exact hc
    · exact hrem.user a ha

/-! ## The steps -/

theorem pin_of_content {providers : List Uuid} {model : String}
    (hok : decide (some .content) (some h) providers model = .ok pin) :
    pin = some (.only h.providerId) := by
  unfold decide at hok
  dsimp only at hok
  cases hany : providers.any (· == h.providerId) with
  | true =>
    rw [hany] at hok
    exact (Except.ok.inj hok).symm
  | false =>
    rw [hany] at hok
    cases hok

/-- What is found is the holder that is remembered, and sealed content is pinned to it. -/
theorem pin_spec {readable : Bool} {result : Except GatewayError (Option Pin)}
    {found : Option (Holder × Int)} (hpin : s.pin t readable = (result, found)) :
    (∀ h now, found = some (h, now) → now = s.clock ∧
      ∃ c, t.conversation = some c ∧ s.redis.get s.clock c.key = some h) ∧
    ∀ h now pin, t.sealed = some .content → found = some (h, now) → result = .ok pin →
      pin = some (.only h.providerId) := by
  unfold State.pin at hpin
  split at hpin
  next c sealed hc hsealed =>
    obtain ⟨rfl, rfl⟩ := Prod.mk.inj hpin
    constructor
    · intro h now hf
      obtain ⟨h', hholder, heq⟩ := Option.map_eq_some_iff.mp hf
      obtain ⟨rfl, rfl⟩ := Prod.mk.inj heq
      exact ⟨rfl, c, hc, (Option.ite_none_right_eq_some.mp hholder).2⟩
    · intro h now pin hcontent hf hok
      obtain ⟨h', hholder, heq⟩ := Option.map_eq_some_iff.mp hf
      obtain ⟨rfl, rfl⟩ := Prod.mk.inj heq
      obtain rfl := Option.some.inj (hsealed.symm.trans hcontent)
      rw [hholder] at hok
      exact pin_of_content hok
  next =>
    obtain ⟨rfl, rfl⟩ := Prod.mk.inj hpin
    exact ⟨nofun, nofun⟩

theorem sound_start (clock : Int) : (State.start clock).Sound where
  remembers :=
    { stored := fun _ _ he => absurd he (Option.some_ne_none _).symm
      past := fun _ ha => absurd ha List.not_mem_nil
      user := fun _ ha => absurd ha List.not_mem_nil }
  requests := fun _ _ hr => absurd hr (Option.some_ne_none _).symm

theorem State.Sound.set (hs : s.Sound) (hr : r.Sound s.clock s.answers) : (s.set i r).Sound :=
  { hs with
    requests := by
      intro j r' hj
      unfold State.set at hj
      dsimp only at hj
      split at hj
      · obtain rfl := Option.some.inj hj
        exact hr
      · exact hs.requests j r' hj }

theorem State.Sound.step {a : Action K} (hs : s.Sound) (h : Next s a s') : s'.Sound := by
  cases h with
  | tick ms =>
    exact ⟨hs.remembers.tick ms, fun i r hr => (hs.requests i r hr).tick ms⟩
  | lose key => exact ⟨hs.remembers.lose key, hs.requests⟩
  | arrive t hnew huser =>
    exact hs.set
      { user := huser
        found := fun _ _ hf => absurd hf (Option.some_ne_none _).symm
        arrived := fun _ => rfl
        routed := fun _ _ _ hprog => Progress.noConfusion hprog }
  | route readable limits budget hreq hpin =>
    obtain ⟨hfound, hcontent⟩ := pin_spec hpin
    have hr := hs.requests _ _ hreq
    refine hs.set ⟨hr.user, ?_, fun hprog => Progress.noConfusion hprog, ?_⟩
    · intro h now hf
      obtain ⟨rfl, c, hc, hget⟩ := hfound h now hf
      obtain ⟨a, hold⟩ := hs.remembers.holds (hr.user _ (user_of_conversation hc)) hget
      exact ⟨le_refl _, c, a, hc, hold⟩
    · rintro pin sel resent hprog
      cases hprog
      exact ⟨Selection.inv_start _ _ _, onlyTo_start _ _, fun _ he => absurd he List.not_mem_nil,
        fun h now hsealed hf => hcontent h now _ hsealed hf rfl⟩
  | refuse readable limits budget hreq hpin =>
    obtain ⟨hfound, -⟩ := pin_spec hpin
    have hr := hs.requests _ _ hreq
    refine hs.set ⟨hr.user, ?_, fun hprog => Progress.noConfusion hprog,
      fun _ _ _ hprog => Progress.noConfusion hprog⟩
    intro h now hf
    obtain ⟨rfl, c, hc, hget⟩ := hfound h now hf
    obtain ⟨a, hold⟩ := hs.remembers.holds (hr.user _ (user_of_conversation hc)) hget
    exact ⟨le_refl _, c, a, hc, hold⟩
  | select input hreq hstream hstep =>
    have hr := hs.requests _ _ hreq
    refine hs.set { hr with arrived := fun hprog => Progress.noConfusion hprog, routed := ?_ }
    rintro pin sel resent hprog
    cases hprog
    obtain ⟨hinv, honly, hresent, hpin⟩ := hr.routed _ _ _ rfl
    exact ⟨Selection.inv_step hinv hstep, honly.step hinv hstep,
      fun e he => sentTo_grows hinv hstep (hresent e he), hpin⟩
  | resend hreq hstream hphase =>
    have hr := hs.requests _ _ hreq
    refine hs.set { hr with arrived := fun hprog => Progress.noConfusion hprog, routed := ?_ }
    rintro pin sel resent hprog
    cases hprog
    obtain ⟨hinv, honly, hresent, hpin⟩ := hr.routed _ _ _ rfl
    refine ⟨hinv, honly, fun e he => ?_, hpin⟩
    rcases List.mem_cons.mp he with rfl | he
    · rw [Selection.history, sentTo_append]
      exact List.mem_append_left _ (hinv.sending _ hphase)
    · exact hresent e he
  | record hreq hphase =>
    have hr := hs.requests _ _ hreq
    unfold State.answeredBy
    split
    · exact hs
    next c hc =>
      exact ⟨hs.remembers.write (hr.user _ (user_of_conversation hc)),
        fun i r hi => (hs.requests i r hi).answer rfl⟩

/--
A request with sealed content, whose conversation has a holder, is sent to the holder only: the
provider of the conversation's latest whole answer, given at most 30 days before.
-/
theorem sealed_only_to_holder {clock now : Int} (hrun : Steps Next (State.start clock) as s)
    (hreq : s.requests i = some r) (hsealed : r.turn.sealed = some .content)
    (hfound : r.found = some (h, now)) :
    (∃ c a, r.turn.conversation = some c ∧ Holds s.answers c h now a) ∧
      ∀ q ∈ r.sentTo, q = h.providerId := by
  have hs : s.Sound := hrun.invariant (fun _ _ _ hs h => hs.step h) (sound_start clock)
  have hr := hs.requests i r hreq
  refine ⟨(hr.found h now hfound).2, fun q hq => ?_⟩
  unfold Request.sentTo at hq
  split at hq
  next pin sel resent hprog =>
    obtain ⟨-, honly, hresent, hpin⟩ := hr.routed pin sel resent hprog
    have hsent : q ∈ Gateway.sentTo sel.history := by
      rcases List.mem_append.mp hq with hq | hq
      · obtain ⟨e, he, rfl⟩ := List.mem_map.mp hq
        exact hresent e he
      · exact hq
    exact honly _ (hpin h now hsealed hfound) q hsent
  next => cases hq

/-! ## A conversation of two turns -/

def otherRoute : RouteEntry :=
  ⟨2, 20, "relay", some "gpt-4o", 100, none, none, none, .openAiChat, []⟩

def turnOf (sealed : Option Sealed) : Turn :=
  ⟨.responses, some "ann", some "s1", sealed, false, [soleRoute, otherRoute], "gpt-4o", false⟩

/-- The breaker of the first route is open, and the draw falls on the second. -/
def otherPick : PickInput Nat := ⟨fun j => if j = 0 then .opened else .closed, fun _ => 100, none, 7⟩

def noLimits : Limits.Redis := Store.empty

def noBudget : Budget := ⟨none, none, 0⟩

/-- The first turn is answered by the first route, and the second goes there with its breaker open. -/
theorem sealed_only_to_holder_again : ∃ s, Steps (Next (K := Nat)) (State.start 0)
    [.arrive 0 (turnOf none), .route 0 true noLimits noBudget, .select 0 (.pass quietPick true 0),
      .select 0 .answered, .record 0, .arrive 1 (turnOf (some .content)), .tick 1000,
      .route 1 true noLimits noBudget, .select 1 (.pass otherPick true 1000)] s ∧
    ∃ r, s.requests 1 = some r ∧ r.sentTo = [1] ∧
      (∃ c a, r.turn.conversation = some c ∧ Holds s.answers c ⟨1, "openai-eu"⟩ 1000 a) ∧
      ∀ q ∈ r.sentTo, q = 1 := by
  obtain ⟨s, hrun, r, hreq, hturn, hfound, hsent⟩ : ∃ s, Steps (Next (K := Nat)) (State.start 0)
      [.arrive 0 (turnOf none), .route 0 true noLimits noBudget, .select 0 (.pass quietPick true 0),
        .select 0 .answered, .record 0, .arrive 1 (turnOf (some .content)), .tick 1000,
        .route 1 true noLimits noBudget, .select 1 (.pass otherPick true 1000)] s ∧
      ∃ r, s.requests 1 = some r ∧ r.turn.sealed = some .content ∧
        r.found = some (⟨1, "openai-eu"⟩, 1000) ∧ r.sentTo = [1] := by
    refine ⟨?last, ?run, ?found⟩
    case run =>
      refine .cons (.arrive _ rfl (by decide)) ?_
      refine .cons (.route _ _ _ rfl rfl) ?_
      refine .cons (.select _ rfl (fun _ => rfl) (.pass _ _ _ rfl (by decide))) ?_
      refine .cons (.select _ rfl (fun _ => rfl) (.answered rfl)) ?_
      refine .cons (.record rfl rfl) ?_
      refine .cons (.arrive _ rfl (by decide)) ?_
      refine .cons (.tick _) ?_
      refine .cons (.route _ _ _ rfl rfl) ?_
      refine .cons (.select _ rfl (fun _ => rfl) (.pass _ _ _ rfl (by decide))) ?_
      exact .nil _
    case found => exact ⟨_, rfl, rfl, rfl, rfl⟩
  exact ⟨s, hrun, r, hreq, hsent, sealed_only_to_holder hrun hreq hturn hfound⟩

end ThinkWatch.Gateway.SealedHistory
