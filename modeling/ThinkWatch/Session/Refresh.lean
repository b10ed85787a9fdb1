import ThinkWatch.Session.Machine

/-!
# One refresh token, one session

A refresh claims its token in the blacklist, for as long as the token has to live by its `exp`.
The decoder accepts a token for the leeway longer than that, and a request can be slow between its
checks, so the claim can be gone when the token is presented again. And the epoch is read before
the claim, so an epoch written after that read is missed.

`refresh_single_use` is what the code does give: in every run in which claims and epoch reads come
in time (`InTime`), a token is refreshed at most once, and never after an epoch that covers it.
-/

namespace ThinkWatch.Session

open Lib

/-! ## The condition -/

/-- A refresh has read the epoch and has not issued its session yet. -/
def Pc.inWindow : Pc → Bool
  | .current => true
  | .active => true
  | .claiming _ => true
  | .claimed => true
  | _ => false

/-- A refresh has won its claim. -/
def Pc.won : Pc → Bool
  | .claimed => true
  | .accepted => true
  | _ => false

/--
The condition on an event, for the token `τ`.

* A refresh claims `τ` no later than the blacklist entry of an earlier claim expires, and reads the
  epoch no later than the entry of the last write expires.
* An epoch of the user is not written while a refresh of `τ` is between its epoch read and its
  session, and not after a write that carries a later epoch.
-/
def InTime (τ : Claims) (s : State) : Event → Prop
  | .advance i t => ∀ th, s.threads i = some th → th.token = τ → th.check = .refresh →
      ((∃ ttlSecs, th.pc = .claiming ttlSecs) →
        ∀ v d, s.redis (.refreshBlacklist τ) = some ⟨v, some d⟩ → t ≤ d) ∧
      (th.pc = .verified ∨ th.pc = .unrevoked →
        ∀ e d, s.redis (.pwEpoch τ.sub) = some ⟨e, some d⟩ → t ≤ d)
  | .epoch user now _ _ => user = τ.sub →
      (∀ i th, s.threads i = some th → th.token = τ → th.check = .refresh →
        th.pc.inWindow = false) ∧
      ∀ e d, s.redis (.pwEpoch τ.sub) = some ⟨e, d⟩ → e ≤ now / 1000
  | _ => True

/-- A step that meets the condition. -/
def InTimeStep (jwt : JwtManager) (τ : Claims) (s : State) (e : Event) (s' : State) : Prop :=
  InTime τ s e ∧ Step jwt s e s'

/-! ## The invariant -/

/-- The token has been claimed: its blacklist entry was written, and may have expired since. -/
def Blacklisted (τ : Claims) (r : Redis) : Prop :=
  ∃ v d, r (.refreshBlacklist τ) = some ⟨v, some d⟩

/-- The last epoch written for the user is the largest. -/
def EpochStored (τ : Claims) (s : State) : Prop :=
  ∀ e, (τ.sub, e) ∈ s.epochs → ∃ e' d, s.redis (.pwEpoch τ.sub) = some ⟨e', some d⟩ ∧ e ≤ e'

/-- What holds of the refreshes of `τ` in every state. -/
structure SingleUse (τ : Claims) (s : State) : Prop where
  epochStored : EpochStored τ s
  blacklisted : ∀ {i th}, s.threads i = some th → th.token = τ → th.check = .refresh →
    th.pc.won = true → Blacklisted τ s.redis
  unique : ∀ {i j th th'}, s.threads i = some th → s.threads j = some th' → th.token = τ →
    th'.token = τ → th.check = .refresh → th'.check = .refresh → th.pc.won = true →
    th'.pc.won = true → i = j
  window : ∀ {i th}, s.threads i = some th → th.token = τ → th.check = .refresh →
    th.pc.inWindow = true → ∀ e, (τ.sub, e) ∈ s.epochs → e < τ.iat

/-- A refresh of `τ` that has claimed it. -/
def Wins (τ : Claims) (th : Thread) : Prop :=
  th.token = τ ∧ th.check = .refresh ∧ th.pc.won = true

theorem SingleUse.wins_unique {τ : Claims} {s : State} (h : SingleUse τ s) {i j : Nat}
    {th th' : Thread} (hi : s.threads i = some th) (hj : s.threads j = some th')
    (hw : Wins τ th) (hw' : Wins τ th') : i = j :=
  h.unique hi hj hw.1 hw'.1 hw.2.1 hw'.2.1 hw.2.2 hw'.2.2

/-! ## Preservation -/

section Preservation

variable {jwt : JwtManager} {t : Int} {users : Users} {τ token : Claims} {check : Check}
  {r r' : Redis} {pc pc' : Pc}

/-- A blacklist entry stays, expired or not. -/
theorem Blacklisted.action (h : Blacklisted τ r)
    (hact : Action jwt t users token check r pc r' pc') :
    Blacklisted τ r' := by
  cases hact with
  | @claim ttlSecs _ =>
    by_cases hk : Key.refreshBlacklist τ = .refreshBlacklist token
    · exact ⟨1, t + ttlSecs * 1000, by simp [Store.setEx, Store.put, hk]⟩
    · obtain ⟨v, d, he⟩ := h
      exact ⟨v, d, (Store.put_ne r hk _).trans he⟩
  | _ => exact h

/-- A refresh wins only by a claim that finds the token absent from the blacklist. -/
theorem Action.won (hact : Action jwt t users τ .refresh r pc r' pc') (h : pc'.won = true) :
    pc.won = true ∨ ((∃ ttlSecs, pc = .claiming ttlSecs) ∧
      r.get t (.refreshBlacklist τ) = none ∧ Blacklisted τ r') := by
  cases hact with
  | claim absent => exact Or.inr ⟨⟨_, rfl⟩, absent, _, _, Store.put_self _ _ _⟩
  | authenticate auth _ => cases auth
  | issue => exact Or.inl rfl
  | done => exact Or.inl rfl
  | _ => cases h

/-- A refresh gets into the window only by reading an epoch that does not cover its token. -/
theorem Action.inWindow (hact : Action jwt t users τ .refresh r pc r' pc')
    (h : pc'.inWindow = true) :
    pc.inWindow = true ∨ ((pc = .verified ∨ pc = .unrevoked) ∧
      ∀ e, r.get t (.pwEpoch τ.sub) = some e → e < τ.iat) := by
  cases hact with
  | readEpoch before old => exact Or.inr ⟨before, old⟩
  | refreshActive _ _ => exact Or.inl rfl
  | readClock => exact Or.inl rfl
  | claim _ => exact Or.inl rfl
  | _ => cases h

end Preservation

section Steps

variable {jwt : JwtManager} {τ : Claims} {s s' : State}

theorem singleUse_init (hthreads : ∀ i, s.threads i = none) (hepochs : s.epochs = []) :
    SingleUse τ s where
  epochStored := by
    intro e he
    rw [hepochs] at he
    cases he
  blacklisted := by intro i th hi; rw [hthreads i] at hi; cases hi
  unique := by intro i j th th' hi; rw [hthreads i] at hi; cases hi
  window := by intro i th hi; rw [hthreads i] at hi; cases hi

theorem singleUse_present {i : Nat} {check : Check} {token : Claims} (h : SingleUse τ s) :
    SingleUse τ { s with threads := s.threads.set i ⟨token, check, .arrived, s.clock⟩ } where
  epochStored := h.epochStored
  blacklisted := by
    intro j th hj hτ hc hw
    rcases Threads.set_eq_some hj with ⟨-, rfl⟩ | ⟨-, hj⟩
    · cases hw
    · exact h.blacklisted hj hτ hc hw
  unique := by
    intro j k th th' hj hk hτ hτ' hc hc' hw hw'
    exact Threads.set_unique (P := Wins τ) h.wins_unique (nofun ∘ And.right ∘ And.right) hj hk
      ⟨hτ, hc, hw⟩ ⟨hτ', hc', hw'⟩
  window := by
    intro j th hj hτ hc hw
    rcases Threads.set_eq_some hj with ⟨-, rfl⟩ | ⟨-, hj⟩
    · cases hw
    · exact h.window hj hτ hc hw

/-- When the claims come in time, a refresh that wins finds no other winner. -/
theorem SingleUse.first (h : SingleUse τ s) {i j : Nat} {t : Int} {th th' : Thread}
    (htime : InTime τ s (.advance i t)) (hi : s.threads i = some th) (hτ : th.token = τ)
    (hc : th.check = .refresh) (hpc : ∃ ttlSecs, th.pc = .claiming ttlSecs)
    (habsent : s.redis.get t (.refreshBlacklist τ) = none) (hj : s.threads j = some th')
    (hτ' : th'.token = τ) (hc' : th'.check = .refresh) : th'.pc.won = false := by
  cases hw : th'.pc.won with
  | false => rfl
  | true =>
    obtain ⟨v, d, hentry⟩ := h.blacklisted hj hτ' hc' hw
    have hle : t ≤ d := (htime th hi hτ hc).1 hpc v d hentry
    rw [Store.get_of_le_deadline hentry hle] at habsent
    cases habsent

theorem singleUse_advance {i : Nat} {t : Int} {th : Thread} (h : SingleUse τ s)
    (htime : InTime τ s (.advance i t)) (hi : s.threads i = some th) :
    SingleUse τ { s with
      redis := (advance jwt t s.users th.token th.check s.redis th.pc).1
      clock := t
      threads := s.threads.set i (th.next jwt t s) } := by
  have hact := advance_action jwt t s.users th.token th.check s.redis th.pc
  have hwon : th.token = τ → th.check = .refresh → (th.next jwt t s).pc.won = true →
      th.pc.won = true ∨ ((∃ ttlSecs, th.pc = .claiming ttlSecs) ∧
        s.redis.get t (.refreshBlacklist τ) = none ∧
        Blacklisted τ (advance jwt t s.users th.token th.check s.redis th.pc).1) := by
    intro hτ hc hw
    rw [hτ, hc] at hact ⊢
    have hw : (advance jwt t s.users τ .refresh s.redis th.pc).2.won = true := by
      rw [← hτ, ← hc]
      exact hw
    exact hact.won hw
  refine ⟨?_, ?_, ?_, ?_⟩
  · intro e he
    obtain ⟨e', d, hentry, hle⟩ := h.epochStored e he
    exact ⟨e', d, (hact.pwEpoch τ.sub).trans hentry, hle⟩
  · intro j th' hj hτ hc hw
    rcases Threads.set_eq_some hj with ⟨-, rfl⟩ | ⟨-, hj'⟩
    · rcases hwon hτ hc hw with hold | ⟨-, -, hnew⟩
      · exact (h.blacklisted hi hτ hc hold).action hact
      · exact hnew
    · exact (h.blacklisted hj' hτ hc hw).action hact
  · intro j k th₁ th₂ hj hk hτ₁ hτ₂ hc₁ hc₂ hw₁ hw₂
    refine Threads.set_unique (P := Wins τ) h.wins_unique ?_ hj hk ⟨hτ₁, hc₁, hw₁⟩ ⟨hτ₂, hc₂, hw₂⟩
    rintro ⟨hτ, hc, hw⟩
    rcases hwon hτ hc hw with hold | ⟨hpc, habsent, -⟩
    · exact Or.inl ⟨th, hi, hτ, hc, hold⟩
    · refine Or.inr ?_
      rintro k th' hk' ⟨hτ', hc', hw'⟩
      have hnot := h.first htime hi hτ hc hpc habsent hk' hτ' hc'
      rw [hw'] at hnot
      cases hnot
  · intro j th' hj hτ hc hw e he
    rcases Threads.set_eq_some hj with ⟨-, rfl⟩ | ⟨-, hj'⟩
    · have hτ' : th.token = τ := hτ
      have hc' : th.check = .refresh := hc
      have hw' : (advance jwt t s.users th.token th.check s.redis th.pc).2.inWindow = true := hw
      rw [hτ', hc'] at hact hw'
      rcases hact.inWindow hw' with hold | ⟨hpc, hread⟩
      · exact h.window hi hτ' hc' hold e he
      · -- the last epoch is still stored at the read, so it was seen, and it is the largest
        obtain ⟨e', d, hentry, hle⟩ := h.epochStored e he
        have hlive : t ≤ d := (htime th hi hτ' hc').2 hpc e' d hentry
        have hlt := hread e' (Store.get_of_le_deadline hentry hlive)
        omega
    · exact h.window hj' hτ hc hw e he

theorem singleUse_epoch {user : Uuid} {now t days : Int} (h : SingleUse τ s)
    (htime : InTime τ s (.epoch user now t days)) :
    SingleUse τ { s with
      redis := invalidateRefreshTokens s.redis now t user days
      clock := t
      epochs := (user, now / 1000) :: s.epochs } where
  epochStored := by
    intro e he
    by_cases hu : user = τ.sub
    · subst hu
      refine ⟨now / 1000, t + days * 86400 * 1000, Store.put_self _ _ _, ?_⟩
      rcases List.mem_cons.mp he with he | he
      · cases he
        exact Int.le_refl _
      · obtain ⟨e', d, hentry, hle⟩ := h.epochStored e he
        have := (htime rfl).2 e' (some d) hentry
        omega
    · have hne : Key.pwEpoch τ.sub ≠ .pwEpoch user := fun hk => hu (Key.pwEpoch.inj hk).symm
      rcases List.mem_cons.mp he with he | he
      · cases he
        exact absurd rfl hu
      · obtain ⟨e', d, hentry, hle⟩ := h.epochStored e he
        exact ⟨e', d, (invalidateRefreshTokens_ne _ now t hne days).trans hentry, hle⟩
  blacklisted := by
    intro i th hi hτ hc hw
    obtain ⟨v, d, hentry⟩ := h.blacklisted hi hτ hc hw
    have hne : Key.refreshBlacklist τ ≠ .pwEpoch user := by simp
    exact ⟨v, d, (invalidateRefreshTokens_ne _ now t hne days).trans hentry⟩
  unique := h.unique
  window := by
    intro i th hi hτ hc hw e he
    rcases List.mem_cons.mp he with he | he
    · cases he
      have hnot := (htime rfl).1 i th hi hτ hc
      rw [hw] at hnot
      cases hnot
    · exact h.window hi hτ hc hw e he

theorem singleUse_logout {token : Claims} {now t : Int} (h : SingleUse τ s) :
    SingleUse τ { s with
      redis := (claim s.redis t token (claimTtlSecs now token)).1
      clock := t } where
  epochStored := by
    intro e he
    obtain ⟨e', d, hentry, hle⟩ := h.epochStored e he
    rcases claim_key s.redis t token (claimTtlSecs now token) (.pwEpoch τ.sub) with hk | ⟨hk, -, -⟩
    · exact ⟨e', d, hk.trans hentry, hle⟩
    · cases hk
  blacklisted := by
    intro i th hi hτ hc hw
    obtain ⟨v, d, hentry⟩ := h.blacklisted hi hτ hc hw
    rcases claim_key s.redis t token (claimTtlSecs now token) (.refreshBlacklist τ) with
      hk | ⟨-, -, hput⟩
    · exact ⟨v, d, hk.trans hentry⟩
    · exact ⟨_, _, hput⟩
  unique := h.unique
  window := h.window

theorem singleUse_step {e : Event} (h : SingleUse τ s) (hstep : InTimeStep jwt τ s e s') :
    SingleUse τ s' := by
  obtain ⟨htime, hstep⟩ := hstep
  cases hstep with
  | present _ => exact singleUse_present h
  | advance hi _ => exact singleUse_advance h htime hi
  | epoch _ _ => exact singleUse_epoch h htime
  | logout _ _ _ _ => exact singleUse_logout h
  | account _ _ => exact ⟨h.epochStored, h.blacklisted, h.unique, h.window⟩

end Steps

/-! ## Main result -/

/--
In every run whose steps come in time for the token `τ`: at most one refresh with `τ` succeeds, and
a refresh that is about to issue its session carries a token issued after every epoch of the user
that has been written so far.
-/
theorem refresh_single_use {jwt : JwtManager} {τ : Claims} {s₀ s : State} {es : List Event}
    (hthreads : ∀ i, s₀.threads i = none) (hepochs : s₀.epochs = [])
    (hrun : Steps (InTimeStep jwt τ) s₀ es s) :
    (∀ i j th th', s.threads i = some th → s.threads j = some th' → th.token = τ → th'.token = τ →
      th.check = .refresh → th'.check = .refresh → th.pc = .accepted → th'.pc = .accepted →
      i = j) ∧
    ∀ i t th, s.threads i = some th → th.token = τ → th.check = .refresh → th.pc ≠ .accepted →
      (th.next jwt t s).pc = .accepted → ∀ e, (τ.sub, e) ∈ s.epochs → e < τ.iat := by
  have hinv : SingleUse τ s :=
    hrun.invariant (fun _ _ _ h hs => singleUse_step h hs) (singleUse_init hthreads hepochs)
  refine ⟨?_, ?_⟩
  · intro i j th th' hi hj hτ hτ' hc hc' hp hp'
    exact hinv.unique hi hj hτ hτ' hc hc' (by rw [hp]; rfl) (by rw [hp']; rfl)
  · intro i t th hi hτ hc hpc hnext
    have hact := advance_action jwt t s.users th.token th.check s.redis th.pc
    rw [show (advance jwt t s.users th.token th.check s.redis th.pc).2 = .accepted from hnext, hc]
      at hact
    have hclaimed : th.pc = .claimed := by
      rcases hact.accepted with h | h | ⟨-, h, -⟩
      · exact absurd h hpc
      · exact h
      · cases h
    exact hinv.window hi hτ hc (by rw [hclaimed]; rfl)

/-! ## A refresh that succeeds -/

/-- An event of thread `i` alone, at time `t`, with Redis still at `r` or the token already claimed. -/
def Undisturbed (i : Nat) (t : Int) (r : Redis) (s : State) (e : Event) : Prop :=
  (∃ check token, e = .present i check token) ∨
    e = .advance i t ∧ (s.redis = r ∨ ∃ th, s.threads i = some th ∧ th.pc = .claimed)

section Passing

variable (jwt : JwtManager) (s : State) (i : Nat) (τ : Claims) (t : Int)

/-- A refresh at time `t` with a token that verifies, of an active user without an epoch, comes to
its claim. -/
theorem refresh_claiming (free : s.threads i = none) (later : s.clock ≤ t)
    (hdec : jwt.decode τ (t / 1000) = true) (htype : τ.tokenType = .refresh)
    (hepoch : s.redis.get t (.pwEpoch τ.sub) = none)
    (hactive : isActive s.users τ.sub = some true) :
    ∃ es, Steps (fun s' e s'' => Undisturbed i t s.redis s' e ∧ Step jwt s' e s'') s es
      ⟨s.redis, s.users, t, s.threads.set i ⟨τ, .refresh, .claiming (claimTtlSecs t τ), t⟩,
        s.epochs⟩ := by
  have hverify : advance jwt t s.users τ .refresh s.redis .arrived = (s.redis, .verified) := by
    simp [advance, hdec, htype, Check.tokenType]
  have hread : advance jwt t s.users τ .refresh s.redis .verified = (s.redis, .current) := by
    simp [advance, checkEpoch, hepoch, revokedByEpoch]
  have huser : advance jwt t s.users τ .refresh s.redis .current = (s.redis, .active) := by
    simp [advance, hactive]
  have hclock : advance jwt t s.users τ .refresh s.redis .active
      = (s.redis, .claiming (claimTtlSecs t τ)) := rfl
  have hkeep : ∀ (t₀ : Int) (th : Thread), Undisturbed i t s.redis
      ⟨s.redis, s.users, t₀, s.threads.set i th, s.epochs⟩ (.advance i t) :=
    fun _ _ => Or.inr ⟨rfl, Or.inl rfl⟩
  have h0 : Step jwt s (.present i .refresh τ)
      ⟨s.redis, s.users, s.clock, s.threads.set i ⟨τ, .refresh, .arrived, s.clock⟩, s.epochs⟩ :=
    .present free
  have h1 := step_thread jwt s i t ⟨τ, .refresh, .arrived, s.clock⟩ later hverify
  have h2 := step_thread jwt s i t ⟨τ, .refresh, .verified, t⟩ (Int.le_refl t) hread
  have h3 := step_thread jwt s i t ⟨τ, .refresh, .current, t⟩ (Int.le_refl t) huser
  have h4 := step_thread jwt s i t ⟨τ, .refresh, .active, t⟩ (Int.le_refl t) hclock
  exact ⟨_, .cons ⟨Or.inl ⟨_, _, rfl⟩, h0⟩ (.cons ⟨hkeep _ _, h1⟩ (.cons ⟨hkeep _ _, h2⟩
    (.cons ⟨hkeep _ _, h3⟩ (.single ⟨hkeep _ _, h4⟩))))⟩

/-- It is accepted if the token has not been claimed. -/
theorem refresh_accepted (free : s.threads i = none) (later : s.clock ≤ t)
    (hdec : jwt.decode τ (t / 1000) = true) (htype : τ.tokenType = .refresh)
    (hepoch : s.redis.get t (.pwEpoch τ.sub) = none) (hactive : isActive s.users τ.sub = some true)
    (habsent : s.redis.get t (.refreshBlacklist τ) = none) :
    ∃ es, Steps (fun s' e s'' => Undisturbed i t s.redis s' e ∧ Step jwt s' e s'') s es
      ⟨s.redis.setEx t (.refreshBlacklist τ) 1 (claimTtlSecs t τ * 1000), s.users, t,
        s.threads.set i ⟨τ, .refresh, .accepted, t⟩, s.epochs⟩ := by
  obtain ⟨es, hrun⟩ := refresh_claiming jwt s i τ t free later hdec htype hepoch hactive
  have hclaim : advance jwt t s.users τ .refresh s.redis (.claiming (claimTtlSecs t τ))
      = (s.redis.setEx t (.refreshBlacklist τ) 1 (claimTtlSecs t τ * 1000), .claimed) := by
    simp [advance, claim, Store.setNx_of_none habsent]
  have hissue : ∀ r, advance jwt t s.users τ .refresh r .claimed = (r, .accepted) := fun _ => rfl
  have h5 := step_thread jwt s i t ⟨τ, .refresh, .claiming (claimTtlSecs t τ), t⟩ (Int.le_refl t)
    hclaim
  have h6 := step_thread jwt s i t ⟨τ, .refresh, .claimed, t⟩ (Int.le_refl t)
    (hissue (s.redis.setEx t (.refreshBlacklist τ) 1 (claimTtlSecs t τ * 1000)))
  refine ⟨_, hrun.append (.cons ⟨Or.inr ⟨rfl, Or.inl rfl⟩, h5⟩ (.single ⟨?_, h6⟩))⟩
  exact Or.inr ⟨rfl, Or.inr ⟨_, Threads.set_self _ _ _, rfl⟩⟩

/-- It is refused if the token has been claimed. -/
theorem refresh_refused {v : Int} (free : s.threads i = none) (later : s.clock ≤ t)
    (hdec : jwt.decode τ (t / 1000) = true) (htype : τ.tokenType = .refresh)
    (hepoch : s.redis.get t (.pwEpoch τ.sub) = none) (hactive : isActive s.users τ.sub = some true)
    (hclaimed : s.redis.get t (.refreshBlacklist τ) = some v) :
    ∃ es, Steps (fun s' e s'' => Undisturbed i t s.redis s' e ∧ Step jwt s' e s'') s es
      ⟨s.redis, s.users, t, s.threads.set i ⟨τ, .refresh, .refused, t⟩, s.epochs⟩ := by
  obtain ⟨es, hrun⟩ := refresh_claiming jwt s i τ t free later hdec htype hepoch hactive
  have hclaim : advance jwt t s.users τ .refresh s.redis (.claiming (claimTtlSecs t τ))
      = (s.redis, .refused) := by
    simp [advance, claim, Store.setNx_of_some hclaimed]
  have h5 := step_thread jwt s i t ⟨τ, .refresh, .claiming (claimTtlSecs t τ), t⟩ (Int.le_refl t)
    hclaim
  exact ⟨_, hrun.snoc ⟨Or.inr ⟨rfl, Or.inl rfl⟩, h5⟩⟩

end Passing

/-- A thread that runs undisturbed comes in time when the entry of its token is still there. -/
theorem inTime_of_undisturbed {i : Nat} {t : Int} {r : Redis} {τ : Claims} {s : State} {e : Event}
    (hb : ∀ v d, r (.refreshBlacklist τ) = some ⟨v, some d⟩ → t ≤ d)
    (hp : r (.pwEpoch τ.sub) = none) (h : Undisturbed i t r s e) : InTime τ s e := by
  rcases h with ⟨check, token, rfl⟩ | ⟨rfl, hr | ⟨th, hi, hpc⟩⟩
  · exact trivial
  · intro th _ _ _
    rw [hr, hp]
    exact ⟨fun _ => hb, fun _ _ _ he => absurd he (Option.some_ne_none _).symm⟩
  · intro th' hi' _ _
    rw [hi] at hi'
    cases hi'
    rw [hpc]
    refine ⟨?_, ?_⟩
    · rintro ⟨_, hc⟩
      cases hc
    · rintro (hc | hc) <;> cases hc

/-- A refresh token of a week, from second 395200 to second 1000000. -/
def weekToken : Claims := ⟨1, "a@example.com", 1000000, 395200, .refresh⟩

example : createRefreshToken 395200000 1 "a@example.com" 7 = weekToken := rfl

/-- A refresh in the middle of the week, and another one a second later, which is refused. -/
theorem refresh_single_use_once :
    ∃ s es, Steps (InTimeStep (.withLeeway 10) weekToken) oneUser es s ∧
      s.threads 0 = some ⟨weekToken, .refresh, .accepted, 700000000⟩ ∧
      s.threads 1 = some ⟨weekToken, .refresh, .refused, 700001000⟩ ∧
      ∀ j th, s.threads j = some th → th.token = weekToken → th.check = .refresh →
        th.pc = .accepted → 0 = j := by
  obtain ⟨es₁, hrun₁⟩ := refresh_accepted (.withLeeway 10) oneUser 0 weekToken 700000000 rfl
    (by decide) (by decide) rfl rfl (by decide) rfl
  obtain ⟨es₂, hrun₂⟩ := refresh_refused (.withLeeway 10)
    ⟨oneUser.redis.setEx 700000000 (.refreshBlacklist weekToken) 1
      (claimTtlSecs 700000000 weekToken * 1000), oneUser.users, 700000000,
      oneUser.threads.set 0 ⟨weekToken, .refresh, .accepted, 700000000⟩, oneUser.epochs⟩
    1 weekToken 700001000 rfl (by decide) (by decide) rfl (by decide) (by decide)
    (show _ = some 1 by decide)
  have hfirst := hrun₁.mono fun _ _ _ h => (⟨inTime_of_undisturbed
    (fun _ _ hv => absurd hv (Option.some_ne_none _).symm) rfl h.1, h.2⟩ :
      InTimeStep (.withLeeway 10) weekToken _ _ _)
  have hsecond := hrun₂.mono fun _ _ _ h => (⟨inTime_of_undisturbed
    (fun v d hv => by cases hv; decide) rfl h.1, h.2⟩ : InTimeStep (.withLeeway 10) weekToken _ _ _)
  have hrun := hfirst.append hsecond
  refine ⟨_, _, hrun, rfl, rfl, ?_⟩
  intro j th hj hτ hc hp
  exact (refresh_single_use (fun _ => rfl) rfl hrun).1 0 j _ th rfl hj rfl hτ rfl hc rfl hp

/--
With the default leeway of 10 s, the claim of a refresh made 100 s before `exp` is gone at `exp`,
and the token is accepted again 5 s later.
-/
theorem refreshed_twice :
    ¬ ∀ (jwt : JwtManager) (τ : Claims) (s₀ s : State) (es : List Event),
      (∀ i, s₀.threads i = none) → s₀.epochs = [] → Steps (Step jwt) s₀ es s →
      ∀ i j th th', s.threads i = some th → s.threads j = some th' → th.token = τ →
        th'.token = τ → th.check = .refresh → th'.check = .refresh → th.pc = .accepted →
        th'.pc = .accepted → i = j := by
  intro hall
  obtain ⟨es₁, hrun₁⟩ := refresh_accepted (.withLeeway 10) oneUser 0 weekToken 999900000 rfl
    (by decide) (by decide) rfl rfl (by decide) rfl
  obtain ⟨es₂, hrun₂⟩ := refresh_accepted (.withLeeway 10)
    ⟨oneUser.redis.setEx 999900000 (.refreshBlacklist weekToken) 1
      (claimTtlSecs 999900000 weekToken * 1000), oneUser.users, 999900000,
      oneUser.threads.set 0 ⟨weekToken, .refresh, .accepted, 999900000⟩, oneUser.epochs⟩
    1 weekToken 1000005000 rfl (by decide) (by decide) rfl (by decide)
    (by decide) (by decide)
  have hrun := (hrun₁.mono fun _ _ _ h => h.2).append (hrun₂.mono fun _ _ _ h => h.2)
  have h01 : (0 : Nat) = 1 :=
    hall _ weekToken oneUser _ _ (fun _ => rfl) rfl hrun 0 1 _ _ rfl rfl rfl
    rfl rfl rfl rfl rfl
  cases h01

end ThinkWatch.Session
