import ThinkWatch.Session.Machine

/-!
# What a revocation keeps out

The operations that end sessions, and what they write about tokens: most set `pw_epoch`, which
refuses every token issued at or before it for as long as the key lives; `delete_user` also marks
the row; `logout` blacklists the refresh token it is shown. `reset_user_password` writes none of
these, and no operation blacklists an access token.

`revoked_never_accepted`: a token that is revoked by an entry that outlives it (`Covered`) is never
accepted again, in any run in which later epochs keep it revoked (`Kept`).
-/

namespace ThinkWatch.Session

open Lib

/-! ## The operations -/

/-- The part that `change_password` and its relatives share: bump the epoch of the user. -/
def State.setEpoch (s : State) (user : Uuid) (now t days : Int) : State :=
  { s with
    redis := invalidateRefreshTokens s.redis now t user days
    clock := t
    epochs := (user, now / 1000) :: s.epochs }

def changePassword (s : State) (user : Uuid) (now t days : Int) : State :=
  s.setEpoch user now t days

def forceLogoutUser (s : State) (user : Uuid) (now t days : Int) : State :=
  s.setEpoch user now t days

/-- `update_user` with `is_active = false`: the row first, then the epoch. -/
def deactivateUser (s : State) (user : Uuid) (now t days : Int) : State :=
  { s with users := Users.set s.users user ⟨false, false⟩ }.setEpoch user now t days

/-- `delete_user`: `soft_delete`, then the epoch. -/
def deleteUser (s : State) (user : Uuid) (now t days : Int) : State :=
  { s with users := Users.set s.users user ⟨false, true⟩ }.setEpoch user now t days

/-- `reset_user_password` writes the hash, the signing key and a marker: nothing read here. -/
def resetUserPassword (s : State) (t : Int) : State := { s with clock := t }

/-- `logout` claims the refresh token of the cookie, when there is one and it verifies. -/
def logout (jwt : JwtManager) (s : State) (presented : Option Claims) (now t : Int) : State :=
  match presented with
  | none => { s with clock := t }
  | some token =>
    if jwt.decode token (now / 1000) = true ∧ token.tokenType = .refresh then
      { s with redis := (claim s.redis t token (claimTtlSecs now token)).1, clock := t }
    else { s with clock := t }

/-- An operation that is to end the sessions of a user. -/
inductive Revocation where
  | changePassword (user : Uuid)
  | resetUserPassword (user : Uuid)
  | forceLogoutUser (user : Uuid)
  | deactivateUser (user : Uuid)
  | deleteUser (user : Uuid)
  | logout (user : Uuid) (presented : Option Claims)

namespace Revocation

def user : Revocation → Uuid
  | changePassword u => u
  | resetUserPassword u => u
  | forceLogoutUser u => u
  | deactivateUser u => u
  | deleteUser u => u
  | logout u _ => u

/-- The state when the operation has completed at `t`, its clock read at `now`. -/
def complete (jwt : JwtManager) (s : State) (now t days : Int) : Revocation → State
  | changePassword u => Session.changePassword s u now t days
  | resetUserPassword _ => Session.resetUserPassword s t
  | forceLogoutUser u => Session.forceLogoutUser s u now t days
  | deactivateUser u => Session.deactivateUser s u now t days
  | deleteUser u => Session.deleteUser s u now t days
  | logout _ presented => Session.logout jwt s presented now t

end Revocation

/-! ## The condition -/

/-- The token can no longer be decoded at time `t`. -/
def Dead (jwt : JwtManager) (τ : Claims) (t : Int) : Prop := τ.exp + jwt.leewaySecs < t / 1000

/--
An entry with deadline `d` is there whenever the token is looked at: up to the last millisecond in
which it decodes, and for `delay` after that.
-/
def Outlives (jwt : JwtManager) (delay : Int) (τ : Claims) (d : Int) : Prop :=
  (τ.exp + jwt.leewaySecs) * 1000 + 999 + delay ≤ d

/-- When an operation on the state `s` revokes the token `τ` for good. -/
def Covered (jwt : JwtManager) (delay : Int) (τ : Claims) (s : State) (now t days : Int) :
    Revocation → Prop
  | .changePassword _ => Outlives jwt delay τ (t + days * 86400 * 1000)
  | .forceLogoutUser _ => Outlives jwt delay τ (t + days * 86400 * 1000)
  | .deactivateUser _ => Outlives jwt delay τ (t + days * 86400 * 1000)
  | .deleteUser _ => True
  | .resetUserPassword _ => False
  | .logout _ presented => presented = some τ ∧ τ.tokenType = .refresh ∧
      jwt.decode τ (now / 1000) = true ∧
      ((s.redis.get t (.refreshBlacklist τ) = none ∧
          Outlives jwt delay τ (t + claimTtlSecs now τ * 1000)) ∨
        ∃ v d, s.redis (.refreshBlacklist τ) = some ⟨v, some d⟩ ∧ t ≤ d ∧ Outlives jwt delay τ d)

/--
What later events have to respect: requests and logouts take at most `delay` after they have
decoded a token, and every later epoch of the user still covers `τ` and outlives it.
-/
def Kept (jwt : JwtManager) (delay : Int) (τ : Claims) (s : State) : Event → Prop
  | .advance i t => ∀ th, s.threads i = some th → th.token = τ → th.pc ≠ .arrived →
      t ≤ th.verifiedAt + delay
  | .epoch user now t days => user = τ.sub →
      τ.iat ≤ now / 1000 ∧ Outlives jwt delay τ (t + days * 86400 * 1000)
  | .logout token now t => token = τ → t ≤ now + delay
  | _ => True

/-! ## Barriers -/

/-- The thread has decoded its token, unless it is at the start or refused. -/
def Decoded (jwt : JwtManager) (th : Thread) : Prop :=
  th.pc = .arrived ∨ th.pc = .refused ∨ jwt.decode th.token (th.verifiedAt / 1000) = true

theorem Action.decoded {jwt : JwtManager} {t : Int} {users : Users} {token : Claims}
    {check : Check} {r r' : Redis} {pc pc' : Pc} (h : Action jwt t users token check r pc r' pc') :
    pc' = .refused ∨ (pc = .arrived ∧ jwt.decode token (t / 1000) = true) ∨
      (pc ≠ .arrived ∧ pc ≠ .refused) := by
  cases h with
  | refuse _ => exact Or.inl rfl
  | verify valid _ => exact Or.inr (Or.inl ⟨rfl, valid⟩)
  | readEpoch before _ => exact Or.inr (Or.inr (by rcases before with rfl | rfl <;> simp))
  | _ => exact Or.inr (Or.inr (by simp))

theorem Decoded.next {jwt : JwtManager} {th : Thread} (h : Decoded jwt th) (t : Int) (s : State) :
    Decoded jwt (th.next jwt t s) := by
  rcases (advance_action jwt t s.users th.token th.check s.redis th.pc).decoded with
    hr | ⟨ha, hd⟩ | ⟨ha, hr⟩
  · exact Or.inr (Or.inl hr)
  · refine Or.inr (Or.inr ?_)
    simp only [Thread.next, if_pos ha]
    exact hd
  · rcases h with h | h | h
    · exact absurd h ha
    · exact absurd h hr
    · refine Or.inr (Or.inr ?_)
      simp only [Thread.next, if_neg ha]
      exact h

theorem decoded_step {jwt : JwtManager} {s s' : State} {e : Event}
    (h : ∀ i th, s.threads i = some th → Decoded jwt th) (hstep : Step jwt s e s') :
    ∀ i th, s'.threads i = some th → Decoded jwt th := by
  cases hstep with
  | present _ =>
    intro j th hj
    rcases Threads.set_eq_some hj with ⟨-, rfl⟩ | ⟨-, hj⟩
    · exact Or.inl rfl
    · exact h j th hj
  | advance hi _ =>
    intro j th hj
    rcases Threads.set_eq_some hj with ⟨-, rfl⟩ | ⟨-, hj⟩
    · exact (h _ _ hi).next _ _
    · exact h j th hj
  | epoch _ _ => exact h
  | logout _ _ _ _ => exact h
  | account _ _ => exact h

/-- In every run from a state without requests, each request has decoded its token. -/
theorem decoded_run {jwt : JwtManager} {s₀ s : State} {es : List Event}
    (h₀ : ∀ i, s₀.threads i = none) (hrun : Steps (Step jwt) s₀ es s) :
    ∀ i th, s.threads i = some th → Decoded jwt th := by
  refine hrun.invariant (I := fun s => ∀ i th, s.threads i = some th → Decoded jwt th)
    (fun _ _ _ h hs => decoded_step h hs) ?_
  intro i th hi
  rw [h₀ i] at hi
  cases hi

/-- An entry that outlives the token is there when a thread that has decoded it looks. -/
theorem Outlives.present {jwt : JwtManager} {delay : Int} {th : Thread} {d t : Int}
    (h : Outlives jwt delay th.token d) (hdec : Decoded jwt th) (ha : th.pc ≠ .arrived)
    (hr : th.pc ≠ .refused) (hprompt : t ≤ th.verifiedAt + delay) : t ≤ d := by
  rcases hdec with hd | hd | hd
  · exact absurd hd ha
  · exact absurd hd hr
  · rw [jwt.decode_iff] at hd
    unfold Outlives at h
    omega

/--
Something that keeps a token out: a property `P` of the state that every event keeps, and states
`Safe` of a request that no action leaves while `P` holds.
-/
structure Barrier (jwt : JwtManager) (C : State → Event → Prop) (τ : Claims) (P : State → Prop)
    (Safe : Check → Pc → Prop) : Prop where
  arrived : ∀ check, Safe check .arrived
  notAccepted : ∀ check, ¬ Safe check .accepted
  step : ∀ {s e s'}, P s → (∀ i th, s.threads i = some th → th.token = τ → Decoded jwt th) →
    C s e → Step jwt s e s' → P s'
  action : ∀ {s i t check pc v r' pc'}, P s → C s (.advance i t) → s.clock ≤ t →
    s.threads i = some ⟨τ, check, pc, v⟩ → Decoded jwt ⟨τ, check, pc, v⟩ →
    Action jwt t s.users τ check s.redis pc r' pc' → Safe check pc → Safe check pc'

/-- A request that comes after the barrier is up is not accepted. -/
theorem Barrier.never_accepted {jwt : JwtManager} {C : State → Event → Prop} {τ : Claims}
    {P : State → Prop} {Safe : Check → Pc → Prop} (hb : Barrier jwt C τ P Safe) {s s' : State}
    {es : List Event} (hP : P s) (hdec : ∀ i th, s.threads i = some th → Decoded jwt th)
    (hrun : Steps (fun s e s' => C s e ∧ Step jwt s e s') s es s') {i : Nat} {th : Thread}
    (hnew : s.threads i = none) (hi : s'.threads i = some th) (hτ : th.token = τ) :
    th.pc ≠ .accepted := by
  -- every thread has decoded its token, and a new one with `τ` is in a safe state
  have hinv : P s' ∧ (∀ i th, s'.threads i = some th → Decoded jwt th) ∧
      ∀ th, s'.threads i = some th → th.token = τ → Safe th.check th.pc := by
    refine hrun.invariant (I := fun s => P s ∧ (∀ i th, s.threads i = some th → Decoded jwt th) ∧
      ∀ th, s.threads i = some th → th.token = τ → Safe th.check th.pc) ?_ ⟨hP, hdec, ?_⟩
    · rintro s e s' ⟨hP, hdec, hsafe⟩ ⟨hC, hstep⟩
      refine ⟨hb.step hP (fun i th hi _ => hdec i th hi) hC hstep, decoded_step hdec hstep, ?_⟩
      cases hstep with
      | present _ =>
        intro th hj hτ
        rcases Threads.set_eq_some hj with ⟨-, rfl⟩ | ⟨-, hj⟩
        · exact hb.arrived _
        · exact hsafe th hj hτ
      | @advance k _ _ hk later =>
        intro th hj hτ
        rcases Threads.set_eq_some hj with ⟨hik, rfl⟩ | ⟨-, hj⟩
        · subst hik
          subst hτ
          exact hb.action hP hC later hk (hdec _ _ hk) (advance_action jwt _ _ _ _ _ _)
            (hsafe _ hk rfl)
        · exact hsafe th hj hτ
      | epoch _ _ => exact hsafe
      | logout _ _ _ _ => exact hsafe
      | account _ _ => exact hsafe
    · intro th hi
      rw [hnew] at hi
      cases hi
  intro hacc
  have hsafe := hinv.2.2 th hi hτ
  rw [hacc] at hsafe
  exact hb.notAccepted _ hsafe

/-! ## The four barriers -/

section Barriers

variable {jwt : JwtManager} {delay : Int} {τ : Claims}

theorem Step.clock_le {s s' : State} {e : Event} (h : Step jwt s e s') : s.clock ≤ s'.clock := by
  cases h with
  | present _ => exact Int.le_refl _
  | advance _ later => exact later
  | epoch later _ => exact later
  | logout later _ _ _ => exact later
  | account later _ => exact later

/-- A token that has expired for the decoder gets no further than its arrival. -/
theorem barrier_dead : Barrier jwt (fun _ _ => True) τ (fun s => Dead jwt τ s.clock)
    (fun _ pc => pc = .arrived ∨ pc = .refused) where
  arrived _ := Or.inl rfl
  notAccepted _ h := by rcases h with h | h <;> cases h
  step := by
    intro s e s' hP _ _ hstep
    have := hstep.clock_le
    unfold Dead at *
    omega
  action := by
    intro s i t check pc v r' pc' hP _ later _ _ hact hsafe
    rcases hact.decoded with hr | ⟨-, hd⟩ | ⟨ha, hr⟩
    · exact Or.inr hr
    · rw [jwt.decode_iff] at hd
      unfold Dead at hP
      omega
    · rcases hsafe with h | h
      · exact absurd h ha
      · exact absurd h hr

/-- A deleted account lets no request past the read of the user. -/
theorem barrier_deleted : Barrier jwt (fun _ _ => True) τ
    (fun s => ∃ a, s.users τ.sub = some a ∧ a.deleted = true)
    (fun _ pc => pc ≠ .active ∧ (∀ ttlSecs, pc ≠ .claiming ttlSecs) ∧ pc ≠ .claimed ∧
      pc ≠ .accepted) where
  arrived _ := by simp
  notAccepted _ h := h.2.2.2 rfl
  step := by
    rintro s e s' ⟨a, ha, hdel⟩ _ _ hstep
    cases hstep with
    | present _ => exact ⟨a, ha, hdel⟩
    | advance _ _ => exact ⟨a, ha, hdel⟩
    | epoch _ _ => exact ⟨a, ha, hdel⟩
    | logout _ _ _ _ => exact ⟨a, ha, hdel⟩
    | @account user b _ _ kept =>
      by_cases hu : τ.sub = user
      · subst hu
        exact ⟨b, if_pos rfl, kept a ha hdel⟩
      · exact ⟨a, (if_neg hu).trans ha, hdel⟩
  action := by
    rintro s i t check pc v r' pc' ⟨a, ha, hdel⟩ _ _ _ _ hact hsafe
    have hinactive : isActive s.users τ.sub ≠ some true := by simp [isActive, ha, hdel]
    cases hact with
    | authenticate _ active => exact absurd active hinactive
    | refreshActive _ active => exact absurd active hinactive
    | readClock => exact absurd rfl hsafe.1
    | claim _ => exact absurd rfl (hsafe.2.1 _)
    | issue => exact absurd rfl hsafe.2.2.1
    | done => exact absurd rfl hsafe.2.2.2
    | _ => simp

/-- An epoch that covers the token and outlives it lets no request past the read of the epoch. -/
theorem barrier_epoch : Barrier jwt (Kept jwt delay τ) τ
    (fun s => ∃ e d, s.redis (.pwEpoch τ.sub) = some ⟨e, some d⟩ ∧ τ.iat ≤ e ∧
      Outlives jwt delay τ d)
    (fun _ pc => pc = .arrived ∨ pc = .verified ∨ pc = .unrevoked ∨ pc = .refused) where
  arrived _ := Or.inl rfl
  notAccepted _ h := by rcases h with h | h | h | h <;> cases h
  step := by
    rintro s e s' ⟨ep, d, hentry, hle, hout⟩ _ hC hstep
    cases hstep with
    | present _ => exact ⟨ep, d, hentry, hle, hout⟩
    | @advance i t th _ _ =>
      have hact := advance_action jwt t s.users th.token th.check s.redis th.pc
      exact ⟨ep, d, (hact.pwEpoch τ.sub).trans hentry, hle, hout⟩
    | @epoch user now t days _ _ =>
      by_cases hu : user = τ.sub
      · subst hu
        obtain ⟨hcov, hout'⟩ := hC rfl
        exact ⟨_, _, Store.put_self _ _ _, hcov, hout'⟩
      · have hne : Key.pwEpoch τ.sub ≠ .pwEpoch user := fun hk => hu (Key.pwEpoch.inj hk).symm
        exact ⟨ep, d, (invalidateRefreshTokens_ne _ now t hne days).trans hentry, hle, hout⟩
    | @logout token now t _ _ _ _ =>
      rcases claim_key s.redis t token (claimTtlSecs now token) (.pwEpoch τ.sub) with hk | ⟨hk, -⟩
      · exact ⟨ep, d, hk.trans hentry, hle, hout⟩
      · cases hk
    | account _ _ => exact ⟨ep, d, hentry, hle, hout⟩
  action := by
    rintro s i t check pc v r' pc' ⟨ep, d, hentry, hle, hout⟩ hC _ hi hdec hact hsafe
    cases hact with
    | refuse _ => simp
    | verify _ _ => simp
    | notBlacklisted _ => simp
    | readEpoch before old =>
      -- the epoch is still stored, so the read sees it
      have ha : pc ≠ .arrived := by rcases before with rfl | rfl <;> simp
      have hr : pc ≠ .refused := by rcases before with rfl | rfl <;> simp
      have hlive : t ≤ d := hout.present hdec ha hr (hC _ hi rfl ha)
      have := old ep (Store.get_of_le_deadline hentry hlive)
      omega
    | authenticate _ _ => simp at hsafe
    | refreshActive _ _ => simp at hsafe
    | readClock => simp at hsafe
    | claim _ => simp at hsafe
    | issue => simp at hsafe
    | done => simp at hsafe

/-- A blacklisted refresh token is not claimed again while the entry is there. -/
theorem barrier_blacklist (htype : τ.tokenType = .refresh) : Barrier jwt (Kept jwt delay τ) τ
    (fun s => ∃ v d, s.redis (.refreshBlacklist τ) = some ⟨v, some d⟩ ∧ Outlives jwt delay τ d)
    (fun check pc => pc ≠ .claimed ∧ pc ≠ .accepted ∧
      (check = .requireAuth → pc = .arrived ∨ pc = .refused)) where
  arrived _ := by simp
  notAccepted _ h := h.2.1 rfl
  step := by
    rintro s e s' ⟨v, d, hentry, hout⟩ hdec hC hstep
    have hlive : ∀ t, t ≤ d → s.redis.get t (.refreshBlacklist τ) ≠ none := by
      intro t ht
      rw [Store.get_of_le_deadline hentry ht]
      exact Option.some_ne_none v
    cases hstep with
    | present _ => exact ⟨v, d, hentry, hout⟩
    | @advance i t th hi _ =>
      refine ⟨v, d, ?_, hout⟩
      show (Session.advance jwt t s.users th.token th.check s.redis th.pc).1 _ = _
      rcases (advance_action jwt t s.users th.token th.check s.redis th.pc).blacklist τ with
        hk | ⟨hτ, ⟨ttlSecs, hpc⟩, habsent⟩
      · rw [hk, hentry]
      · -- a claim of `τ` itself comes while the entry is there
        have ha : th.pc ≠ .arrived := by simp [hpc]
        have hr : th.pc ≠ .refused := by simp [hpc]
        have hout' : Outlives jwt delay th.token d := by rw [hτ]; exact hout
        have hle : t ≤ d := hout'.present (hdec i th hi hτ) ha hr (hC th hi hτ ha)
        exact absurd habsent (hlive t hle)
    | @epoch user now t days _ _ =>
      have hne : Key.refreshBlacklist τ ≠ .pwEpoch user := by simp
      exact ⟨v, d, (invalidateRefreshTokens_ne _ now t hne days).trans hentry, hout⟩
    | @logout token now t _ _ hvalid _ =>
      rcases claim_key s.redis t token (claimTtlSecs now token) (.refreshBlacklist τ) with
        hk | ⟨hk, habsent, -⟩
      · exact ⟨v, d, hk.trans hentry, hout⟩
      · have hτ : token = τ := (Key.refreshBlacklist.inj hk).symm
        have hprompt := hC hτ
        rw [hτ, jwt.decode_iff] at hvalid
        have hle : t ≤ d := by
          unfold Outlives at hout
          omega
        exact absurd habsent (hlive t hle)
    | account _ _ => exact ⟨v, d, hentry, hout⟩
  action := by
    rintro s i t check pc v₀ r' pc' ⟨v, d, hentry, hout⟩ hC _ hi hdec hact ⟨hcl, hacc, hauth⟩
    cases hact with
    | refuse _ => simp
    | verify _ type =>
      refine ⟨by simp, by simp, ?_⟩
      rintro rfl
      rw [htype] at type
      cases type
    | notBlacklisted auth => simpa using hauth auth
    | readEpoch before _ =>
      refine ⟨by simp, by simp, fun hc => ?_⟩
      rcases hauth hc with rfl | rfl <;> rcases before with h | h <;> cases h
    | authenticate auth _ => simpa using hauth auth
    | refreshActive refresh _ => simp [refresh]
    | readClock =>
      refine ⟨by simp, by simp, fun hc => ?_⟩
      simpa using hauth hc
    | claim absent =>
      have hle : t ≤ d := hout.present hdec (by simp) (by simp) (hC _ hi rfl (by simp))
      rw [Store.get_of_le_deadline hentry hle] at absent
      cases absent
    | issue => exact absurd rfl hcl
    | done => exact absurd rfl hacc

end Barriers

/-! ## Main result -/

section Main

variable {jwt : JwtManager} {delay : Int} {τ : Claims}

/-- A step after `op`. Once the user is deleted, nothing has to be respected. -/
def KeptStep (jwt : JwtManager) (delay : Int) (τ : Claims) (op : Revocation) (s : State) (e : Event)
    (s' : State) : Prop :=
  (match op with
    | .deleteUser _ => True
    | _ => Kept jwt delay τ s e) ∧ Step jwt s e s'

/-- No operation touches the requests in flight. -/
theorem Revocation.complete_threads (jwt : JwtManager) (op : Revocation) (s : State)
    (now t days : Int) :
    (op.complete jwt s now t days).threads = s.threads := by
  cases op with
  | logout u presented =>
    cases presented with
    | none => rfl
    | some token =>
      simp only [Revocation.complete, Session.logout]
      split <;> rfl
  | _ => rfl

theorem Revocation.complete_clock (jwt : JwtManager) (op : Revocation) (s : State)
    (now t days : Int) :
    (op.complete jwt s now t days).clock = t := by
  cases op with
  | logout u presented =>
    cases presented with
    | none => rfl
    | some token =>
      simp only [Revocation.complete, Session.logout]
      split <;> rfl
  | _ => rfl

/-- The entry a covering logout leaves behind. -/
theorem logout_blacklists {s : State} {now t : Int} (htype : τ.tokenType = .refresh)
    (hdec : jwt.decode τ (now / 1000) = true)
    (h : (s.redis.get t (.refreshBlacklist τ) = none ∧
        Outlives jwt delay τ (t + claimTtlSecs now τ * 1000)) ∨
      ∃ v d, s.redis (.refreshBlacklist τ) = some ⟨v, some d⟩ ∧ t ≤ d ∧ Outlives jwt delay τ d) :
    ∃ v d, (logout jwt s (some τ) now t).redis (.refreshBlacklist τ) = some ⟨v, some d⟩ ∧
      Outlives jwt delay τ d := by
  simp only [logout, hdec, htype, and_self, if_true]
  rcases h with ⟨habsent, hout⟩ | ⟨v, d, hentry, hle, hout⟩
  · refine ⟨1, t + claimTtlSecs now τ * 1000, ?_, hout⟩
    rw [claim, Store.setNx_of_none habsent]
    exact Store.put_self _ _ _
  · refine ⟨v, d, ?_, hout⟩
    rw [claim, Store.setNx_of_some (Store.get_of_le_deadline hentry hle)]
    exact hentry

/--
Let an operation complete at `t` that revokes the token `τ`, issued before it, or let `τ` be past
decoding at `t`. Then no request that presents `τ` after that is accepted, by `require_auth` or by
`refresh`, in any run that respects `Kept`.
-/
theorem revoked_never_accepted {s₀ s s' : State} {es₀ es : List Event} {now t days : Int}
    {op : Revocation} (hthreads : ∀ i, s₀.threads i = none)
    (hbefore : Steps (Step jwt) s₀ es₀ s) (huser : op.user = τ.sub) (hiat : τ.iat ≤ now / 1000)
    (hcov : Dead jwt τ t ∨ Covered jwt delay τ s now t days op)
    (hrun : Steps (KeptStep jwt delay τ op) (op.complete jwt s now t days) es s') :
    ∀ i th, s.threads i = none → s'.threads i = some th → th.token = τ → th.pc ≠ .accepted := by
  intro i th hnew hi hτ
  have hdec := decoded_run hthreads hbefore
  rw [← op.complete_threads jwt s now t days] at hnew hdec
  have hplain := hrun.mono fun _ _ _ h => (⟨trivial, h.2⟩ : True ∧ Step jwt _ _ _)
  rcases hcov with hdead | hcov
  · have hP : Dead jwt τ (op.complete jwt s now t days).clock := by
      rw [op.complete_clock jwt]
      exact hdead
    exact barrier_dead.never_accepted hP hdec hplain hnew hi hτ
  -- an operation that bumps the epoch puts up the barrier of the epoch
  have hbumped : (op.complete jwt s now t days).redis (.pwEpoch τ.sub)
      = some ⟨now / 1000, some (t + days * 86400 * 1000)⟩ →
      Outlives jwt delay τ (t + days * 86400 * 1000) →
      Steps (fun s e s' => Kept jwt delay τ s e ∧ Step jwt s e s')
        (op.complete jwt s now t days) es s' → th.pc ≠ .accepted := by
    intro hentry hout hkept
    exact barrier_epoch.never_accepted ⟨_, _, hentry, hiat, hout⟩ hdec hkept hnew hi hτ
  cases op with
  | changePassword u =>
    obtain rfl : u = τ.sub := huser
    exact hbumped (Store.put_self _ _ _) hcov hrun
  | forceLogoutUser u =>
    obtain rfl : u = τ.sub := huser
    exact hbumped (Store.put_self _ _ _) hcov hrun
  | deactivateUser u =>
    obtain rfl : u = τ.sub := huser
    exact hbumped (Store.put_self _ _ _) hcov hrun
  | deleteUser u =>
    obtain rfl : u = τ.sub := huser
    exact barrier_deleted.never_accepted ⟨⟨false, true⟩, if_pos rfl, rfl⟩ hdec hplain hnew hi hτ
  | resetUserPassword _ => exact absurd hcov id
  | logout _ presented =>
    obtain ⟨rfl, htype, hvalid, hentry⟩ := hcov
    exact (barrier_blacklist htype).never_accepted (logout_blacklists htype hvalid hentry) hdec hrun
      hnew hi hτ

end Main

/-! ## Two runs -/

section Passing

variable (jwt : JwtManager) (delay : Int) (τ : Claims) (s : State) (i : Nat) (t : Int)

theorem kept_thread (th : Thread) (r : Redis) (t₀ : Int)
    (h : th.pc = .arrived ∨ t ≤ th.verifiedAt + delay) :
    Kept jwt delay τ ⟨r, s.users, t₀, s.threads.set i th, s.epochs⟩ (.advance i t) := by
  intro th' hi _ hpc
  have heq : th = th' := Option.some.inj ((Threads.set_self s.threads i th).symm.trans hi)
  subst heq
  rcases h with h | h
  · exact absurd h hpc
  · exact h

/-- The present of an access token and the first two commands of `require_auth`. -/
theorem requireAuth_unrevoked (free : s.threads i = none) (later : s.clock ≤ t) (hdelay : 0 ≤ delay)
    (hdec : jwt.decode τ (t / 1000) = true) (htype : τ.tokenType = .access)
    (hfree : s.redis.get t (.jwtBlacklist τ) = none) :
    ∃ es, Steps (fun s e s' => Kept jwt delay τ s e ∧ Step jwt s e s') s es
      ⟨s.redis, s.users, t, s.threads.set i ⟨τ, .requireAuth, .unrevoked, t⟩, s.epochs⟩ := by
  have hverify : advance jwt t s.users τ .requireAuth s.redis .arrived = (s.redis, .verified) := by
    simp [advance, hdec, htype, Check.tokenType]
  have hread : advance jwt t s.users τ .requireAuth s.redis .verified = (s.redis, .unrevoked) := by
    simp [advance, hfree]
  have h0 : Step jwt s (.present i .requireAuth τ)
      ⟨s.redis, s.users, s.clock, s.threads.set i ⟨τ, .requireAuth, .arrived, s.clock⟩, s.epochs⟩ :=
    .present free
  have h1 := step_thread jwt s i t ⟨τ, .requireAuth, .arrived, s.clock⟩ later hverify
  have h2 := step_thread jwt s i t ⟨τ, .requireAuth, .verified, t⟩ (Int.le_refl t) hread
  have hk0 : Kept jwt delay τ s (.present i .requireAuth τ) := trivial
  refine ⟨_, .cons ⟨hk0, h0⟩ (.cons ⟨?_, h1⟩ (.single ⟨?_, h2⟩))⟩
  · exact kept_thread jwt delay τ s i t _ _ _ (Or.inl rfl)
  · exact kept_thread jwt delay τ s i t _ _ _ (Or.inr (Int.le_add_of_nonneg_right hdelay))

end Passing

/-- An access token of 15 minutes, issued at second 0. -/
def quarterToken : Claims := ⟨1, "a@example.com", 900, 0, .access⟩

example : createAccessToken 0 1 "a@example.com" 900 = quarterToken := rfl

/-- A forced logout after one second: the token is refused a second later. -/
theorem revoked_never_accepted_quarter :
    ∃ es s', Steps (KeptStep (.withLeeway 10) 0 quarterToken (.forceLogoutUser 1))
        ((Revocation.forceLogoutUser 1).complete (.withLeeway 10) oneUser 1000 1000 7) es s' ∧
      s'.threads 0 = some ⟨quarterToken, .requireAuth, .refused, 2000⟩ ∧
      ∀ i th, s'.threads i = some th → th.token = quarterToken → th.pc ≠ .accepted := by
  let s := (Revocation.forceLogoutUser 1).complete (.withLeeway 10) oneUser 1000 1000 7
  obtain ⟨es, hrun⟩ := requireAuth_unrevoked (.withLeeway 10) 0 quarterToken s 0 2000 rfl
    (by decide) (by decide) (by decide) rfl (by decide)
  have hadv : advance (.withLeeway 10) 2000 s.users quarterToken .requireAuth s.redis .unrevoked
      = (s.redis, .refused) := Prod.ext rfl (by decide)
  have hrefused := step_thread (.withLeeway 10) s 0 2000
    ⟨quarterToken, .requireAuth, .unrevoked, 2000⟩ (Int.le_refl 2000) hadv
  have hkept := kept_thread (.withLeeway 10) 0 quarterToken s 0 2000
    ⟨quarterToken, .requireAuth, .unrevoked, 2000⟩ s.redis 2000 (Or.inr (by decide))
  have hrun := hrun.snoc ⟨hkept, hrefused⟩
  refine ⟨_, _, hrun, rfl, ?_⟩
  intro i th hi hτ
  have hcov : Covered (.withLeeway 10) 0 quarterToken oneUser 1000 1000 7 (.forceLogoutUser 1) := by
    unfold Covered Outlives
    decide
  exact revoked_never_accepted (fun _ => rfl) (.nil oneUser) rfl (by decide) (Or.inr hcov) hrun
    i th rfl hi hτ

/-- After `reset_user_password` the access token of before is accepted. -/
theorem accepted_after_reset :
    ¬ ∀ (jwt : JwtManager) (τ : Claims) (s₀ s s' : State) (es₀ es : List Event) (now t days : Int)
      (op : Revocation), (∀ i, s₀.threads i = none) → Steps (Step jwt) s₀ es₀ s → s.clock ≤ now →
      now ≤ t → op.user = τ.sub → τ.iat ≤ now / 1000 →
      Steps (Step jwt) (op.complete jwt s now t days) es s' →
      ∀ i th, s.threads i = none → s'.threads i = some th → th.token = τ → th.pc ≠ .accepted := by
  intro hall
  let s := (Revocation.resetUserPassword 1).complete (.withLeeway 10) oneUser 1000 1000 7
  obtain ⟨es, hrun⟩ := requireAuth_unrevoked (.withLeeway 10) 0 quarterToken s 0 2000 rfl
    (by decide) (by decide) (by decide) rfl (by decide)
  have hread : advance (.withLeeway 10) 2000 s.users quarterToken .requireAuth s.redis .unrevoked
      = (s.redis, .current) := Prod.ext rfl (by decide)
  have huser : advance (.withLeeway 10) 2000 s.users quarterToken .requireAuth s.redis .current
      = (s.redis, .accepted) := rfl
  have h1 := step_thread (.withLeeway 10) s 0 2000
    ⟨quarterToken, .requireAuth, .unrevoked, 2000⟩ (Int.le_refl 2000) hread
  have h2 := step_thread (.withLeeway 10) s 0 2000
    ⟨quarterToken, .requireAuth, .current, 2000⟩ (Int.le_refl 2000) huser
  have hrun := ((hrun.mono fun _ _ _ h => h.2).snoc h1).snoc h2
  exact hall _ quarterToken oneUser oneUser _ [] _ 1000 1000 7 (.resetUserPassword 1)
    (fun _ => rfl) (.nil _) (by decide) (by decide) rfl (by decide) hrun 0 _ rfl rfl rfl rfl

end ThinkWatch.Session
