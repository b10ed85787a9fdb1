import ThinkWatch.Lib.Run
import ThinkWatch.Lib.Threads
import ThinkWatch.Session.Tokens

/-!
# Sessions, interleaved

Requests that present tokens run through `advance` one command at a time. Between any two commands
other requests may write an epoch, claim a refresh token on logout, or change a `users` row.
-/

namespace ThinkWatch.Session

open Lib

/-- A request that presents `token`. `verifiedAt` is when its JWT was decoded. -/
structure Thread where
  token : Claims
  check : Check
  pc : Pc
  verifiedAt : Int

/-- `epochs` records every epoch ever written; nothing reads it. -/
structure State where
  redis : Redis
  users : Users
  clock : Int
  threads : Threads Thread
  epochs : List (Uuid × Int)

def Thread.next (jwt : JwtManager) (t : Int) (s : State) (th : Thread) : Thread :=
  { th with
    pc := (advance jwt t s.users th.token th.check s.redis th.pc).2
    verifiedAt := if th.pc = .arrived then t else th.verifiedAt }

inductive Event where
  | present (i : Nat) (check : Check) (token : Claims)
  | advance (i : Nat) (t : Int)
  | epoch (user : Uuid) (now t days : Int)
  | logout (token : Claims) (now t : Int)
  | account (user : Uuid) (a : Account) (t : Int)

/-- A `users` row with one account changed. -/
def Users.set (users : Users) (user : Uuid) (a : Account) : Users :=
  fun u => if u = user then some a else users u

/-- One event. A deleted account stays deleted: nothing resets `deleted_at`. -/
inductive Step (jwt : JwtManager) : State → Event → State → Prop where
  | present {s : State} {i : Nat} {check : Check} {token : Claims} (free : s.threads i = none) :
      Step jwt s (.present i check token)
        { s with threads := s.threads.set i ⟨token, check, .arrived, s.clock⟩ }
  | advance {s : State} {i : Nat} {t : Int} {th : Thread} (thread : s.threads i = some th)
      (later : s.clock ≤ t) :
      Step jwt s (.advance i t)
        { s with
          redis := (Session.advance jwt t s.users th.token th.check s.redis th.pc).1
          clock := t
          threads := s.threads.set i (th.next jwt t s) }
  | epoch {s : State} {user : Uuid} {now t days : Int} (later : s.clock ≤ t) (before : now ≤ t) :
      Step jwt s (.epoch user now t days)
        { s with
          redis := invalidateRefreshTokens s.redis now t user days
          clock := t
          epochs := (user, now / 1000) :: s.epochs }
  | logout {s : State} {token : Claims} {now t : Int} (later : s.clock ≤ t) (before : now ≤ t)
      (valid : jwt.decode token (now / 1000) = true) (refresh : token.tokenType = .refresh) :
      Step jwt s (.logout token now t)
        { s with redis := (claim s.redis t token (claimTtlSecs now token)).1, clock := t }
  | account {s : State} {user : Uuid} {a : Account} {t : Int} (later : s.clock ≤ t)
      (kept : ∀ b, s.users user = some b → b.deleted = true → a.deleted = true) :
      Step jwt s (.account user a t) { s with users := Users.set s.users user a, clock := t }

/-- One active user, nothing in Redis. -/
def oneUser : State :=
  ⟨Store.empty, fun u => if u = 1 then some ⟨true, false⟩ else none, 0, Threads.none, []⟩

/-! ## What one action can do -/

/-- Every way an action of a request can go: the state before, the Redis after, the state after. -/
inductive Action (jwt : JwtManager) (t : Int) (users : Users) (token : Claims) (check : Check)
    (r : Redis) : Pc → Redis → Pc → Prop where
  | refuse {pc : Pc} (going : pc ≠ .accepted) : Action jwt t users token check r pc r .refused
  | verify (valid : jwt.decode token (t / 1000) = true)
      (type : token.tokenType = check.tokenType) :
      Action jwt t users token check r .arrived r .verified
  | notBlacklisted (auth : check = .requireAuth) :
      Action jwt t users token check r .verified r .unrevoked
  | readEpoch {pc : Pc} (before : pc = .verified ∨ pc = .unrevoked)
      (old : ∀ e, r.get t (.pwEpoch token.sub) = some e → e < token.iat) :
      Action jwt t users token check r pc r .current
  | authenticate (auth : check = .requireAuth) (active : isActive users token.sub = some true) :
      Action jwt t users token check r .current r .accepted
  | refreshActive (refresh : check = .refresh) (active : isActive users token.sub = some true) :
      Action jwt t users token check r .current r .active
  | readClock : Action jwt t users token check r .active r (.claiming (claimTtlSecs t token))
  | claim {ttlSecs : Int} (absent : r.get t (.refreshBlacklist token) = none) :
      Action jwt t users token check r (.claiming ttlSecs)
        (r.setEx t (.refreshBlacklist token) 1 (ttlSecs * 1000)) .claimed
  | issue : Action jwt t users token check r .claimed r .accepted
  | done : Action jwt t users token check r .accepted r .accepted

theorem checkEpoch_action {jwt : JwtManager} {t : Int} {users : Users} {token : Claims}
    {check : Check} {r : Redis} {pc : Pc} (h : pc = .verified ∨ pc = .unrevoked) :
    Action jwt t users token check r pc r (checkEpoch r t token) := by
  unfold checkEpoch
  split
  · refine .refuse ?_
    rintro rfl
    rcases h with h | h <;> cases h
  · next hold =>
    refine .readEpoch h fun e he => ?_
    simp only [he, revokedByEpoch, decide_eq_true_eq] at hold
    omega

/-- `advance` does one of these. -/
theorem advance_action (jwt : JwtManager) (t : Int) (users : Users) (token : Claims)
    (check : Check) (r : Redis) (pc : Pc) :
    Action jwt t users token check r pc (advance jwt t users token check r pc).1
      (advance jwt t users token check r pc).2 := by
  cases pc with
  | arrived =>
    simp only [advance]
    split
    · next h => exact .verify h.1 h.2
    · exact .refuse (by simp)
  | verified =>
    cases check with
    | requireAuth =>
      simp only [advance]
      split
      · exact .refuse (by simp)
      · exact .notBlacklisted rfl
    | refresh => exact checkEpoch_action (Or.inl rfl)
  | unrevoked => exact checkEpoch_action (Or.inr rfl)
  | current =>
    simp only [advance]
    split
    · next h =>
      cases check with
      | requireAuth => exact .authenticate rfl h
      | refresh => exact .refreshActive rfl h
    · exact .refuse (by simp)
  | active => exact .readClock
  | claiming ttlSecs =>
    cases hget : r.get t (.refreshBlacklist token) with
    | some v =>
      have hadv : advance jwt t users token check r (.claiming ttlSecs) = (r, .refused) := by
        simp [advance, claim, Store.setNx_of_some hget]
      rw [hadv]
      exact .refuse (by simp)
    | none =>
      have hadv : advance jwt t users token check r (.claiming ttlSecs)
          = (r.setEx t (.refreshBlacklist token) 1 (ttlSecs * 1000), .claimed) := by
        simp [advance, claim, Store.setNx_of_none hget]
      rw [hadv]
      exact .claim hget
  | claimed => exact .issue
  | accepted => exact .done
  | refused => exact .refuse (by simp)

/-- No action writes an epoch. -/
theorem Action.pwEpoch {jwt : JwtManager} {t : Int} {users : Users} {token : Claims}
    {check : Check} {r r' : Redis} {pc pc' : Pc} (h : Action jwt t users token check r pc r' pc')
    (u : Uuid) : r' (.pwEpoch u) = r (.pwEpoch u) := by
  cases h with
  | claim _ =>
    have hne : Key.pwEpoch u ≠ .refreshBlacklist token := by simp
    exact Store.put_ne r hne _
  | _ => rfl

/-- An action changes the blacklist entry of a token only by claiming that token. -/
theorem Action.blacklist {jwt : JwtManager} {t : Int} {users : Users} {token : Claims}
    {check : Check} {r r' : Redis} {pc pc' : Pc} (h : Action jwt t users token check r pc r' pc')
    (τ : Claims) : r' (.refreshBlacklist τ) = r (.refreshBlacklist τ) ∨
      (token = τ ∧ (∃ ttlSecs, pc = .claiming ttlSecs) ∧
        r.get t (.refreshBlacklist τ) = none) := by
  cases h with
  | claim absent =>
    by_cases hk : token = τ
    · subst hk
      exact Or.inr ⟨rfl, ⟨_, rfl⟩, absent⟩
    · have hne : Key.refreshBlacklist τ ≠ .refreshBlacklist token :=
        fun h => hk (Key.refreshBlacklist.inj h).symm
      exact Or.inl (Store.put_ne r hne _)
  | _ => exact Or.inl rfl

/-- How a request comes to be accepted. -/
theorem Action.accepted {jwt : JwtManager} {t : Int} {users : Users} {token : Claims}
    {check : Check} {r r' : Redis} {pc : Pc}
    (h : Action jwt t users token check r pc r' .accepted) :
    pc = .accepted ∨ pc = .claimed ∨
      (pc = .current ∧ check = .requireAuth ∧ isActive users token.sub = some true) := by
  cases h with
  | authenticate auth active => exact Or.inr (Or.inr ⟨rfl, auth, active⟩)
  | issue => exact Or.inr (Or.inl rfl)
  | done => exact Or.inl rfl

theorem invalidateRefreshTokens_ne (s : Redis) (now t : Int) {user : Uuid} {k : Key}
    (h : k ≠ .pwEpoch user) (days : Int) :
    invalidateRefreshTokens s now t user days k = s k :=
  Store.put_ne s h _

/-- A claim leaves every other key alone, and its own unless it was absent. -/
theorem claim_key (s : Redis) (t : Int) (token : Claims) (ttlSecs : Int) (k : Key) :
    (claim s t token ttlSecs).1 k = s k ∨
      (k = .refreshBlacklist token ∧ s.get t k = none ∧
        (claim s t token ttlSecs).1 k = some ⟨1, some (t + ttlSecs * 1000)⟩) := by
  unfold claim
  cases hget : s.get t (.refreshBlacklist token) with
  | some v => exact Or.inl (by rw [Store.setNx_of_some hget])
  | none =>
    rw [Store.setNx_of_none hget]
    by_cases hk : k = .refreshBlacklist token
    · subst hk
      exact Or.inr ⟨rfl, hget, Store.put_self _ _ _⟩
    · exact Or.inl (Store.put_ne s hk _)

/-- One action of thread `i`, in a state that differs from `s` in Redis, clock and that thread. -/
theorem step_thread (jwt : JwtManager) (s : State) (i : Nat) (t : Int) (th : Thread) {r r' : Redis}
    {t₀ : Int} {pc' : Pc} (later : t₀ ≤ t)
    (hadv : advance jwt t s.users th.token th.check r th.pc = (r', pc')) :
    Step jwt ⟨r, s.users, t₀, s.threads.set i th, s.epochs⟩ (.advance i t)
      ⟨r', s.users, t, s.threads.set i ⟨th.token, th.check, pc',
        if th.pc = .arrived then t else th.verifiedAt⟩, s.epochs⟩ := by
  have hi : (⟨r, s.users, t₀, s.threads.set i th, s.epochs⟩ : State).threads i = some th :=
    Threads.set_self _ _ _
  have hstep : Step jwt _ _ _ := Step.advance hi later
  simp only [Threads.set_set, Thread.next, hadv] at hstep
  exact hstep

end ThinkWatch.Session
