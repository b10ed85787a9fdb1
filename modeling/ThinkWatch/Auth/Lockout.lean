import ThinkWatch.Lib.Expiring
import ThinkWatch.Lib.Run
import ThinkWatch.Lib.Threads

/-!
# The lockout of an account

`crates/server/src/services/auth_lockout.rs` and `fixed_window::incr`, as `login` calls them: failed
sign-in attempts on one account, from any addresses and at the same time, each Redis command a step
of its own. An attempt fails at the password or, when that was right, at the second factor; each of
the two has a failure counter and a lock.
-/

namespace ThinkWatch.Auth.Lockout

open Lib

def counterWindowSecs : Int := 900

def ladderSecs (failures : Int) : Option Int :=
  if 10 ≤ failures then some 900
  else if 8 ≤ failures then some 300
  else if 5 ≤ failures then some 60
  else none

/-- Where an attempt fails. -/
inductive Gate where
  | password
  | totp
deriving DecidableEq, Repr

inductive Key where
  | authRate (clientIp : String)
  | authRateIp (clientIp : String)
  /-- `auth_email_fails`, `auth_totp_fails` -/
  | fails (g : Gate)
  /-- `auth_lockout`, `auth_totp_locked` -/
  | locked (g : Gate)
deriving DecidableEq, Repr

/-- How far an attempt has got: the command that comes next, and what earlier ones returned. -/
inductive Pc where
  | countRate
  | expireRate (count : Int)
  | countIp (count : Int)
  | expireIp (count ipCount : Int)
  | checkLock (count : Int)
  | checkTotpLock
  | countFailure (count : Int)
  | expireFailure (count fails : Int)
  | applyLockout (trigger secs : Int)
  | done
deriving DecidableEq, Repr

structure Attempt where
  clientIp : String
  gate : Gate
  pc : Pc

/--
`counted` is what the last increment of a failure counter returned, and when; `lastLock` is the count
that the last lock was set for, and when.
-/
structure State where
  clock : Int
  redis : Store Key Int
  attempts : Threads Attempt
  counted : Gate → Option (Int × Int)
  lastLock : Gate → Option (Int × Int)

inductive Event where
  | tick (t : Int)
  | arrive (i : Nat) (clientIp : String) (gate : Gate)
  | go (i : Nat)

/-- What the ladder looks at. The password's is also the count of the attempts from the address. -/
def trigger : Gate → Int → Int → Int
  | .password, count, fails => max count fails
  | .totp, _, fails => fails

/-- The lock is set when the count is on the ladder. -/
def afterFailure (trigger : Int) : Pc :=
  match ladderSecs trigger with
  | some secs => .applyLockout trigger secs
  | none => .done

namespace State

def start (clock : Int) : State := ⟨clock, .empty, .none, fun _ => none, fun _ => none⟩

def move (s : State) (i : Nat) (a : Attempt) (pc : Pc) : State :=
  { s with attempts := s.attempts.set i { a with pc := pc } }

def setAt (f : Gate → Option (Int × Int)) (g : Gate) (v : Int × Int) : Gate → Option (Int × Int) :=
  fun g' => if g' = g then some v else f g'

def advance (s : State) (i : Nat) (a : Attempt) : Option State :=
  match a.pc with
  | .countRate =>
    let r := s.redis.incrBy s.clock (.authRate a.clientIp) 1
    some { s.move i a (.expireRate r.2) with redis := r.1 }
  | .expireRate count =>
    some { s.move i a (if 10 < count then .done else .countIp count) with
      redis := s.redis.expireNx s.clock (.authRate a.clientIp) (60 * 1000) }
  | .countIp count =>
    let r := s.redis.incrBy s.clock (.authRateIp a.clientIp) 1
    some { s.move i a (.expireIp count r.2) with redis := r.1 }
  | .expireIp count ipCount =>
    some { s.move i a (if 30 < ipCount then .done else .checkLock count) with
      redis := s.redis.expireNx s.clock (.authRateIp a.clientIp) (60 * 1000) }
  | .checkLock count =>
    some (s.move i a
      (if 0 < s.redis.ttl s.clock (.locked .password) then .done
      else
        match a.gate with
        | .password => .countFailure count
        | .totp => .checkTotpLock))
  | .checkTotpLock =>
    some (s.move i a
      (match s.redis.get s.clock (.locked .totp) with
      | some _ => .done
      | none => .countFailure 0))
  | .countFailure count =>
    let r := s.redis.incrBy s.clock (.fails a.gate) 1
    some { s.move i a (.expireFailure count r.2) with
      redis := r.1
      counted := setAt s.counted a.gate (r.2, s.clock) }
  | .expireFailure count fails =>
    some { s.move i a (afterFailure (trigger a.gate count fails)) with
      redis := s.redis.expireNx s.clock (.fails a.gate) (counterWindowSecs * 1000) }
  | .applyLockout trigger secs =>
    some { s.move i a .done with
      redis := s.redis.setEx s.clock (.locked a.gate) 1 (secs * 1000)
      lastLock := setAt s.lastLock a.gate (trigger, s.clock) }
  | .done => none

def step (s : State) : Event → Option State
  | .tick t => if s.clock ≤ t then some { s with clock := t } else none
  | .arrive i clientIp gate =>
    match s.attempts i with
    | none => some { s with attempts := s.attempts.set i ⟨clientIp, gate, .countRate⟩ }
    | some _ => none
  | .go i =>
    match s.attempts i with
    | none => none
    | some a => s.advance i a

/-- When the lock that is in Redis ends. -/
def lockEnd (s : State) (g : Gate) : Option Int := (s.redis (.locked g)).bind Entry.expireAt

end State

/-! ## The ladder -/

/-- How long a count locks for, in milliseconds. -/
def lockMs (failures : Int) : Int := (ladderSecs failures).getD 0 * 1000

theorem lockMs_of_some {n secs : Int} (h : ladderSecs n = some secs) : lockMs n = secs * 1000 := by
  rw [lockMs, h, Option.getD_some]

theorem lockMs_mono {m n : Int} (h : m ≤ n) : lockMs m ≤ lockMs n := by
  unfold lockMs ladderSecs
  grind

/-- The ladder does not end. -/
theorem ladderSecs_isSome_of_le {m n : Int} (h : m ≤ n) (hm : (ladderSecs m).isSome) :
    (ladderSecs n).isSome := by
  unfold ladderSecs at *
  grind

theorem le_trigger (g : Gate) (count fails : Int) : fails ≤ trigger g count fails := by
  cases g with
  | password => exact Int.le_max_right count fails
  | totp => exact Int.le_refl fails

/-! ## One step -/

/-- The count a lock is about to be set for. -/
def Pc.locking : Pc → Option Int
  | .applyLockout trigger _ => some trigger
  | _ => none

/-- The count a lock has yet to be set for. -/
def Pc.holding : Pc → Option Int
  | .expireFailure _ fails => some fails
  | .applyLockout trigger _ => some trigger
  | _ => none

variable {s s' : State} {e : Event} {g : Gate}

/-- The ways a step can go. -/
inductive Moves (s : State) : Event → State → Prop where
  | tick {t : Int} (h : s.clock ≤ t) : Moves s (.tick t) { s with clock := t }
  | arrive {i : Nat} {clientIp : String} {gate : Gate} (free : s.attempts i = none) :
      Moves s (.arrive i clientIp gate)
        { s with attempts := s.attempts.set i ⟨clientIp, gate, .countRate⟩ }
  | aside {i : Nat} {a : Attempt} {pc : Pc} {redis : Store Key Int} (ha : s.attempts i = some a)
      (hold : a.pc.holding = none) (hnew : pc.holding = none)
      (hfails : ∀ g, redis (.fails g) = s.redis (.fails g))
      (hlocked : ∀ g, redis (.locked g) = s.redis (.locked g)) :
      Moves s (.go i) { s.move i a pc with redis := redis }
  | count {i : Nat} {a : Attempt} {count : Int} (ha : s.attempts i = some a)
      (hpc : a.pc = .countFailure count) :
      Moves s (.go i)
        { s.move i a (.expireFailure count (s.redis.incrBy s.clock (.fails a.gate) 1).2) with
          redis := (s.redis.incrBy s.clock (.fails a.gate) 1).1
          counted := State.setAt s.counted a.gate
            ((s.redis.incrBy s.clock (.fails a.gate) 1).2, s.clock) }
  | expire {i : Nat} {a : Attempt} {count fails : Int} (ha : s.attempts i = some a)
      (hpc : a.pc = .expireFailure count fails) :
      Moves s (.go i)
        { s.move i a (afterFailure (trigger a.gate count fails)) with
          redis := s.redis.expireNx s.clock (.fails a.gate) (counterWindowSecs * 1000) }
  | lock {i : Nat} {a : Attempt} {trigger secs : Int} (ha : s.attempts i = some a)
      (hpc : a.pc = .applyLockout trigger secs) :
      Moves s (.go i)
        { s.move i a .done with
          redis := s.redis.setEx s.clock (.locked a.gate) 1 (secs * 1000)
          lastLock := State.setAt s.lastLock a.gate (trigger, s.clock) }

theorem step_moves (h : s.step e = some s') : Moves s e s' := by
  cases e with
  | tick t =>
    simp only [State.step] at h
    split at h
    · next ht =>
      obtain rfl := Option.some.inj h
      exact .tick ht
    · cases h
  | arrive i clientIp gate =>
    simp only [State.step] at h
    split at h
    · next free =>
      obtain rfl := Option.some.inj h
      exact .arrive free
    · cases h
  | go i =>
    simp only [State.step] at h
    split at h
    · cases h
    · next a ha =>
      unfold State.advance at h
      split at h
      · next hpc =>
        obtain rfl := Option.some.inj h
        exact .aside ha (by rw [hpc]; rfl) rfl (fun g => Store.incrBy_ne _ _ (by simp) _)
          fun g => Store.incrBy_ne _ _ (by simp) _
      · next count hpc =>
        obtain rfl := Option.some.inj h
        exact .aside ha (by rw [hpc]; rfl) (by split <;> rfl)
          (fun g => Store.expireNx_ne _ _ (by simp) _) fun g => Store.expireNx_ne _ _ (by simp) _
      · next count hpc =>
        obtain rfl := Option.some.inj h
        exact .aside ha (by rw [hpc]; rfl) rfl (fun g => Store.incrBy_ne _ _ (by simp) _)
          fun g => Store.incrBy_ne _ _ (by simp) _
      · next count ipCount hpc =>
        obtain rfl := Option.some.inj h
        exact .aside ha (by rw [hpc]; rfl) (by split <;> rfl)
          (fun g => Store.expireNx_ne _ _ (by simp) _) fun g => Store.expireNx_ne _ _ (by simp) _
      · next count hpc =>
        obtain rfl := Option.some.inj h
        refine .aside ha (by rw [hpc]; rfl) ?_ (fun g => rfl) fun g => rfl
        split
        · rfl
        · split <;> rfl
      · next hpc =>
        obtain rfl := Option.some.inj h
        exact .aside ha (by rw [hpc]; rfl) (by split <;> rfl) (fun g => rfl) fun g => rfl
      · next count hpc =>
        obtain rfl := Option.some.inj h
        exact .count ha hpc
      · next count fails hpc =>
        obtain rfl := Option.some.inj h
        exact .expire ha hpc
      · next trigger secs hpc =>
        obtain rfl := Option.some.inj h
        exact .lock ha hpc
      · cases h

/-! ## The condition -/

/--
The condition on the step of an attempt. When it sets the lock, the last one was set for a count that
locks no longer, or as long ago as it locks longer.
-/
def Ordered (s : State) : Event → Prop
  | .go i => ∀ a ∈ s.attempts i, ∀ trigger ∈ a.pc.locking, ∀ w ∈ s.lastLock a.gate,
      w.2 + lockMs w.1 ≤ s.clock + lockMs trigger
  | _ => True

instance (s : State) : ∀ e, Decidable (Ordered s e)
  | .go i => inferInstanceAs (Decidable (∀ a ∈ s.attempts i, _))
  | .tick _ => isTrue trivial
  | .arrive _ _ _ => isTrue trivial

/-- A step that meets the condition. -/
def Next (s : State) (e : Event) (s' : State) : Prop := Ordered s e ∧ s.step e = some s'

/-- No attempt has counted its failure at the gate and not yet set the lock. -/
def State.Quiet (s : State) (g : Gate) : Prop :=
  ∀ i a, s.attempts i = some a → a.gate = g → a.pc.holding = none

/-! ## The invariant -/

/-- An attempt has yet to set a lock for a count of at least `n`. -/
def State.Pending (s : State) (g : Gate) (n : Int) : Prop :=
  ∃ i a m, s.attempts i = some a ∧ a.gate = g ∧ a.pc.holding = some m ∧ n ≤ m

/-- What holds of the counters and the locks. -/
structure Sound (s : State) : Prop where
  rung : ∀ i a trigger secs, s.attempts i = some a → a.pc = .applyLockout trigger secs →
    ladderSecs trigger = some secs
  lock : ∀ g, s.lockEnd g = (s.lastLock g).map fun w => w.2 + lockMs w.1
  past : ∀ g n t, s.counted g = some (n, t) → t ≤ s.clock
  counter : ∀ g e, s.redis (.fails g) = some e → ∃ t, s.counted g = some (e.value, t)
  locks : ∀ g n t, s.counted g = some (n, t) → (ladderSecs n).isSome →
    s.Pending g n ∨ ∃ d, s.lockEnd g = some d ∧ t + lockMs n ≤ d

theorem sound_start (clock : Int) : Sound (State.start clock) where
  rung := nofun
  lock _ := rfl
  past := nofun
  counter := nofun
  locks := nofun

theorem setAt_self (f : Gate → Option (Int × Int)) (g : Gate) (v : Int × Int) :
    State.setAt f g v g = some v := if_pos rfl

theorem setAt_ne (f : Gate → Option (Int × Int)) {g g' : Gate} (h : g' ≠ g) (v : Int × Int) :
    State.setAt f g v g' = f g' := if_neg h

theorem setAt_cases {f : Gate → Option (Int × Int)} {g g' : Gate} {v w : Int × Int}
    (h : State.setAt f g v g' = some w) : g' = g ∧ v = w ∨ g' ≠ g ∧ f g' = some w := by
  by_cases hg : g' = g
  · subst hg
    exact Or.inl ⟨rfl, Option.some.inj ((setAt_self f g' v).symm.trans h)⟩
  · exact Or.inr ⟨hg, (setAt_ne f hg v).symm.trans h⟩

theorem lockEnd_congr {redis : Store Key Int} (h : s'.redis = redis)
    (hlocked : redis (.locked g) = s.redis (.locked g)) : s'.lockEnd g = s.lockEnd g := by
  unfold State.lockEnd
  rw [h, hlocked]

/-- Only an attempt that sets the lock moves its end. -/
theorem Moves.lockEnd (h : Moves s e s') (g : Gate) :
    s'.lockEnd g = s.lockEnd g ∨ ∃ i a trigger secs, e = .go i ∧ s.attempts i = some a ∧
      a.gate = g ∧ a.pc = .applyLockout trigger secs ∧
      s'.lockEnd g = some (s.clock + secs * 1000) := by
  cases h with
  | tick h => exact Or.inl rfl
  | arrive free => exact Or.inl rfl
  | aside ha hold hnew hfails hlocked => exact Or.inl (lockEnd_congr rfl (hlocked g))
  | count ha hpc => exact Or.inl (lockEnd_congr rfl (Store.incrBy_ne _ _ (by simp) _))
  | expire ha hpc => exact Or.inl (lockEnd_congr rfl (Store.expireNx_ne _ _ (by simp) _))
  | @lock i a trigger secs ha hpc =>
    by_cases hg : a.gate = g
    · refine Or.inr ⟨i, a, trigger, secs, rfl, ha, hg, hpc, ?_⟩
      unfold State.lockEnd
      rw [← hg]
      exact congrArg (·.bind Entry.expireAt) (Store.put_self s.redis (.locked a.gate) _)
    · exact Or.inl (lockEnd_congr rfl (Store.put_ne _ (by simpa using Ne.symm hg) _))

/-- Under the condition the end of a lock never moves back. -/
theorem lockEnd_le (hs : Sound s) (hin : Ordered s e) (h : Moves s e s') {d : Int}
    (hd : s.lockEnd g = some d) : ∃ d', s'.lockEnd g = some d' ∧ d ≤ d' := by
  rcases h.lockEnd g with hsame | ⟨i, a, trigger, secs, rfl, ha, rfl, hpc, hnew⟩
  · exact ⟨d, hsame.trans hd, Int.le_refl d⟩
  · refine ⟨_, hnew, ?_⟩
    rw [hs.lock a.gate] at hd
    obtain ⟨w, hw, rfl⟩ := Option.map_eq_some_iff.mp hd
    rw [← lockMs_of_some (hs.rung i a trigger secs ha hpc)]
    exact hin a ha trigger (by rw [hpc]; rfl) w hw

/-- A lock that has yet to be set, after another attempt has moved. -/
theorem State.Pending.other {n : Int} (h : s.Pending g n) {i : Nat} {a : Attempt}
    (ha : s.attempts i = some a) (hold : a.gate = g → a.pc.holding = none) {b : Attempt}
    (hattempts : s'.attempts = s.attempts.set i b) : s'.Pending g n := by
  obtain ⟨j, c, m, hj, hg, hm, hle⟩ := h
  refine ⟨j, c, m, ?_, hg, hm, hle⟩
  rw [hattempts, Threads.set_ne _ ?_ _, hj]
  rintro rfl
  obtain rfl := Option.some.inj (ha.symm.trans hj)
  rw [hold hg] at hm
  cases hm

theorem ladderSecs_afterFailure {m trigger secs : Int}
    (h : afterFailure m = .applyLockout trigger secs) : ladderSecs trigger = some secs := by
  unfold afterFailure at h
  split at h
  · next hsecs =>
    obtain ⟨rfl, rfl⟩ := Pc.applyLockout.inj h
    exact hsecs
  · cases h

theorem holding_afterFailure {m n : Int} (h : n ≤ m) (hn : (ladderSecs n).isSome) :
    (afterFailure m).holding = some m := by
  obtain ⟨secs, hsecs⟩ := Option.isSome_iff_exists.mp (ladderSecs_isSome_of_le h hn)
  unfold afterFailure
  rw [hsecs]
  rfl

namespace Sound

theorem rung_set (hs : Sound s) {i : Nat} {b : Attempt}
    (hb : ∀ trigger secs, b.pc = .applyLockout trigger secs → ladderSecs trigger = some secs) :
    ∀ j a trigger secs, s.attempts.set i b j = some a → a.pc = .applyLockout trigger secs →
      ladderSecs trigger = some secs := by
  intro j a trigger secs hj hpc
  rcases Threads.set_eq_some hj with ⟨-, rfl⟩ | ⟨-, hj⟩
  · exact hb trigger secs hpc
  · exact hs.rung j a trigger secs hj hpc

/-- The steps that count nothing, and leave the counters and locks alone. -/
theorem aside (hs : Sound s) (hrung : ∀ i a trigger secs, s'.attempts i = some a →
      a.pc = .applyLockout trigger secs → ladderSecs trigger = some secs)
    (hfails : ∀ g, (s'.redis (.fails g)).map Entry.value = (s.redis (.fails g)).map Entry.value)
    (hlocked : ∀ g, s'.redis (.locked g) = s.redis (.locked g))
    (hcounted : s'.counted = s.counted) (hlast : s'.lastLock = s.lastLock)
    (hclock : s.clock ≤ s'.clock)
    (hpending : ∀ g n, (ladderSecs n).isSome → s.Pending g n → s'.Pending g n) : Sound s' where
  rung := hrung
  lock g := by rw [hlast, lockEnd_congr rfl (hlocked g), hs.lock g]
  past g n t h := by
    rw [hcounted] at h
    exact Int.le_trans (hs.past g n t h) hclock
  counter g e he := by
    have hvalue := hfails g
    rw [he] at hvalue
    obtain ⟨e', he', hee'⟩ := Option.map_eq_some_iff.mp hvalue.symm
    rw [hcounted, ← hee']
    exact hs.counter g e' he'
  locks g n t h hn := by
    rw [hcounted] at h
    rw [lockEnd_congr rfl (hlocked g)]
    exact (hs.locks g n t h hn).imp_left (hpending g n hn)

theorem step (hs : Sound s) (hin : Ordered s e) (h : Moves s e s') : Sound s' := by
  have hmono := fun g d => lockEnd_le (g := g) (d := d) hs hin h
  cases h with
  | tick h =>
    exact hs.aside hs.rung (fun _ => rfl) (fun _ => rfl) rfl rfl h fun _ _ _ h => h
  | @arrive i clientIp gate free =>
    refine hs.aside (hs.rung_set nofun) (fun _ => rfl) (fun _ => rfl) rfl rfl (Int.le_refl _) ?_
    rintro g n - ⟨j, c, m, hj, hrest⟩
    refine ⟨j, c, m, (Threads.set_ne _ ?_ _).trans hj, hrest⟩
    rintro rfl
    cases free.symm.trans hj
  | @aside i a pc redis ha hold hnew hfails hlocked =>
    refine hs.aside (hs.rung_set fun trigger secs hpc => ?_) (fun g => congrArg _ (hfails g)) hlocked
      rfl rfl (Int.le_refl _) fun g n _ h => h.other ha (fun _ => hold) rfl
    simp only at hpc
    rw [hpc] at hnew
    cases hnew
  | @expire i a count fails ha hpc =>
    refine hs.aside (hs.rung_set fun trig secs h => ladderSecs_afterFailure h)
      (fun g => Store.expireNx_value _ _ _ _ _) (fun g => Store.expireNx_ne _ _ (by simp) _)
      rfl rfl (Int.le_refl _) ?_
    rintro g n hn ⟨j, c, m, hj, hg, hm, hle⟩
    by_cases hji : j = i
    · subst hji
      obtain rfl := Option.some.inj (ha.symm.trans hj)
      rw [hpc] at hm
      obtain rfl := Option.some.inj hm
      have htrigger := Int.le_trans hle (le_trigger a.gate count fails)
      exact ⟨j, _, _, Threads.set_self _ _ _, hg, holding_afterFailure htrigger hn, htrigger⟩
    · exact ⟨j, c, m, (Threads.set_ne _ hji _).trans hj, hg, hm, hle⟩
  | @count i a count ha hpc =>
    refine ⟨hs.rung_set nofun, fun g => ?_, fun g n t h => ?_, fun g e he => ?_,
      fun g n t h hn => ?_⟩
    · rw [lockEnd_congr rfl (Store.incrBy_ne _ _ (by simp) _), hs.lock g]
      rfl
    · rcases setAt_cases h with ⟨-, hnew⟩ | ⟨-, hold⟩
      · obtain ⟨-, rfl⟩ := Prod.mk.inj hnew
        exact Int.le_refl _
      · exact hs.past g n t hold
    · by_cases hg : g = a.gate
      · subst hg
        obtain ⟨d, hd⟩ := s.redis.incrBy_self s.clock (.fails a.gate) 1
        obtain rfl := Option.some.inj (hd.symm.trans he)
        exact ⟨_, setAt_self _ _ _⟩
      · obtain ⟨t, ht⟩ := hs.counter g e ((Store.incrBy_ne _ _ (by simpa using hg) _).symm.trans he)
        exact ⟨t, (setAt_ne _ hg _).trans ht⟩
    · rcases setAt_cases h with ⟨rfl, hnew⟩ | ⟨hg, hold⟩
      · obtain ⟨rfl, rfl⟩ := Prod.mk.inj hnew
        exact Or.inl ⟨i, _, _, Threads.set_self _ _ _, rfl, rfl, Int.le_refl _⟩
      · rw [lockEnd_congr rfl (Store.incrBy_ne _ _ (by simp) _)]
        exact (hs.locks g n t hold hn).imp_left
          fun h => h.other ha (fun h => absurd h.symm hg) rfl
  | @lock i a trigger secs ha hpc =>
    have hrung := hs.rung i a trigger secs ha hpc
    have hnew : State.lockEnd { s.move i a .done with
          redis := s.redis.setEx s.clock (.locked a.gate) 1 (secs * 1000)
          lastLock := State.setAt s.lastLock a.gate (trigger, s.clock) } a.gate =
        some (s.clock + lockMs trigger) := by
      rw [lockMs_of_some hrung]
      exact congrArg (·.bind Entry.expireAt) (Store.put_self s.redis (.locked a.gate) _)
    refine ⟨hs.rung_set nofun, fun g => ?_, hs.past, fun g e he => ?_, fun g n t h hn => ?_⟩
    · by_cases hg : g = a.gate
      · subst hg
        rw [hnew]
        show _ = (State.setAt s.lastLock a.gate (trigger, s.clock) a.gate).map _
        rw [setAt_self]
        rfl
      · rw [lockEnd_congr rfl (Store.put_ne _ (by simpa using hg) _), hs.lock g]
        exact (congrArg (Option.map _) (setAt_ne _ hg _)).symm
    · have hother : s.redis.setEx s.clock (.locked a.gate) 1 (secs * 1000) (.fails g) =
          s.redis (.fails g) := Store.put_ne _ (by simp) _
      exact hs.counter g e (hother.symm.trans he)
    · rcases hs.locks g n t h hn with ⟨j, c, m, hj, hg, hm, hle⟩ | ⟨d, hd, hle⟩
      · by_cases hji : j = i
        · subst hji
          obtain rfl := Option.some.inj (ha.symm.trans hj)
          subst hg
          rw [hpc] at hm
          obtain rfl := Option.some.inj hm
          exact Or.inr ⟨_, hnew, Int.add_le_add (hs.past _ n t h) (lockMs_mono hle)⟩
        · exact Or.inl ⟨j, c, m, (Threads.set_ne _ hji _).trans hj, hg, hm, hle⟩
      · obtain ⟨d', hd', hdd'⟩ := hmono g d hd
        exact Or.inr ⟨d', hd', Int.le_trans hle hdd'⟩

end Sound

/-! ## Whole runs -/

theorem sound_run {clock : Int} {es : List Event} (h : Steps Next (State.start clock) es s) :
    Sound s :=
  h.invariant (fun _ _ _ hs hstep => hs.step hstep.1 (step_moves hstep.2)) (sound_start clock)

theorem lockEnd_run {es : List Event} (hs : Sound s) (h : Steps Next s es s') {d : Int}
    (hd : s.lockEnd g = some d) : ∃ d', s'.lockEnd g = some d' ∧ d ≤ d' := by
  induction h generalizing d with
  | nil s => exact ⟨d, hd, Int.le_refl d⟩
  | cons hstep rest ih =>
    obtain ⟨d₁, hd₁, hle₁⟩ := lockEnd_le hs hstep.1 (step_moves hstep.2) hd
    obtain ⟨d', hd', hle'⟩ := ih (hs.step hstep.1 (step_moves hstep.2)) hd₁
    exact ⟨d', hd', Int.le_trans hle₁ hle'⟩

/--
In every run whose steps meet the condition no step moves the end of a lock back, and when no attempt
is between its count and its lock, a counter that reads `n` has a lock that ends no earlier than the
ladder asks for, from the moment the `n`-th failure was counted.
-/
theorem lock_never_shortened {clock : Int} {es es' : List Event}
    (h : Steps Next (State.start clock) es s) (h' : Steps Next s es' s') :
    (∀ g d, s.lockEnd g = some d → ∃ d', s'.lockEnd g = some d' ∧ d ≤ d') ∧
    ∀ g n secs, s.Quiet g → s.redis.get s.clock (.fails g) = some n → ladderSecs n = some secs →
      ∃ t d, s.counted g = some (n, t) ∧ s.lockEnd g = some d ∧ t + secs * 1000 ≤ d := by
  have hs := sound_run h
  refine ⟨fun g d hd => lockEnd_run hs h' hd, fun g n secs hquiet hread hsecs => ?_⟩
  obtain ⟨e, he, -, rfl⟩ := Store.get_eq_some.mp hread
  obtain ⟨t, ht⟩ := hs.counter g e he
  rcases hs.locks g e.value t ht (by rw [hsecs]; rfl) with ⟨i, a, m, hi, hg, hm, -⟩ | ⟨d, hd, hle⟩
  · rw [hquiet i a hi hg] at hm
    cases hm
  · rw [lockMs_of_some hsecs] at hle
    exact ⟨t, d, ht, hd, hle⟩

/-! ## Ten guesses -/

/-- The `i`-th guess, from an address of its own, up to and including its check of the lock. -/
def guess (i : Nat) : List Event :=
  .arrive i (toString i) .password :: List.replicate 5 (.go i)

/-- Ten guesses pass the check together and are counted; the last six of them set the lock. -/
def tenGuesses : List Event :=
  (List.range 10).flatMap guess ++ (List.range 10).flatMap (fun i => [.go i, .go i])

/-- The locks are set in the order of the counts, and end later each time. -/
theorem lock_never_shortened_ten : ∃ s s', Steps Next (State.start 0) (tenGuesses ++ [.go 4]) s ∧
    Steps Next s [.go 5, .go 6, .go 7, .go 8, .go 9] s' ∧ s.lockEnd .password = some 60000 ∧
    ∃ d, s'.lockEnd .password = some d ∧ 60000 ≤ d := by
  have hrun : (((tenGuesses ++ [Event.go 4]).foldlM (fun s e => if Ordered s e then s.step e
      else none) (State.start 0)).bind fun s =>
        ([Event.go 5, .go 6, .go 7, .go 8, .go 9].foldlM (fun s e => if Ordered s e then s.step e
      else none) s).map fun _ => s.lockEnd .password) = some (some 60000) := by
    decide +kernel
  obtain ⟨s, hs, hlast⟩ := Option.bind_eq_some_iff.mp hrun
  obtain ⟨s', hs', heq⟩ := Option.map_eq_some_iff.mp hlast
  have h : Steps Next _ _ s := .of_foldlM_if hs
  have h' : Steps Next _ _ s' := .of_foldlM_if hs'
  exact ⟨s, s', h, h', heq, (lock_never_shortened h h').1 .password 60000 heq⟩

/-- The lock of the tenth failure is set before that of the fifth, which then shortens it. -/
theorem lock_shortened : ∃ s s',
    Steps (fun s e s' => s.step e = some s') (State.start 0)
      (tenGuesses ++ [.go 5, .go 6, .go 7, .go 8, .go 9]) s ∧
    s.step (.go 4) = some s' ∧ s.lockEnd .password = some 900000 ∧
    s'.lockEnd .password = some 60000 ∧ s'.redis.get s'.clock (.fails .password) = some 10 := by
  have hrun : (((tenGuesses ++ [Event.go 5, .go 6, .go 7, .go 8, .go 9]).foldlM State.step
      (State.start 0)).bind fun s => (s.step (.go 4)).map fun s' => (s.lockEnd .password,
        s'.lockEnd .password, s'.redis.get s'.clock (.fails .password))) =
      some (some 900000, some 60000, some 10) := by
    decide +kernel
  obtain ⟨s, hs, hlast⟩ := Option.bind_eq_some_iff.mp hrun
  obtain ⟨s', hs', heq⟩ := Option.map_eq_some_iff.mp hlast
  simp only [Prod.mk.injEq] at heq
  exact ⟨s, s', .of_foldlM hs, hs', heq⟩

end ThinkWatch.Auth.Lockout
