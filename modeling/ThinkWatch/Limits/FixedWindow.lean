import ThinkWatch.Auth.ProofOfWork

/-!
# Fixed windows

`crates/common/src/fixed_window.rs`: any number of `incr` calls on any keys. `INCRBY` and
`EXPIRE .. NX` are steps of their own, a call may fail before either, and a key may go at any moment.
-/

namespace ThinkWatch.Limits.FixedWindow

open Lib
open ThinkWatch.Auth.ProofOfWork (parseU64)

/-- How far a call has got. -/
inductive Pc where
  | incr
  | expire
  | done
  | failed
deriving DecidableEq, Repr

structure Call where
  key : String
  ttlSecs : Int
  pc : Pc
deriving DecidableEq, Repr

/-- When a call had both its commands, and the time to live it asked for. -/
structure Completed where
  time : Int
  ttlSecs : Int
deriving DecidableEq, Repr

/-- The moment a call lets its key go, in milliseconds. -/
def Completed.deadline (c : Completed) : Int := c.time + c.ttlSecs * 1000

/--
`completed` are the calls that have completed, `since` those of them that did so after the key was
last created; a key that is there at the start was created before it.
-/
structure State where
  clock : Int
  redis : Store String Int
  calls : Threads Call
  completed : String → List Completed
  since : String → Nat

/-- `remove` is an expiry, due or not, or an eviction. -/
inductive Event where
  | tick (t : Int)
  | call (i : Nat) (key : String) (ttlSecs : Int)
  | go (i : Nat)
  | fail (i : Nat)
  | remove (key : String)
deriving DecidableEq, Repr

/-- `EXPIRE key ttl NX`; a time to live that is not positive deletes the key. -/
def expireNx (redis : Store String Int) (t : Int) (key : String) (ttlSecs : Int) :
    Store String Int :=
  if 0 < ttlSecs then redis.expireNx t key (ttlSecs * 1000)
  else
    match (redis key).bind Entry.expireAt with
    | none => redis.del key
    | some _ => redis

namespace State

def start (clock : Int) (redis : Store String Int) : State :=
  ⟨clock, redis, .none, fun _ => [], fun _ => 0⟩

def setKey {α : Type} (f : String → α) (k : String) (a : α) : String → α :=
  fun k' => if k' = k then a else f k'

/-- The next command of a call; a count that is no `u64` ends it before the second. -/
def advance (s : State) (i : Nat) (c : Call) : Option State :=
  match c.pc with
  | .incr =>
    -- a count that is no `u64` ends the call before `EXPIRE`
    let r := s.redis.incrBy s.clock c.key 1
    some { s with
      redis := r.1
      calls := s.calls.set i { c with pc := if (parseU64 r.2).isSome then .expire else .failed }
      since := if (s.redis.get s.clock c.key).isSome then s.since else setKey s.since c.key 0 }
  | .expire =>
    some { s with
      redis := FixedWindow.expireNx s.redis s.clock c.key c.ttlSecs
      calls := s.calls.set i { c with pc := .done }
      completed := setKey s.completed c.key (⟨s.clock, c.ttlSecs⟩ :: s.completed c.key)
      since := setKey s.since c.key (s.since c.key + 1) }
  | .done => none
  | .failed => none

def step (s : State) : Event → Option State
  | .tick t => if s.clock ≤ t then some { s with clock := t } else none
  | .call i key ttlSecs =>
    match s.calls i with
    | none => some { s with calls := s.calls.set i ⟨key, ttlSecs, .incr⟩ }
    | some _ => none
  | .go i =>
    match s.calls i with
    | none => none
    | some c => s.advance i c
  | .fail i =>
    match s.calls i with
    | some c =>
      if c.pc = .incr ∨ c.pc = .expire then
        some { s with calls := s.calls.set i { c with pc := .failed } }
      else none
    | none => none
  | .remove key => some { s with redis := s.redis.del key }

end State

/-- A step of the system. -/
def Next (s : State) (e : Event) (s' : State) : Prop := s.step e = some s'

/-- No call on `k` is between its two commands. -/
def Quiet (s : State) (k : String) : Prop :=
  ∀ i c, s.calls i = some c → c.key = k → c.pc ≠ .expire

variable {s s' : State} {e : Event} {k : String}

/-! ## What a command does to a deadline -/

/-- The deadline of a key that is there; `none` for one that is not or never expires. -/
def deadline (redis : Store String Int) (t : Int) (k : String) : Option Int :=
  if (redis.get t k).isSome then (redis k).bind Entry.expireAt else none

/-- A running window is one that is there and has a deadline. -/
theorem deadline_eq_some {redis : Store String Int} {t d : Int} :
    deadline redis t k = some d ↔ ∃ v, redis k = some ⟨v, some d⟩ ∧ t ≤ d := by
  unfold deadline
  constructor
  · intro h
    split at h
    · next hget =>
      obtain ⟨v, hv⟩ := Option.isSome_iff_exists.mp hget
      obtain ⟨⟨w, x⟩, he, hlive, rfl⟩ := Store.get_eq_some.mp hv
      obtain rfl : x = some d := by simpa [he] using h
      exact ⟨w, he, of_decide_eq_true hlive⟩
    · cases h
  · rintro ⟨v, he, hle⟩
    rw [Store.get_of_le_deadline he hle, he]
    rfl

/-- `INCRBY` leaves the deadline of a running window as it is. -/
theorem deadline_incrBy {redis : Store String Int} {t d : Int} (h : deadline redis t k = some d)
    (k₁ : String) (n : Int) : deadline (redis.incrBy t k₁ n).1 t k = some d := by
  obtain ⟨v, he, hle⟩ := deadline_eq_some.mp h
  by_cases hk : k = k₁
  · subst hk
    refine deadline_eq_some.mpr ⟨v + n, ?_, hle⟩
    simp [Store.incrBy, Store.get_of_le_deadline he hle, he]
  · exact deadline_eq_some.mpr ⟨v, (redis.incrBy_ne t hk n).trans he, hle⟩

theorem expireNx_ne (redis : Store String Int) (t : Int) {k k₁ : String} (hk : k ≠ k₁)
    (ttlSecs : Int) : expireNx redis t k₁ ttlSecs k = redis k := by
  unfold expireNx
  split
  · exact redis.expireNx_ne t hk _
  · cases (redis k₁).bind Entry.expireAt with
    | none => exact Store.put_ne redis hk none
    | some _ => rfl

/-- So does `EXPIRE .. NX`. -/
theorem deadline_expireNx {redis : Store String Int} {t d : Int} (h : deadline redis t k = some d)
    (k₁ : String) (ttlSecs : Int) : deadline (expireNx redis t k₁ ttlSecs) t k = some d := by
  obtain ⟨v, he, hle⟩ := deadline_eq_some.mp h
  refine deadline_eq_some.mpr ⟨v, ?_, hle⟩
  by_cases hk : k = k₁
  · subst hk
    simp [expireNx, Store.expireNx, he]
  · rw [expireNx_ne redis t hk ttlSecs, he]

/-- After `INCRBY` a key has no deadline if it was absent, and else the one it had. -/
theorem incrBy_self {redis : Store String Int} {t n : Int} {k : String} {e : Entry Int}
    (h : (redis.incrBy t k n).1 k = some e) :
    (redis.get t k = none ∧ e.expireAt = none) ∨
      ((redis.get t k).isSome = true ∧ ∃ v, redis k = some ⟨v, e.expireAt⟩) := by
  cases hget : redis.get t k with
  | none =>
    simp only [Store.incrBy, hget, Store.put_self] at h
    obtain rfl := Option.some.inj h
    exact Or.inl ⟨rfl, rfl⟩
  | some v =>
    obtain ⟨⟨w, d⟩, he, -, -⟩ := Store.get_eq_some.mp hget
    simp only [Store.incrBy, hget, Store.put_self, he, Option.bind_some] at h
    obtain rfl := Option.some.inj h
    exact Or.inr ⟨rfl, w, he⟩

/-- After `EXPIRE .. NX` a key that had no deadline has the new one, or is gone. -/
theorem expireNx_self {redis : Store String Int} {t : Int} {k : String} {ttlSecs : Int}
    {e : Entry Int} (h : expireNx redis t k ttlSecs k = some e) :
    e.expireAt = some (t + ttlSecs * 1000) ∨ (redis k = some e ∧ e.expireAt ≠ none) := by
  unfold expireNx at h
  cases hk : redis k with
  | none =>
    have hget : redis.get t k = none := by simp [Store.get, hk]
    split at h
    · simp [Store.expireNx, hget, hk] at h
    · simp [hk, Store.del] at h
  | some e₀ =>
    obtain ⟨v, d⟩ := e₀
    cases d with
    | none =>
      have hget : redis.get t k = some v := by simp [Store.get, Entry.live, hk]
      split at h
      · simp [Store.expireNx, hget, hk, Store.setEx] at h
        exact Or.inl (h ▸ rfl)
      · simp [hk, Store.del] at h
    | some d =>
      have hsame : redis k = some e := by
        split at h
        · simpa [Store.expireNx, hk] using h
        · simpa [hk] using h
      refine Or.inr ⟨hk.symm.trans hsame, ?_⟩
      obtain rfl := Option.some.inj (hk.symm.trans hsame)
      exact Option.some_ne_none d

/-! ## The invariant -/

/--
Every deadline is the one the key had at the start or was set by a call that has completed, and a
counter without one was created after the last call on it that completed.
-/
structure Inv (redis₀ : Store String Int) (s : State) : Prop where
  origin : ∀ {k v d}, s.redis k = some ⟨v, some d⟩ →
    (∃ c ∈ s.completed k, d = c.deadline) ∨ ∃ v₀, redis₀ k = some ⟨v₀, some d⟩
  ends : ∀ {k v}, s.redis k = some ⟨v, none⟩ → s.since k = 0

variable {redis₀ : Store String Int}

theorem inv_start (clock : Int) : Inv redis₀ (State.start clock redis₀) where
  origin h := Or.inr ⟨_, h⟩
  ends _ := rfl

theorem inv_incr {s : State} (hs : Inv redis₀ s) (i : Nat) (c c' : Call) :
    Inv redis₀ { s with
      redis := (s.redis.incrBy s.clock c.key 1).1
      calls := s.calls.set i c'
      since := if (s.redis.get s.clock c.key).isSome then s.since
        else State.setKey s.since c.key 0 } where
  origin := by
    intro k v d h
    by_cases hk : k = c.key
    · subst hk
      rcases incrBy_self h with ⟨-, hnone⟩ | ⟨-, w, hold⟩
      · cases hnone
      · exact hs.origin hold
    · exact hs.origin ((s.redis.incrBy_ne s.clock hk 1).symm.trans h)
  ends := by
    intro k v h
    dsimp only
    by_cases hk : k = c.key
    · subst hk
      rcases incrBy_self h with ⟨hget, -⟩ | ⟨hget, w, hold⟩
      · rw [hget]
        exact if_pos rfl
      · rw [if_pos hget]
        exact hs.ends hold
    · have hold := hs.ends ((s.redis.incrBy_ne s.clock hk 1).symm.trans h)
      split
      · exact hold
      · exact (if_neg hk).trans hold

theorem inv_expire {s : State} (hs : Inv redis₀ s) (i : Nat) (c c' : Call) :
    Inv redis₀ { s with
      redis := expireNx s.redis s.clock c.key c.ttlSecs
      calls := s.calls.set i c'
      completed := State.setKey s.completed c.key (⟨s.clock, c.ttlSecs⟩ :: s.completed c.key)
      since := State.setKey s.since c.key (s.since c.key + 1) } where
  origin := by
    intro k v d h
    by_cases hk : k = c.key
    · subst hk
      rcases expireNx_self h with hnew | ⟨hold, -⟩
      · exact Or.inl ⟨⟨s.clock, c.ttlSecs⟩, by simp [State.setKey], Option.some.inj hnew⟩
      · refine (hs.origin hold).imp_left fun ⟨c₁, hc₁, hd⟩ => ⟨c₁, ?_, hd⟩
        simp [State.setKey, hc₁]
    · have hother := (expireNx_ne s.redis s.clock hk c.ttlSecs).symm.trans h
      simpa [State.setKey, hk] using hs.origin hother
  ends := by
    intro k v h
    by_cases hk : k = c.key
    · subst hk
      rcases expireNx_self h with hnew | ⟨-, hne⟩
      · cases hnew
      · exact absurd rfl hne
    · exact (if_neg hk).trans (hs.ends ((expireNx_ne s.redis s.clock hk c.ttlSecs).symm.trans h))

theorem inv_remove {s : State} (hs : Inv redis₀ s) (key : String) :
    Inv redis₀ { s with redis := s.redis.del key } where
  origin := by
    intro k v d h
    by_cases hk : k = key
    · subst hk
      simp [Store.del] at h
    · exact hs.origin ((Store.put_ne s.redis hk none).symm.trans h)
  ends := by
    intro k v h
    by_cases hk : k = key
    · subst hk
      simp [Store.del] at h
    · exact hs.ends ((Store.put_ne s.redis hk none).symm.trans h)

/-- A step of a call is one of its two commands. -/
theorem advance_cases {i : Nat} {c : Call} (h : s.advance i c = some s') :
    (∃ c', s' = { s with
      redis := (s.redis.incrBy s.clock c.key 1).1
      calls := s.calls.set i c'
      since := if (s.redis.get s.clock c.key).isSome then s.since
        else State.setKey s.since c.key 0 }) ∨
    ∃ c', s' = { s with
      redis := expireNx s.redis s.clock c.key c.ttlSecs
      calls := s.calls.set i c'
      completed := State.setKey s.completed c.key (⟨s.clock, c.ttlSecs⟩ :: s.completed c.key)
      since := State.setKey s.since c.key (s.since c.key + 1) } := by
  unfold State.advance at h
  split at h
  · exact Or.inl ⟨_, (Option.some.inj h).symm⟩
  · exact Or.inr ⟨_, (Option.some.inj h).symm⟩
  · cases h
  · cases h

theorem go_cases {i : Nat} (h : Next s (.go i) s') :
    ∃ c, s.calls i = some c ∧ s.advance i c = some s' := by
  simp only [Next, State.step] at h
  split at h
  · cases h
  · next c hc => exact ⟨c, hc, h⟩

theorem inv_step (hs : Inv redis₀ s) (h : Next s e s') : Inv redis₀ s' := by
  cases e with
  | tick t =>
    simp only [Next, State.step, Option.ite_none_right_eq_some, Option.some.injEq] at h
    obtain ⟨-, rfl⟩ := h
    exact ⟨hs.origin, hs.ends⟩
  | call i key ttlSecs =>
    simp only [Next, State.step] at h
    split at h
    · obtain rfl := Option.some.inj h
      exact ⟨hs.origin, hs.ends⟩
    · cases h
  | go i =>
    obtain ⟨c, -, hadv⟩ := go_cases h
    rcases advance_cases hadv with ⟨c', rfl⟩ | ⟨c', rfl⟩
    · exact inv_incr hs i c c'
    · exact inv_expire hs i c c'
  | fail i =>
    simp only [Next, State.step] at h
    split at h
    · simp only [Option.ite_none_right_eq_some, Option.some.injEq] at h
      obtain ⟨-, rfl⟩ := h
      exact ⟨hs.origin, hs.ends⟩
    · cases h
  | remove key =>
    obtain rfl := Option.some.inj h
    exact inv_remove hs key

theorem inv_run {clock : Int} {es : List Event}
    (h : Steps Next (State.start clock redis₀) es s) : Inv redis₀ s :=
  h.invariant (fun _ _ _ => inv_step) (inv_start clock)

/-! ## A window that is counted in ends -/

/-- What a call does leaves the deadline of every running window as it is. -/
theorem deadline_go {i : Nat} (h : Next s (.go i) s') {d : Int}
    (hd : deadline s.redis s.clock k = some d) : deadline s'.redis s'.clock k = some d := by
  obtain ⟨c, -, hadv⟩ := go_cases h
  rcases advance_cases hadv with ⟨c', rfl⟩ | ⟨c', rfl⟩
  · exact deadline_incrBy hd c.key 1
  · exact deadline_expireNx hd c.key c.ttlSecs

/--
A key on which a call has completed since it was created is absent, or it goes no later than the
time to live of a completed call after that call, or at the moment it had at the start; this holds
also while other calls are between their commands. No call moves the deadline of a running window.
-/
theorem window_ends {clock : Int} {es : List Event}
    (h : Steps Next (State.start clock redis₀) es s) :
    (∀ k, 0 < s.since k → s.redis.get s.clock k = none ∨
      ∃ d, deadline s.redis s.clock k = some d ∧
        ((∃ c ∈ s.completed k, d ≤ c.time + c.ttlSecs * 1000) ∨
          (redis₀ k).bind Entry.expireAt = some d)) ∧
    ∀ i s', Next s (.go i) s' → ∀ k d, deadline s.redis s.clock k = some d →
      deadline s'.redis s'.clock k = some d := by
  have hs := inv_run h
  refine ⟨fun k hsince => ?_, fun i s' hgo k d hd => deadline_go hgo hd⟩
  cases hget : s.redis.get s.clock k with
  | none => exact Or.inl rfl
  | some v =>
    obtain ⟨⟨w, x⟩, he, hlive, rfl⟩ := Store.get_eq_some.mp hget
    cases x with
    | none => exact absurd (hs.ends he) (Nat.ne_of_gt hsince)
    | some d =>
      refine Or.inr ⟨d, deadline_eq_some.mpr ⟨w, he, of_decide_eq_true hlive⟩, ?_⟩
      refine (hs.origin he).imp (fun ⟨c, hc, hd⟩ => ⟨c, hc, Int.le_of_eq hd⟩) fun ⟨v₀, h₀⟩ => ?_
      rw [h₀, Option.bind_some]

/-- `EXPIRE .. NX` keeps a deadline that was there at the start, however late it is. -/
theorem window_keeps_late_deadline :
    ∃ (redis : Store String Int) (s : State),
      Steps Next (State.start 0 redis) [.call 0 "k" 60, .go 0, .go 0] s ∧
        Quiet s "k" ∧ 0 < s.since "k" ∧ s.redis.get s.clock "k" ≠ none ∧
        ∀ d, deadline s.redis s.clock "k" = some d →
          ∀ c ∈ s.completed "k", c.time + c.ttlSecs * 1000 < d := by
  refine ⟨Store.empty.setEx 0 "k" 5 86400000, _,
    .of_foldlM (s := State.start 0 (Store.empty.setEx 0 "k" 5 86400000)) rfl, ?_, by decide,
    by decide, ?_⟩
  · intro i c hc _
    rcases i with _ | i
    · obtain rfl := Option.some.inj hc
      decide
    · cases hc
  · intro d hd c hc
    obtain rfl : d = 86400000 := (Option.some.inj hd).symm
    obtain rfl := List.mem_singleton.mp hc
    decide

/-- Two calls; the key goes between the commands of the first. -/
theorem window_ends_two_calls :
    ∃ s : State, 0 < s.since "k" ∧ s.redis.get s.clock "k" = some 2 ∧
      (s.redis.get s.clock "k" = none ∨ ∃ d, deadline s.redis s.clock "k" = some d ∧
        ((∃ c ∈ s.completed "k", d ≤ c.time + c.ttlSecs * 1000) ∨
          ((Store.empty : Store String Int) "k").bind Entry.expireAt = some d)) := by
  have h : Steps Next (State.start 0 .empty)
      [.call 0 "k" 60, .call 1 "k" 60, .call 2 "k" 60, .go 0, .remove "k", .go 1, .go 0,
        .tick 59000, .go 1, .go 2] _ := .of_foldlM rfl
  exact ⟨_, by decide, by decide, (window_ends h).1 "k" (by decide)⟩

end ThinkWatch.Limits.FixedWindow
