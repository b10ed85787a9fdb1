import ThinkWatch.Lib.KeyedList
import ThinkWatch.Lib.Run
import ThinkWatch.Lib.Slots

/-!
# The mutexes of refreshes

`refresh_mutex_for`, `try_evict_refresh_mutex` and the way through them of `refresh_locked` in
`crates/mcp-gateway/src/user_token.rs`: any number of calls in one process, for any keys. The map is
behind a mutex of its own, so that what is done to it is one step; a count of references that is read
outside of it is a step too. A call owns one reference from the map until it is dropped.
-/

namespace ThinkWatch.Mcp.RefreshLocks

open Lib

/--
What a call is doing: it waits for its mutex; it holds it up to its last access to the database; it
has done that; it has read the count; it leaves; it has let go of the mutex and not of the reference.
`evicted` says whether it has removed the entry.
-/
inductive Phase where
  | waiting
  | holding
  | done
  | counted
  | leaving (evicted : Bool)
  | released (evicted : Bool)
deriving DecidableEq, Repr

def Phase.holds : Phase → Bool
  | waiting | released _ => false
  | holding | done | counted | leaving _ => true

def Phase.evicted : Phase → Bool
  | leaving evicted | released evicted => evicted
  | _ => false

structure Call (κ : Type*) where
  key : κ
  mutex : Nat
  phase : Phase
deriving DecidableEq, Repr

/-- `owner` is the call that has a mutex locked, and `made` counts the mutexes. -/
structure State (κ : Type*) where
  refreshLocks : List (κ × Nat)
  owner : Nat → Option Nat
  calls : Slots (Call κ)
  made : Nat

/--
What a call does next. `unlock` is also what an error or a cancellation at an `await` under the mutex
does first, and `drop` what a cancellation of a call that waits does.
-/
inductive Move where
  | acquire
  | lastAccess
  | count
  | evict
  | unlock
  | drop
deriving DecidableEq, Repr

inductive Action (κ : Type*) where
  | call (key : κ)
  | move (i : Nat) (m : Move)
deriving DecidableEq, Repr

variable {κ : Type*} [DecidableEq κ]

namespace State

def start : State κ := ⟨[], fun _ => none, [], 0⟩

/-- `Arc::strong_count`: the entries of the map and the calls. -/
def strongCount (s : State κ) (mutex : Nat) : Nat :=
  s.refreshLocks.countP (fun e => e.2 = mutex) +
    s.calls.total fun c => if c.mutex = mutex then 1 else 0

def refreshMutexFor (s : State κ) (lockKey : κ) : State κ × Nat :=
  match s.refreshLocks.lookup lockKey with
  | some mutex => (s, mutex)
  | none =>
    ({ s with refreshLocks := (lockKey, s.made) :: s.refreshLocks, made := s.made + 1 }, s.made)

def setOwner (s : State κ) (mutex : Nat) (owner : Option Nat) : State κ :=
  { s with owner := fun m => if m = mutex then owner else s.owner m }

def go (s : State κ) (i : Nat) (c : Call κ) (phase : Phase) : State κ :=
  { s with calls := s.calls.put i (some { c with phase := phase }) }

/-- What `try_evict_refresh_mutex` does with the map in its hands. -/
def evict (s : State κ) (i : Nat) (c : Call κ) : State κ :=
  match s.refreshLocks.lookup c.key with
  | some entry =>
    if s.strongCount entry ≤ 2 then
      { s with refreshLocks := s.refreshLocks.filter fun e => e.1 ≠ c.key }.go i c (.leaving true)
    else s.go i c (.leaving false)
  | none => s.go i c (.leaving false)

def act (s : State κ) (i : Nat) (c : Call κ) (m : Move) : Option (State κ) :=
  match m, c.phase with
  | .acquire, .waiting =>
    if s.owner c.mutex = none then some ((s.setOwner c.mutex (some i)).go i c .holding) else none
  | .lastAccess, .holding => some (s.go i c .done)
  | .count, .done =>
    some (s.go i c (if s.strongCount c.mutex ≤ 2 then .counted else .leaving false))
  | .evict, .counted => some (s.evict i c)
  | .unlock, .holding => some ((s.setOwner c.mutex none).go i c (.released false))
  | .unlock, .done => some ((s.setOwner c.mutex none).go i c (.released false))
  | .unlock, .leaving evicted => some ((s.setOwner c.mutex none).go i c (.released evicted))
  | .drop, .waiting => some { s with calls := s.calls.put i none }
  | .drop, .released _ => some { s with calls := s.calls.put i none }
  | _, _ => none

def step (s : State κ) : Action κ → Option (State κ)
  | .call key =>
    let (s, mutex) := s.refreshMutexFor key
    some { s with calls := s.calls.add ⟨key, mutex, .waiting⟩ }
  | .move i m => (s.calls.get i).bind fun c => s.act i c m

end State

open State

def Next (s : State κ) (a : Action κ) (s' : State κ) : Prop := s.step a = some s'

/-- A call that has not removed the entry has the mutex of the map, and one that holds it owns it. -/
structure Inv (s : State κ) : Prop where
  listed : ∀ i c, s.calls.get i = some c → c.phase.evicted = false →
    s.refreshLocks.lookup c.key = some c.mutex
  owned : ∀ i c, s.calls.get i = some c → c.phase.holds = true → s.owner c.mutex = some i

variable {s s' : State κ} {i j : Nat} {c d : Call κ} {m : Move} {a : Action κ} {p : Phase}

omit [DecidableEq κ] in
/-- Two calls with one mutex are two references to it. -/
theorem two_le_total (hc : s.calls.get i = some c) (hd : s.calls.get j = some d) (hij : j ≠ i)
    (hmutex : d.mutex = c.mutex) :
    2 ≤ s.calls.total fun x => if x.mutex = c.mutex then 1 else 0 := by
  have hput := Slots.total_put hc none fun x => if x.mutex = c.mutex then 1 else 0
  have hle := Slots.le_total ((Slots.get_put_ne hij none).trans hd)
    fun x => if x.mutex = c.mutex then 1 else 0
  simp only [if_pos hmutex, Option.elim_none, if_true] at hput hle
  omega

/-- A mutex of the map that is counted at most twice is the only call's. -/
theorem mutex_ne (hc : s.calls.get i = some c) (hlisted : s.refreshLocks.lookup c.key = some c.mutex)
    (hcount : s.strongCount c.mutex ≤ 2) (hd : s.calls.get j = some d) (hij : j ≠ i) :
    d.mutex ≠ c.mutex := by
  intro hmutex
  have hcalls := two_le_total hc hd hij hmutex
  have hmem : (c.key, c.mutex) ∈ s.refreshLocks := by
    obtain ⟨before, after, hlocks, -⟩ := List.lookup_eq_some_iff.mp hlisted
    rw [hlocks]
    exact List.mem_append_right before List.mem_cons_self
  have hmap : 0 < s.refreshLocks.countP fun e => e.2 = c.mutex :=
    List.countP_pos_iff.mpr ⟨_, hmem, by simp⟩
  unfold strongCount at hcount
  omega

/-! ## Steps -/

/-- What a step does to the call that takes it, when the map stays as it is. -/
structure Keeps (s : State κ) (i : Nat) (c : Call κ) (s' : State κ) (p : Phase) : Prop where
  locks : s'.refreshLocks = s.refreshLocks
  calls : s'.calls = s.calls.put i (some { c with phase := p })
  evicted : p.evicted = c.phase.evicted
  owner : (∀ m, s'.owner m = s.owner m) ∧ (p.holds = true → c.phase.holds = true) ∨
    s.owner c.mutex = none ∧ s' = (s.setOwner c.mutex (some i)).go i c p ∨
    c.phase.holds = true ∧ p.holds = false ∧ s' = (s.setOwner c.mutex none).go i c p

/-- What a step of a call can do. Only `evict` removes an entry. -/
theorem act_cases (h : s.act i c m = some s') :
    (∃ p, Keeps s i c s' p) ∨ s' = { s with calls := s.calls.put i none } ∨
      (m = .evict ∧ c.phase = .counted ∧ ∃ entry, s.refreshLocks.lookup c.key = some entry ∧
        s.strongCount entry ≤ 2 ∧
        s' = { s with refreshLocks := s.refreshLocks.filter fun e => e.1 ≠ c.key }.go i c
          (.leaving true)) := by
  have hgo {p : Phase} (hev : p.evicted = c.phase.evicted) (hholds : c.phase.holds = true) :
      Keeps s i c (s.go i c p) p := ⟨rfl, rfl, hev, Or.inl ⟨fun _ => rfl, fun _ => hholds⟩⟩
  unfold act at h
  split at h
  · next hp =>
    split at h
    · next hfree =>
      obtain rfl := Option.some.inj h
      exact Or.inl ⟨.holding, rfl, rfl, by rw [hp]; rfl, Or.inr (Or.inl ⟨hfree, rfl⟩)⟩
    · cases h
  · next hp =>
    obtain rfl := Option.some.inj h
    exact Or.inl ⟨_, hgo (by rw [hp]; rfl) (by rw [hp]; rfl)⟩
  · next hp =>
    obtain rfl := Option.some.inj h
    refine Or.inl ⟨_, hgo ?_ (by rw [hp]; rfl)⟩
    rw [hp]
    split <;> rfl
  · next hp =>
    obtain rfl := Option.some.inj h
    have hleaves : Keeps s i c (s.go i c (.leaving false)) (.leaving false) :=
      hgo (by rw [hp]; rfl) (by rw [hp]; rfl)
    unfold evict
    split
    · next entry hentry =>
      split
      · next hcount => exact Or.inr (Or.inr ⟨rfl, hp, entry, hentry, hcount, rfl⟩)
      · exact Or.inl ⟨_, hleaves⟩
    · exact Or.inl ⟨_, hleaves⟩
  · next hp =>
    obtain rfl := Option.some.inj h
    exact Or.inl ⟨_, rfl, rfl, by rw [hp]; rfl, Or.inr (Or.inr ⟨by rw [hp]; rfl, rfl, rfl⟩)⟩
  · next hp =>
    obtain rfl := Option.some.inj h
    exact Or.inl ⟨_, rfl, rfl, by rw [hp]; rfl, Or.inr (Or.inr ⟨by rw [hp]; rfl, rfl, rfl⟩)⟩
  · next evicted hp =>
    obtain rfl := Option.some.inj h
    exact Or.inl ⟨_, rfl, rfl, by rw [hp]; rfl, Or.inr (Or.inr ⟨by rw [hp]; rfl, rfl, rfl⟩)⟩
  · exact Or.inr (Or.inl (Option.some.inj h).symm)
  · exact Or.inr (Or.inl (Option.some.inj h).symm)
  · cases h

/-! ## The invariant -/

/-- Another call than the one that moves. -/
theorem Inv.keep (h : Inv s) (hc : s.calls.get i = some c) (hk : Keeps s i c s' p) : Inv s' := by
  refine ⟨fun j d hd hev => ?_, fun j d hd hholds => ?_⟩
  · rw [hk.locks]
    rw [hk.calls] at hd
    rcases Slots.get_put_cases hd with ⟨-, heq⟩ | ⟨-, hd⟩
    · obtain rfl := Option.some.inj heq
      exact h.listed i c hc (hk.evicted ▸ hev)
    · exact h.listed j d hd hev
  · rw [hk.calls] at hd
    rcases Slots.get_put_cases hd with ⟨rfl, heq⟩ | ⟨hji, hd⟩
    · obtain rfl := Option.some.inj heq
      rcases hk.owner with ⟨howner, hphase⟩ | ⟨-, rfl⟩ | ⟨-, hp, -⟩
      · rw [howner]
        exact h.owned j c hc (hphase hholds)
      · exact if_pos rfl
      · exact absurd (hp ▸ hholds) Bool.false_ne_true
    · have howned := h.owned j d hd hholds
      rcases hk.owner with ⟨howner, -⟩ | ⟨hfree, rfl⟩ | ⟨hcholds, -, rfl⟩
      · rw [howner, howned]
      · have hne : d.mutex ≠ c.mutex := fun heq => by
          rw [heq, hfree] at howned
          cases howned
        exact (if_neg hne).trans howned
      · have hne : d.mutex ≠ c.mutex := fun heq => by
          rw [heq, h.owned i c hc hcholds] at howned
          exact hji (Option.some.inj howned).symm
        exact (if_neg hne).trans howned

theorem Inv.drop (h : Inv s) : Inv { s with calls := s.calls.put i none } := by
  have hother : ∀ j d, (s.calls.put i none).get j = some d → s.calls.get j = some d := by
    intro j d hd
    rcases Slots.get_put_cases hd with ⟨-, heq⟩ | ⟨-, hd⟩
    · cases heq
    · exact hd
  exact ⟨fun j d hd => h.listed j d (hother j d hd), fun j d hd => h.owned j d (hother j d hd)⟩

/-- The entry that is removed is the call's own, and no other call has it. -/
theorem evict_own (h : Inv s) (hc : s.calls.get i = some c) (hp : c.phase = .counted) {entry : Nat}
    (hentry : s.refreshLocks.lookup c.key = some entry) (hcount : s.strongCount entry ≤ 2) :
    entry = c.mutex ∧ ∀ j d, s.calls.get j = some d → j ≠ i → d.mutex ≠ c.mutex := by
  have hlisted := h.listed i c hc (by rw [hp]; rfl)
  obtain rfl : entry = c.mutex := Option.some.inj (hentry.symm.trans hlisted)
  exact ⟨rfl, fun j d hd hji => mutex_ne hc hlisted hcount hd hji⟩

theorem Inv.evict (h : Inv s) (hc : s.calls.get i = some c) (hp : c.phase = .counted)
    (hothers : ∀ j d, s.calls.get j = some d → j ≠ i → d.mutex ≠ c.mutex) :
    Inv ({ s with refreshLocks := s.refreshLocks.filter fun e => e.1 ≠ c.key }.go i c
      (.leaving true)) := by
  refine ⟨fun j d hd hev => ?_, fun j d hd hholds => ?_⟩
  · rcases Slots.get_put_cases hd with ⟨-, heq⟩ | ⟨hji, hd⟩
    · obtain rfl := Option.some.inj heq
      cases hev
    · have hlisted := h.listed j d hd hev
      have hkey : d.key ≠ c.key := fun heq => by
        rw [heq, h.listed i c hc (by rw [hp]; rfl)] at hlisted
        exact hothers j d hd hji (Option.some.inj hlisted).symm
      exact (lookup_filter_ne hkey s.refreshLocks).trans hlisted
  · rcases Slots.get_put_cases hd with ⟨rfl, heq⟩ | ⟨-, hd⟩
    · obtain rfl := Option.some.inj heq
      exact h.owned j c hc (by rw [hp]; rfl)
    · exact h.owned j d hd hholds

/-- The mutex of a new call is the one of the map, and the entries that were there are. -/
theorem refreshMutexFor_spec (s : State κ) (key : κ) :
    (s.refreshMutexFor key).1.refreshLocks.lookup key = some (s.refreshMutexFor key).2 ∧
      (∀ k mutex, s.refreshLocks.lookup k = some mutex →
        (s.refreshMutexFor key).1.refreshLocks.lookup k = some mutex) ∧
      (s.refreshMutexFor key).1.calls = s.calls ∧ (s.refreshMutexFor key).1.owner = s.owner := by
  unfold refreshMutexFor
  cases hkey : s.refreshLocks.lookup key with
  | some mutex => exact ⟨hkey, fun _ _ h => h, rfl, rfl⟩
  | none =>
    refine ⟨by simp, fun k mutex h => ?_, rfl, rfl⟩
    have hne : k ≠ key := fun heq => by
      rw [heq, hkey] at h
      cases h
    rw [List.lookup_cons, beq_eq_false_iff_ne.mpr hne]
    exact h

theorem Inv.step (h : Inv s) (ha : s.step a = some s') : Inv s' := by
  cases a with
  | call key =>
    obtain rfl := Option.some.inj ha
    obtain ⟨hself, hkeep, hcalls, howner⟩ := refreshMutexFor_spec s key
    refine ⟨fun j d hd hev => ?_, fun j d hd hholds => ?_⟩
    · rcases Slots.get_add_eq_some hd with ⟨-, rfl⟩ | hd
      · exact hself
      · exact hkeep _ _ (h.listed j d (hcalls ▸ hd) hev)
    · rcases Slots.get_add_eq_some hd with ⟨-, rfl⟩ | hd
      · cases hholds
      · exact (congrFun howner d.mutex).trans (h.owned j d (hcalls ▸ hd) hholds)
  | move i m =>
    obtain ⟨c, hc, hact⟩ := Option.bind_eq_some_iff.mp ha
    obtain ⟨p, hk⟩ | rfl | ⟨-, hp, entry, hentry, hcount, rfl⟩ := act_cases hact
    · exact h.keep hc hk
    · exact h.drop
    · exact h.evict hc hp (evict_own h hc hp hentry hcount).2

theorem inv_run {as : List (Action κ)} (h : Steps Next State.start as s) : Inv s :=
  h.invariant (fun _ _ _ hs ha => hs.step ha) ⟨nofun, nofun⟩

/-- Of the calls for one key, one is between the mutex and its last access. -/
theorem Inv.holding_unique (h : Inv s) {i j : Nat} {c d : Call κ} (hc : s.calls.get i = some c)
    (hd : s.calls.get j = some d) (hpc : c.phase = .holding) (hpd : d.phase = .holding)
    (hkey : c.key = d.key) : i = j := by
  have hc' := h.listed i c hc (by rw [hpc]; rfl)
  have hd' := h.listed j d hd (by rw [hpd]; rfl)
  have hmutex : c.mutex = d.mutex := by
    rw [hkey, hd'] at hc'
    exact (Option.some.inj hc').symm
  have hoc := h.owned i c hc (by rw [hpc]; rfl)
  have hod := h.owned j d hd (by rw [hpd]; rfl)
  rw [hmutex, hod] at hoc
  exact (Option.some.inj hoc).symm

/-- An entry goes when the only call with a reference to its mutex evicts it. -/
theorem Inv.entry_gone (h : Inv s) {a : Action κ} (ha : s.step a = some s') {k : κ} {mutex : Nat}
    (hk : s.refreshLocks.lookup k = some mutex) (hk' : s'.refreshLocks.lookup k ≠ some mutex) :
    ∃ i c, a = .move i .evict ∧ s.calls.get i = some c ∧ c.key = k ∧ c.mutex = mutex ∧
      ∀ j d, s.calls.get j = some d → j ≠ i → d.mutex ≠ mutex := by
  cases a with
  | call key =>
    obtain rfl := Option.some.inj ha
    exact absurd ((refreshMutexFor_spec s key).2.1 k mutex hk) hk'
  | move i m =>
    obtain ⟨c, hc, hact⟩ := Option.bind_eq_some_iff.mp ha
    obtain ⟨p, hkeeps⟩ | rfl | ⟨rfl, hp, entry, hentry, hcount, rfl⟩ := act_cases hact
    · rw [hkeeps.locks] at hk'
      exact absurd hk hk'
    · exact absurd hk hk'
    · obtain ⟨rfl, hothers⟩ := evict_own h hc hp hentry hcount
      have hkey : k = c.key := by
        by_contra hne
        exact hk' ((lookup_filter_ne hne s.refreshLocks).trans hk)
      subst hkey
      obtain rfl := Option.some.inj (hk.symm.trans hentry)
      exact ⟨i, c, rfl, hc, rfl, rfl, hothers⟩

/--
In every state reached, at most one call for a key is between the mutex and its last access to the
database, and a call that waits does so for the mutex that the map holds for its key. A step takes an
entry from the map only when it is the entry of the call that takes the step and no other call has a
reference to it.
-/
theorem refreshes_exclusive {as : List (Action κ)} (h : Steps Next State.start as s) :
    (∀ i j c d, s.calls.get i = some c → s.calls.get j = some d → c.phase = .holding →
      d.phase = .holding → c.key = d.key → i = j) ∧
    (∀ i c, s.calls.get i = some c → c.phase = .waiting →
      s.refreshLocks.lookup c.key = some c.mutex) ∧
    ∀ a s', s.step a = some s' → ∀ k mutex, s.refreshLocks.lookup k = some mutex →
      s'.refreshLocks.lookup k ≠ some mutex →
      ∃ i c, a = .move i .evict ∧ s.calls.get i = some c ∧ c.key = k ∧ c.mutex = mutex ∧
        ∀ j d, s.calls.get j = some d → j ≠ i → d.mutex ≠ mutex := by
  have hinv := inv_run h
  refine ⟨fun i j c d hc hd hpc hpd hkey => ?_, fun i c hc hp => ?_,
    fun a s' ha k mutex hk hk' => ?_⟩
  · exact hinv.holding_unique hc hd hpc hpd hkey
  · exact hinv.listed i c hc (by rw [hp]; rfl)
  · exact hinv.entry_gone ha hk hk'

/-- Two calls for one key: the second waits while the first refreshes. -/
def twoCalls : State Nat :=
  ⟨[(7, 0)], fun m => if m = 0 then some 0 else none, [some ⟨7, 0, .holding⟩, some ⟨7, 0, .waiting⟩],
    1⟩

theorem refreshes_exclusive_two :
    (∀ i c, twoCalls.calls.get i = some c → c.phase = .holding → c.key = 7 → i = 0) ∧
      twoCalls.refreshLocks.lookup 7 = some 0 := by
  have hrun : Steps Next State.start [.call 7, .call 7, .move 0 .acquire] twoCalls := by
    refine .cons rfl (.cons rfl (.single ?_))
    rfl
  obtain ⟨hone, hlisted, -⟩ := refreshes_exclusive hrun
  exact ⟨fun i c hc hp hkey => hone i 0 c ⟨7, 0, .holding⟩ hc rfl hp rfl hkey,
    hlisted 1 ⟨7, 0, .waiting⟩ rfl rfl⟩

end ThinkWatch.Mcp.RefreshLocks
