import ThinkWatch.Lib.History
import ThinkWatch.Lib.Threads

/-!
# A cache that is read through and cleared

A call looks into the cache; on a miss it reads the source, stores what it read and returns it.
Clearing empties the cache, and nothing else tells a call of it. Calls, clearings and writes of the
source interleave.

`Coherent` is kept by every step that is `InOrder`: one that does not store a value older than the
last clearing. What a call then returns is no older than the clearings before it started.
-/

namespace Lib.ReadThrough

/-- What a cache holds, what a call reads from the source, and how the two meet. -/
structure Design (δ κ ν σ : Type*) where
  empty : σ
  /-- What a call finds at a time. -/
  find : σ → Int → κ → Option ν
  load : κ → δ → ν
  /-- What a call makes of a read that fails. -/
  fallback : ν
  /-- The times are those of the read and of the store. -/
  store : σ → κ → ν → Int → Int → σ
  find_empty : ∀ t k, find empty t k = none
  find_store : ∀ {c k v readAt now t k' v'}, find (store c k v readAt now) t k' = some v' →
    (k' = k ∧ v' = v) ∨ find c t k' = some v'

inductive Call (κ ν : Type*) where
  | looking (k : κ)
  | querying (k : κ)
  | storing (k : κ) (r : Read ν) (readAt : Int)
  | returned (k : κ) (v : ν)

inductive Action (κ : Type*) where
  | clear
  | start (i : Nat) (k : κ)
  | next (i : Nat) (now : Int)
  /-- The read of the source fails. -/
  | fail (i : Nat) (now : Int)

/-- `cleared` is the source as it was at the last clearing. -/
structure Cache (δ κ ν σ : Type*) where
  entries : σ
  cleared : Read δ
  calls : Threads (Call κ ν)

variable {δ κ ν σ : Type*}

namespace Cache

def start (D : Design δ κ ν σ) (h : History δ) : Cache δ κ ν σ := ⟨D.empty, h.read, .none⟩

def go (c : Cache δ κ ν σ) (i : Nat) (p : Call κ ν) : Cache δ κ ν σ :=
  { c with calls := c.calls.set i p }

/-- The next step of call `i`, which stands at `p`. -/
def advance (D : Design δ κ ν σ) (h : History δ) (c : Cache δ κ ν σ) (i : Nat) (now : Int) :
    Call κ ν → Option (Cache δ κ ν σ)
  | .looking k =>
    match D.find c.entries now k with
    | some v => some (c.go i (.returned k v))
    | none => some (c.go i (.querying k))
  | .querying k => some (c.go i (.storing k (h.read.map (D.load k)) now))
  | .storing k r readAt =>
    some (go { c with entries := D.store c.entries k r.value readAt now } i (.returned k r.value))
  | .returned _ _ => none

def step (D : Design δ κ ν σ) (h : History δ) (c : Cache δ κ ν σ) :
    Action κ → Option (Cache δ κ ν σ)
  | .clear => some { c with entries := D.empty, cleared := h.read }
  | .start i k =>
    match c.calls i with
    | none => some (c.go i (.looking k))
    | some _ => none
  | .next i now => (c.calls i).bind (c.advance D h i now)
  | .fail i now =>
    match c.calls i with
    | some (.querying k) => some (c.go i (.storing k ⟨D.fallback, h.count⟩ now))
    | _ => none

/--
The source answers, and a call that stores what it has read has read no less than the last clearing
saw, or the same value.
-/
def InOrder (D : Design δ κ ν σ) (c : Cache δ κ ν σ) : Action κ → Prop
  | .next i _ =>
    match c.calls i with
    | some (.storing k r _) => r.InOrder (c.cleared.map (D.load k))
    | _ => True
  | .fail _ _ => False
  | _ => True

end Cache

/-! ## The invariant -/

/-- What a call has, when it may use nothing older than `n` writes. -/
def Call.Sound (D : Design δ κ ν σ) (h : History δ) (n : Nat) : Call κ ν → Prop
  | .looking _ => True
  | .querying _ => True
  | .storing k r _ => h.Gives (D.load k) r ∧ n ≤ r.seen
  | .returned k v => h.NoOlder (D.load k) n v

/-- Call `i` may use nothing older than `since i` writes. -/
structure Coherent (D : Design δ κ ν σ) (since : Nat → Nat) (h : History δ) (c : Cache δ κ ν σ) :
    Prop where
  cleared : h.Gives id c.cleared
  since_le : ∀ i, since i ≤ c.cleared.seen
  entries : ∀ t k v, D.find c.entries t k = some v → h.NoOlder (D.load k) c.cleared.seen v
  calls : ∀ i p, c.calls i = some p → p.Sound D h (since i)

variable {D : Design δ κ ν σ} {since since' : Nat → Nat} {h : History δ} {c c' : Cache δ κ ν σ}

theorem Call.Sound.commit {n : Nat} {p : Call κ ν} {x : δ} (hp : p.Sound D h n) :
    p.Sound D (h.commit x) n := by
  cases p with
  | looking k => trivial
  | querying k => trivial
  | storing k r readAt => exact ⟨hp.1.commit, hp.2⟩
  | returned k v => exact History.NoOlder.commit hp

namespace Coherent

theorem start : Coherent D (fun _ => 0) h (Cache.start D h) where
  cleared := History.gives_read
  since_le := fun _ => Nat.zero_le _
  entries := by
    intro t k v hfind
    rw [Cache.start, D.find_empty] at hfind
    cases hfind
  calls := nofun

theorem commit (hc : Coherent D since h c) (x : δ) : Coherent D since (h.commit x) c where
  cleared := hc.cleared.commit
  since_le := hc.since_le
  entries := fun t k v hfind => (hc.entries t k v hfind).commit
  calls := fun i p hp => (hc.calls i p hp).commit

theorem go (hc : Coherent D since h c) {i : Nat} {p : Call κ ν} (hp : p.Sound D h (since i)) :
    Coherent D since h (c.go i p) where
  cleared := hc.cleared
  since_le := hc.since_le
  entries := hc.entries
  calls := by
    intro j q hq
    rcases Threads.set_eq_some hq with ⟨rfl, rfl⟩ | ⟨-, hq⟩
    · exact hp
    · exact hc.calls j q hq

/-- The last clearing saw no more writes than there are. -/
theorem since_le_count (hc : Coherent D since h c) (i : Nat) : since i ≤ h.count :=
  (hc.since_le i).trans hc.cleared.le

theorem store (hc : Coherent D since h c) {k : κ} {r : Read ν} (readAt now : Int)
    (g : h.Gives (D.load k) r) (hin : r.InOrder (c.cleared.map (D.load k))) :
    Coherent D since h { c with entries := D.store c.entries k r.value readAt now } where
  cleared := hc.cleared
  since_le := hc.since_le
  entries := by
    intro t k' v' hfind
    rcases D.find_store hfind with ⟨rfl, rfl⟩ | hold
    · have gcleared : h.Gives (D.load k') (c.cleared.map (D.load k')) := hc.cleared.map
      exact History.NoOlder.of_inOrder g gcleared hin
    · exact hc.entries t k' v' hold
  calls := hc.calls

theorem advance (hc : Coherent D since h c) {i : Nat} {now : Int} {p : Call κ ν}
    (hp : c.calls i = some p) (hin : c.InOrder D (.next i now))
    (hstep : c.advance D h i now p = some c') : Coherent D since h c' := by
  have hsound := hc.calls i p hp
  cases p with
  | looking k =>
    simp only [Cache.advance] at hstep
    split at hstep
    · next v hfind =>
      obtain rfl := Option.some.inj hstep
      exact hc.go ((hc.entries now k v hfind).mono (hc.since_le i))
    · obtain rfl := Option.some.inj hstep
      exact hc.go trivial
  | querying k =>
    obtain rfl := Option.some.inj hstep
    exact hc.go ⟨History.gives_read.map, hc.since_le_count i⟩
  | storing k r readAt =>
    obtain rfl := Option.some.inj hstep
    obtain ⟨g, hseen⟩ := hsound
    simp only [Cache.InOrder, hp] at hin
    exact (hc.store readAt now g hin).go (History.NoOlder.of_gives g hseen)
  | returned k v => cases hstep

/-- Every step in order keeps it. -/
theorem step (hc : Coherent D since h c) {a : Action κ} (hin : c.InOrder D a)
    (hstep : c.step D h a = some c') : Coherent D since h c' := by
  cases a with
  | clear =>
    obtain rfl := Option.some.inj hstep
    refine ⟨History.gives_read, hc.since_le_count, ?_, hc.calls⟩
    intro t k v hfind
    rw [D.find_empty] at hfind
    cases hfind
  | start i k =>
    simp only [Cache.step] at hstep
    split at hstep
    · obtain rfl := Option.some.inj hstep
      exact hc.go trivial
    · cases hstep
  | next i now =>
    obtain ⟨p, hp, hstep⟩ := Option.bind_eq_some_iff.mp hstep
    exact hc.advance hp hin hstep
  | fail i now => exact hin.elim

/-- From a clearing on, what has not started yet may be asked not to use anything older. -/
theorem asked (hc : Coherent D since h c) (hle : ∀ i, since' i ≤ c.cleared.seen)
    (hold : ∀ i p, c.calls i = some p → since' i ≤ since i) : Coherent D since' h c where
  cleared := hc.cleared
  since_le := hle
  entries := hc.entries
  calls := by
    intro i p hp
    have hsound := hc.calls i p hp
    have hi := hold i p hp
    cases p with
    | looking k => trivial
    | querying k => trivial
    | storing k r readAt => exact ⟨hsound.1, hi.trans hsound.2⟩
    | returned k v => exact History.NoOlder.mono hsound hi

/-- After a clearing, the calls still to start use nothing older than it. -/
theorem clear (hc : Coherent D since h c) (hstep : c.step D h .clear = some c') :
    Coherent D (fun i => if (c'.calls i).isNone then h.count else 0) h c' := by
  have hc' : Coherent D since h c' := hc.step (a := .clear) trivial hstep
  obtain rfl := Option.some.inj hstep
  refine hc'.asked (fun i => ?_) fun i p hp => ?_
  · split
    · exact le_rfl
    · exact Nat.zero_le _
  · rw [hp]
    exact Nat.zero_le _

end Coherent

end Lib.ReadThrough
