import Mathlib.Order.Nat
import ThinkWatch.Lib.Expiring
import ThinkWatch.Lib.Run
import ThinkWatch.Lib.Threads

/-!
# A cache beside a source that changes

The value of a key is computed from the source by two reads. A check looks into the cache; on a miss
it makes the two reads, writes the value to the cache and uses it. A change commits a new version of
the source, then looks up the keys it has to invalidate, deletes them one by one and returns. All
of this interleaves.

`value_no_older`: in a run that is `Orderly`, a check that starts after a change has returned uses
the value of a version of the source no older than that change.
-/

namespace Lib.CacheAside

/-- How values are computed, and what a change does and invalidates. -/
structure Design (δ κ ι ν μ : Type*) where
  first : δ → κ → ι
  second : δ → κ → ι → ν
  apply : μ → δ → δ
  /-- The keys a change deletes in any case. -/
  keys : μ → List κ
  /-- The queries for more of them, made after the commit. -/
  lookups : μ → List (δ → List κ)
  ttl : Int

variable {δ κ ι ν μ : Type*}

def Design.value (D : Design δ κ ι ν μ) (s : δ) (k : κ) : ν := D.second s k (D.first s k)

/-- A check. `since` is a version whose change had returned when the check started. -/
inductive Reader (κ ι ν : Type*) where
  | missed (k : κ) (since : Nat)
  | half (k : κ) (since : Nat) (x : ι)
  /-- `seen` is the version of the second read. -/
  | loaded (k : κ) (since : Nat) (v : ν) (seen : Nat)
  | done (k : κ) (since : Nat) (v : ν)

/-- A change after its commit: what it has still to look up and to delete. -/
structure Writer (δ κ : Type*) where
  version : Nat
  lookups : List (δ → List κ)
  keys : List κ
  returned : Bool

structure Sys (δ κ ι ν : Type*) where
  now : Int
  /-- The current version; `source` is meant up to here. -/
  version : Nat
  source : Nat → δ
  cache : Store κ ν
  readers : Threads (Reader κ ι ν)
  writers : Threads (Writer δ κ)

def Sys.current (s : Sys δ κ ι ν) : δ := s.source s.version

def Sys.start (d : δ) : Sys δ κ ι ν := ⟨0, 0, fun _ => d, .empty, .none, .none⟩

/-- The change that made this version has returned, or it is the first version. -/
def Sys.Returned (s : Sys δ κ ι ν) (n : Nat) : Prop :=
  n = 0 ∨ ∃ j w, s.writers j = some w ∧ w.version = n ∧ w.returned = true

/-- A new version of the source. -/
def Sys.commit (s : Sys δ κ ι ν) (d : δ) : Sys δ κ ι ν :=
  { s with
    version := s.version + 1
    source := fun n => if n = s.version + 1 then d else s.source n }

/-- Start a check, or move it on. -/
def Sys.setReader (s : Sys δ κ ι ν) (i : Nat) (p : Reader κ ι ν) : Sys δ κ ι ν :=
  { s with readers := s.readers.set i p }

theorem Sys.setReader_setReader (s : Sys δ κ ι ν) (i : Nat) (p q : Reader κ ι ν) :
    (s.setReader i p).setReader i q = s.setReader i q := by
  unfold setReader
  rw [Threads.set_set]

def Sys.setWriter (s : Sys δ κ ι ν) (j : Nat) (w : Writer δ κ) : Sys δ κ ι ν :=
  { s with writers := s.writers.set j w }

inductive Action (κ μ : Type*) where
  | tick (t : Int)
  | change (j : Nat) (m : μ)
  | lookup (j : Nat)
  | delete (j : Nat)
  | ret (j : Nat)
  | check (i : Nat) (k : κ) (since : Nat)
  | readFirst (i : Nat)
  | readSecond (i : Nat)
  | store (i : Nat)

/-! ## Steps -/

section Steps

variable [DecidableEq κ]

inductive Step (D : Design δ κ ι ν μ) : Sys δ κ ι ν → Action κ μ → Sys δ κ ι ν → Prop where
  | tick {s : Sys δ κ ι ν} {t : Int} (h : s.now ≤ t) : Step D s (.tick t) { s with now := t }
  | change {s : Sys δ κ ι ν} {j : Nat} {m : μ} (free : s.writers j = none) :
      Step D s (.change j m)
        ((s.commit (D.apply m s.current)).setWriter j
          ⟨s.version + 1, D.lookups m, D.keys m, false⟩)
  | lookup {s : Sys δ κ ι ν} {j : Nat} {w : Writer δ κ} {l : δ → List κ} {ls : List (δ → List κ)}
      (hw : s.writers j = some w) (hl : w.lookups = l :: ls) :
      Step D s (.lookup j)
        (s.setWriter j { w with lookups := ls, keys := w.keys ++ l s.current })
  | delete {s : Sys δ κ ι ν} {j : Nat} {w : Writer δ κ} {k : κ} {ks : List κ}
      (hw : s.writers j = some w) (hl : w.lookups = []) (hk : w.keys = k :: ks) :
      Step D s (.delete j) { s.setWriter j { w with keys := ks } with cache := s.cache.del k }
  | ret {s : Sys δ κ ι ν} {j : Nat} {w : Writer δ κ} (hw : s.writers j = some w)
      (hl : w.lookups = []) (hk : w.keys = []) :
      Step D s (.ret j) (s.setWriter j { w with returned := true })
  | hit {s : Sys δ κ ι ν} {i : Nat} {k : κ} {since : Nat} {v : ν} (free : s.readers i = none)
      (hsince : s.Returned since) (hget : s.cache.get s.now k = some v) :
      Step D s (.check i k since) (s.setReader i (.done k since v))
  | miss {s : Sys δ κ ι ν} {i : Nat} {k : κ} {since : Nat} (free : s.readers i = none)
      (hsince : s.Returned since) (hget : s.cache.get s.now k = none) :
      Step D s (.check i k since) (s.setReader i (.missed k since))
  | readFirst {s : Sys δ κ ι ν} {i : Nat} {k : κ} {since : Nat}
      (hr : s.readers i = some (.missed k since)) :
      Step D s (.readFirst i) (s.setReader i (.half k since (D.first s.current k)))
  | readSecond {s : Sys δ κ ι ν} {i : Nat} {k : κ} {since : Nat} {x : ι}
      (hr : s.readers i = some (.half k since x)) :
      Step D s (.readSecond i)
        (s.setReader i (.loaded k since (D.second s.current k x) s.version))
  | store {s : Sys δ κ ι ν} {i : Nat} {k : κ} {since seen : Nat} {v : ν}
      (hr : s.readers i = some (.loaded k since v seen)) :
      Step D s (.store i)
        { s.setReader i (.done k since v) with cache := s.cache.setEx s.now k v D.ttl }

end Steps

/-! ## The condition -/

/-- The change that made version `c` gave `k` another value. -/
def Sys.Changes (D : Design δ κ ι ν μ) (s : Sys δ κ ι ν) (c : Nat) (k : κ) : Prop :=
  D.value (s.source (c - 1)) k ≠ D.value (s.source c) k

/-- The change that made version `c` may still delete `k`. -/
def Sys.Owes (s : Sys δ κ ι ν) (c : Nat) (k : κ) : Prop :=
  ∃ j w, s.writers j = some w ∧ w.version = c ∧ (w.lookups ≠ [] ∨ k ∈ w.keys)

/-- A check would find `k` in the cache. -/
def Sys.Cached (s : Sys δ κ ι ν) (k : κ) : Prop := (s.cache.get s.now k).isSome = true

/-- The condition on each step. -/
def Orderly (D : Design δ κ ι ν μ) (s : Sys δ κ ι ν) : Action κ μ → Prop
  | .change _ m =>
    -- a change that looks nothing up deletes the cached keys that it changes
    D.lookups m = [] → ∀ k, s.Cached k →
      D.value s.current k ≠ D.value (D.apply m s.current) k → k ∈ D.keys m
  | .lookup j =>
    -- the last query completes the cached keys that the change has changed
    ∀ w l, s.writers j = some w → w.lookups = [l] → ∀ k, s.Cached k →
      s.Changes D w.version k → k ∈ w.keys ++ l s.current
  | .check _ k since =>
    -- no change up to one that has returned is still about to delete the key
    s.Cached k → ∀ c ≤ since, s.Changes D c k → ¬ s.Owes c k
  | .readSecond i =>
    -- what the first read has found is still so
    ∀ k since x, s.readers i = some (.half k since x) → D.first s.current k = x
  | .store i =>
    -- a change since the reads has not yet deleted the key
    ∀ k since v seen, s.readers i = some (.loaded k since v seen) →
      ∀ c, seen < c → c ≤ s.version → s.Changes D c k → s.Owes c k
  | _ => True

/-! ## The invariant -/

/-- `v` was the value of a version since which every change of `k` is about to delete it. -/
def Sys.Backed (D : Design δ κ ι ν μ) (s : Sys δ κ ι ν) (k : κ) (v : ν) : Prop :=
  ∃ r ≤ s.version, v = D.value (s.source r) k ∧
    ∀ c, r < c → c ≤ s.version → s.Changes D c k → s.Owes c k

/-- `v` is the value of a version from `since` on. -/
def Sys.NoOlder (D : Design δ κ ι ν μ) (s : Sys δ κ ι ν) (k : κ) (since : Nat) (v : ν) : Prop :=
  ∃ n, since ≤ n ∧ n ≤ s.version ∧ v = D.value (s.source n) k

def Reader.Sound (D : Design δ κ ι ν μ) (s : Sys δ κ ι ν) : Reader κ ι ν → Prop
  | .missed _ since => since ≤ s.version
  | .half _ since _ => since ≤ s.version
  | .loaded k since v seen => since ≤ seen ∧ seen ≤ s.version ∧ v = D.value (s.source seen) k
  | .done k since v => s.NoOlder D k since v

structure Coherent (D : Design δ κ ι ν μ) (s : Sys δ κ ι ν) : Prop where
  cache : ∀ k v, s.cache.get s.now k = some v → s.Backed D k v
  readers : ∀ i p, s.readers i = some p → p.Sound D s
  writers : ∀ j w, s.writers j = some w → w.version ≤ s.version

section Invariant

variable {D : Design δ κ ι ν μ} {s s' : Sys δ κ ι ν}

theorem coherent_start (d : δ) : Coherent D (Sys.start d : Sys δ κ ι ν) := ⟨nofun, nofun, nofun⟩

/-- Between two versions that no change of `k` lies between, `k` has one value. -/
theorem value_eq_of_not_changes {k : κ} {r n : Nat} (hrn : r ≤ n)
    (h : ∀ c, r < c → c ≤ n → ¬ s.Changes D c k) :
    D.value (s.source r) k = D.value (s.source n) k := by
  induction hrn with
  | refl => rfl
  | @step n hrn ih =>
    have hlast := h (n + 1) (Nat.lt_succ_of_le hrn) le_rfl
    rw [Sys.Changes, Nat.add_sub_cancel, not_not] at hlast
    exact (ih fun c hc hcn => h c hc (Nat.le_succ_of_le hcn)).trans hlast

/-- A backed value that nobody is about to delete is no older than what has returned. -/
theorem Sys.Backed.noOlder {k : κ} {since : Nat} {v : ν} (hsince : since ≤ s.version)
    (hback : s.Backed D k v) (hnone : ∀ c ≤ since, s.Changes D c k → ¬ s.Owes c k) :
    s.NoOlder D k since v := by
  obtain ⟨r, hr, rfl, howes⟩ := hback
  by_cases hle : since ≤ r
  · exact ⟨r, hle, hr, rfl⟩
  · refine ⟨since, le_rfl, hsince, value_eq_of_not_changes (Nat.le_of_not_le hle) ?_⟩
    intro c hc hcs hchange
    exact hnone c hcs hchange (howes c hc (hcs.trans hsince) hchange)

/-- A value stays backed as long as no change of the key stops owing its deletion. -/
theorem Sys.Backed.mono {k : κ} {v : ν} (hback : s.Backed D k v) (hv : s'.version = s.version)
    (hs : s'.source = s.source)
    (howes : ∀ c, s.Changes D c k → s.Owes c k → s'.Owes c k) : s'.Backed D k v := by
  obtain ⟨r, hr, hval, hall⟩ := hback
  have hchanges : ∀ c, s'.Changes D c k → s.Changes D c k := by
    intro c hc
    rwa [Sys.Changes, hs] at hc
  refine ⟨r, by rw [hv]; exact hr, by rw [hs]; exact hval, fun c hc hcv hchange => ?_⟩
  rw [hv] at hcv
  exact howes c (hchanges c hchange) (hall c hc hcv (hchanges c hchange))

/-- A check goes on being sound when versions are only added. -/
theorem Reader.Sound.mono {p : Reader κ ι ν} (hp : p.Sound D s) (hv : s.version ≤ s'.version)
    (hs : ∀ n ≤ s.version, s'.source n = s.source n) : p.Sound D s' := by
  cases p with
  | missed k since => exact Nat.le_trans hp hv
  | half k since x => exact Nat.le_trans hp hv
  | loaded k since v seen =>
    obtain ⟨hsince, hseen, hval⟩ := hp
    exact ⟨hsince, hseen.trans hv, by rw [hs seen hseen]; exact hval⟩
  | done k since v =>
    obtain ⟨n, hsince, hn, hval⟩ := hp
    exact ⟨n, hsince, hn.trans hv, by rw [hs n hn]; exact hval⟩

theorem Coherent.returned_le (hinv : Coherent D s) {n : Nat} (h : s.Returned n) :
    n ≤ s.version := by
  rcases h with rfl | ⟨j, w, hw, rfl, -⟩
  · exact Nat.zero_le _
  · exact hinv.writers j w hw

/-- A step of a check that leaves the cache alone. -/
theorem Coherent.setReader (hinv : Coherent D s) {i : Nat} {p : Reader κ ι ν} (hp : p.Sound D s) :
    Coherent D (s.setReader i p) where
  cache := hinv.cache
  readers := by
    intro i' p' h
    rcases Threads.set_eq_some h with ⟨-, rfl⟩ | ⟨-, h⟩
    · exact hp.mono le_rfl fun _ _ => rfl
    · exact (hinv.readers i' p' h).mono le_rfl fun _ _ => rfl
  writers := hinv.writers

/-- A step of a change that drops no deletion it owes, except of keys that are not cached. -/
theorem Coherent.setWriter (hinv : Coherent D s) {j : Nat} {w w' : Writer δ κ} {cache : Store κ ν}
    (hw : s.writers j = some w) (hversion : w'.version = w.version)
    (hcache : ∀ k v, cache.get s.now k = some v → s.cache.get s.now k = some v ∧
      (s.Changes D w.version k → w.lookups ≠ [] ∨ k ∈ w.keys → w'.lookups ≠ [] ∨ k ∈ w'.keys)) :
    Coherent D { s.setWriter j w' with cache := cache } where
  cache := by
    intro k v hget
    obtain ⟨hold, hkeep⟩ := hcache k v hget
    refine (hinv.cache k v hold).mono rfl rfl ?_
    rintro c hchange ⟨j', u, hu, rfl, howes⟩
    by_cases hj : j' = j
    · subst hj
      obtain rfl : w = u := Option.some.inj (hw.symm.trans hu)
      exact ⟨j', w', Threads.set_self _ _ _, hversion, hkeep hchange howes⟩
    · exact ⟨j', u, by rw [← hu]; exact Threads.set_ne _ hj _, rfl, howes⟩
  readers := fun i p h => (hinv.readers i p h).mono le_rfl fun _ _ => rfl
  writers := by
    intro j' u hu
    rcases Threads.set_eq_some hu with ⟨-, rfl⟩ | ⟨-, hu⟩
    · rw [hversion]
      exact hinv.writers j w hw
    · exact hinv.writers j' u hu

theorem Coherent.change (hinv : Coherent D s) {j : Nat} {m : μ} (free : s.writers j = none)
    (horder : Orderly D s (.change j m)) :
    Coherent D ((s.commit (D.apply m s.current)).setWriter j
      ⟨s.version + 1, D.lookups m, D.keys m, false⟩) := by
  have hold : ∀ n ≤ s.version, (s.commit (D.apply m s.current)).source n = s.source n :=
    fun n hn => if_neg (Nat.ne_of_lt (Nat.lt_succ_of_le hn))
  have hnew : (s.commit (D.apply m s.current)).source (s.version + 1) = D.apply m s.current :=
    if_pos rfl
  refine ⟨?_, ?_, ?_⟩
  · intro k v hget
    obtain ⟨r, hr, hval, howes⟩ := hinv.cache k v hget
    have hval' := hval.trans (congrArg (D.value · k) (hold r hr)).symm
    refine ⟨r, Nat.le_succ_of_le hr, hval', ?_⟩
    intro c hc hcv hchange
    rcases Nat.lt_or_eq_of_le hcv with hlt | rfl
    · -- an earlier change of the key
      have hcv : c ≤ s.version := Nat.lt_succ_iff.mp hlt
      have hchange : s.Changes D c k := by
        intro heq
        refine hchange ?_
        have h₁ := hold (c - 1) ((Nat.sub_le c 1).trans hcv)
        have h₂ := hold c hcv
        exact (congrArg (D.value · k) h₁).trans (heq.trans (congrArg (D.value · k) h₂).symm)
      obtain ⟨j', w, hw, hversion, hkeys⟩ := howes c hc hcv hchange
      have hj : j' ≠ j := by
        rintro rfl
        rw [free] at hw
        cases hw
      exact ⟨j', w, by rw [← hw]; exact Threads.set_ne _ hj _, hversion, hkeys⟩
    · -- the change that is made now
      refine ⟨j, _, Threads.set_self _ _ _, rfl, ?_⟩
      by_cases hl : D.lookups m = []
      · have hcached : s.Cached k := Option.isSome_iff_exists.mpr ⟨v, hget⟩
        refine Or.inr (horder hl k hcached fun heq => hchange ?_)
        have h₁ := hold s.version le_rfl
        exact (congrArg (D.value · k) h₁).trans (heq.trans (congrArg (D.value · k) hnew).symm)
      · exact Or.inl hl
  · exact fun i p h => (hinv.readers i p h).mono (Nat.le_succ _) hold
  · intro j' w hw
    rcases Threads.set_eq_some hw with ⟨-, rfl⟩ | ⟨-, hw⟩
    · exact le_rfl
    · exact Nat.le_succ_of_le (hinv.writers j' w hw)

variable [DecidableEq κ] {act : Action κ μ}

theorem coherent_step (hinv : Coherent D s) (horder : Orderly D s act) (h : Step D s act s') :
    Coherent D s' := by
  cases h with
  | tick h => exact ⟨fun k v hget => hinv.cache k v (Store.get_of_le h hget), hinv.readers,
      hinv.writers⟩
  | change free => exact hinv.change free horder
  | @lookup j w l ls hw hl =>
    refine hinv.setWriter hw rfl fun k v hget => ⟨hget, fun hchange _ => ?_⟩
    cases ls with
    | nil => exact Or.inr (horder w l hw hl k (Option.isSome_iff_exists.mpr ⟨v, hget⟩) hchange)
    | cons l' ls => exact Or.inl (List.cons_ne_nil _ _)
  | @delete j w k ks hw hl hk =>
    refine hinv.setWriter hw rfl fun k' v hget => ?_
    have hne : k' ≠ k := by
      rintro rfl
      rw [Store.get_del_self] at hget
      cases hget
    rw [Store.get_del_ne _ _ hne] at hget
    refine ⟨hget, fun _ howes => howes.imp_right fun hmem => ?_⟩
    rw [hk] at hmem
    exact (List.mem_cons.mp hmem).resolve_left hne
  | ret hw hl hk => exact hinv.setWriter hw rfl fun k v hget => ⟨hget, fun _ howes => howes⟩
  | @hit i k since v free hsince hget =>
    refine hinv.setReader ((hinv.cache k v hget).noOlder (hinv.returned_le hsince) ?_)
    exact horder (Option.isSome_iff_exists.mpr ⟨v, hget⟩)
  | miss free hsince hget => exact hinv.setReader (hinv.returned_le hsince)
  | @readFirst i k since hr =>
    have hsince : since ≤ s.version := hinv.readers _ _ hr
    exact hinv.setReader hsince
  | @readSecond i k since x hr =>
    have hsince : since ≤ s.version := hinv.readers _ _ hr
    refine hinv.setReader ⟨hsince, le_rfl, ?_⟩
    rw [← horder k since x hr]
    rfl
  | @store i k since seen v hr =>
    obtain ⟨hsince, hseen, hval⟩ := hinv.readers _ _ hr
    have hdone : s.NoOlder D k since v := ⟨seen, hsince, hseen, hval⟩
    have hinv' := hinv.setReader (i := i) (p := .done k since v) hdone
    refine ⟨?_, hinv'.readers, hinv'.writers⟩
    intro k' v' hget
    have hget : (s.cache.setEx s.now k v D.ttl).get s.now k' = some v' := hget
    by_cases hk : k' = k
    · subst hk
      rw [Store.get_setEx_self] at hget
      split at hget
      · cases hget
        exact ⟨seen, hseen, hval, horder k' since v seen hr⟩
      · cases hget
    · rw [Store.get_setEx_ne _ _ _ hk] at hget
      exact hinv'.cache k' v' hget

/-- In an orderly run, a check uses a value no older than any change that had returned before. -/
theorem value_no_older {d : δ} {acts : List (Action κ μ)}
    (hrun : Steps (fun s act s' => Orderly D s act ∧ Step D s act s') (.start d) acts s)
    {i : Nat} {k : κ} {since : Nat} {v : ν} (hdone : s.readers i = some (.done k since v)) :
    s.NoOlder D k since v := by
  have hinv : Coherent D s := hrun.invariant (I := Coherent D)
    (fun s act s' hinv h => coherent_step hinv h.1 h.2) (coherent_start d)
  exact hinv.readers i _ hdone

/-- A check that misses and is not interrupted is orderly, and uses the current value. -/
theorem steps_load {i : Nat} {k : κ} {since : Nat} (free : s.readers i = none)
    (hsince : s.Returned since) (hget : s.cache.get s.now k = none) :
    Steps (fun s act s' => Orderly D s act ∧ Step D s act s') s
      [.check i k since, .readFirst i, .readSecond i, .store i]
      { s.setReader i (.done k since (D.value s.current k)) with
        cache := s.cache.setEx s.now k (D.value s.current k) D.ttl } := by
  have hfirst : Step D (s.setReader i (.missed k since)) (.readFirst i)
      (s.setReader i (.half k since (D.first s.current k))) := by
    have h := Step.readFirst (D := D) (s := s.setReader i (.missed k since))
      (Threads.set_self _ _ _)
    rwa [Sys.setReader_setReader] at h
  have hsecond : Step D (s.setReader i (.half k since (D.first s.current k))) (.readSecond i)
      (s.setReader i (.loaded k since (D.value s.current k) s.version)) := by
    have h := Step.readSecond (D := D) (s := s.setReader i (.half k since (D.first s.current k)))
      (Threads.set_self _ _ _)
    rwa [Sys.setReader_setReader] at h
  have hstore := Step.store (D := D)
    (s := s.setReader i (.loaded k since (D.value s.current k) s.version)) (Threads.set_self _ _ _)
  rw [Sys.setReader_setReader] at hstore
  refine .cons ⟨?_, .miss free hsince hget⟩ (.cons ⟨trivial, hfirst⟩
    (.cons ⟨?_, hsecond⟩ (.single ⟨?_, hstore⟩)))
  · intro hcached
    rw [Sys.Cached, hget] at hcached
    cases hcached
  · intro k' since' x' h
    cases (Threads.set_self _ _ _).symm.trans h
    rfl
  · -- nothing has changed since the reads
    intro k' since' v' seen h c hc hcv
    cases (Threads.set_self _ _ _).symm.trans h
    exact absurd hcv (Nat.not_le_of_lt hc)

/-- A change that has nothing to look up deletes its keys and returns. -/
theorem steps_return {j n : Nat} {ks : List κ} (hw : s.writers j = some ⟨n, [], ks, false⟩) :
    Steps (fun s act s' => Orderly D s act ∧ Step D s act s') s
      (ks.map (fun _ => .delete j) ++ [.ret j])
      { s.setWriter j ⟨n, [], [], true⟩ with cache := ks.foldl Store.del s.cache } := by
  induction ks generalizing s with
  | nil => exact .single ⟨trivial, .ret hw rfl rfl⟩
  | cons k ks ih =>
    have hrest := ih (s := { s.setWriter j ⟨n, [], ks, false⟩ with cache := s.cache.del k })
      (Threads.set_self _ _ _)
    refine .cons ⟨trivial, .delete hw rfl rfl⟩ ?_
    unfold Sys.setWriter at hrest
    rwa [Threads.set_set] at hrest

end Invariant

end Lib.CacheAside
