import Mathlib.Tactic.Common

/-!
# A key-value store whose entries expire

Times are integer milliseconds of one clock. An entry written with a time to live is there up
to and including its deadline, and gone after it. Deleting expired entries early or late makes
no difference to a reader, so the store keeps them and `get` looks at the deadline.
-/

namespace Lib

/-- A stored value and the last millisecond at which it is still there (`none` = for ever). -/
structure Entry (ν : Type*) where
  value : ν
  expireAt : Option Int

/-- `e` has not expired at time `t`. -/
def Entry.live {ν : Type*} (e : Entry ν) (t : Int) : Bool :=
  match e.expireAt with
  | none => true
  | some d => decide (t ≤ d)

/-- The store: what is written under each key. -/
def Store (κ ν : Type*) := κ → Option (Entry ν)

namespace Store

variable {κ ν : Type*}

/-- The store with nothing in it. -/
def empty : Store κ ν := fun _ => none

/-- What a read at time `t` finds. -/
def get (s : Store κ ν) (t : Int) (k : κ) : Option ν :=
  match s k with
  | none => none
  | some e => if e.live t then some e.value else none

theorem get_congr {s s' : Store κ ν} {k : κ} (h : s k = s' k) (t : Int) :
    s.get t k = s'.get t k := by
  unfold get
  rw [h]

theorem get_eq_some {s : Store κ ν} {t : Int} {k : κ} {v : ν} :
    s.get t k = some v ↔ ∃ e, s k = some e ∧ e.live t = true ∧ e.value = v := by
  unfold get
  cases s k with
  | none => simp
  | some e => simp

/-- An entry is read up to its deadline. -/
theorem get_of_le_deadline {s : Store κ ν} {t d : Int} {k : κ} {v : ν}
    (h : s k = some ⟨v, some d⟩) (ht : t ≤ d) : s.get t k = some v :=
  get_eq_some.mpr ⟨_, h, decide_eq_true ht, rfl⟩

/-- And not after it. -/
theorem get_of_deadline_lt {s : Store κ ν} {t d : Int} {k : κ} {v : ν}
    (h : s k = some ⟨v, some d⟩) (ht : d < t) : s.get t k = none := by
  have hlive : (⟨v, some d⟩ : Entry ν).live t = false := decide_eq_false (Int.not_le.mpr ht)
  simp only [get, h, hlive, Bool.false_eq_true, if_false]

/-- What is there now was there before. -/
theorem get_of_le {s : Store κ ν} {t t' : Int} {k : κ} {v : ν} (ht : t ≤ t')
    (h : s.get t' k = some v) : s.get t k = some v := by
  obtain ⟨e, he, hlive, hv⟩ := get_eq_some.mp h
  refine get_eq_some.mpr ⟨e, he, ?_, hv⟩
  unfold Entry.live at hlive ⊢
  cases hd : e.expireAt with
  | none => rfl
  | some d =>
    rw [hd] at hlive
    exact decide_eq_true (Int.le_trans ht (of_decide_eq_true hlive))

@[simp] theorem get_empty (t : Int) (k : κ) : (empty : Store κ ν).get t k = none := rfl

/-! ## Commands -/

variable [DecidableEq κ]

/-- Replace what is under one key. -/
def put (s : Store κ ν) (k : κ) (e : Option (Entry ν)) : Store κ ν :=
  fun k' => if k' = k then e else s k'

/-- `SET key value EX ttl` at time `t`, the time to live in milliseconds. -/
def setEx (s : Store κ ν) (t : Int) (k : κ) (v : ν) (ttl : Int) : Store κ ν :=
  s.put k (some ⟨v, some (t + ttl)⟩)

/-- `SET key value EX ttl NX`: writes only when the key is absent, and says whether it did. -/
def setNx (s : Store κ ν) (t : Int) (k : κ) (v : ν) (ttl : Int) : Store κ ν × Bool :=
  match s.get t k with
  | some _ => (s, false)
  | none => (s.setEx t k v ttl, true)

/-- `DEL key`. -/
def del (s : Store κ ν) (k : κ) : Store κ ν := s.put k none

/-- `EXPIRE key ttl`: moves the deadline of a present key, does nothing to an absent one. -/
def expire (s : Store κ ν) (t : Int) (k : κ) (ttl : Int) : Store κ ν :=
  match s.get t k with
  | some v => s.setEx t k v ttl
  | none => s

/-- `INCRBY key n`: counts on, or starts a counter that does not expire. -/
def incrBy (s : Store κ Int) (t : Int) (k : κ) (n : Int) : Store κ Int × Int :=
  match s.get t k with
  | some v => (s.put k (some ⟨v + n, (s k).bind Entry.expireAt⟩), v + n)
  | none => (s.put k (some ⟨n, none⟩), n)

/-- `EXPIRE key ttl NX`: gives a deadline to a present key that has none. -/
def expireNx (s : Store κ ν) (t : Int) (k : κ) (ttl : Int) : Store κ ν :=
  match s.get t k, (s k).bind Entry.expireAt with
  | some v, none => s.setEx t k v ttl
  | _, _ => s

/-- `TTL key`, in whole seconds, rounded. -/
def ttl (s : Store κ ν) (t : Int) (k : κ) : Int :=
  match s k with
  | none => -2
  | some e =>
    match e.expireAt with
    | none => -1
    | some d => if d < t then -2 else (d - t + 500) / 1000

/-! ## Reading back -/

@[simp] theorem put_self (s : Store κ ν) (k : κ) (e : Option (Entry ν)) : s.put k e k = e := by
  simp [put]

theorem put_ne (s : Store κ ν) {k k' : κ} (h : k' ≠ k) (e : Option (Entry ν)) :
    s.put k e k' = s k' := by
  simp [put, h]

theorem get_put_ne (s : Store κ ν) {k k' : κ} (h : k' ≠ k) (e : Option (Entry ν)) (t : Int) :
    (s.put k e).get t k' = s.get t k' :=
  get_congr (put_ne s h e) t

/-- A key written with a time to live is read back up to its deadline, and not after. -/
theorem get_setEx_self (s : Store κ ν) (t t' : Int) (k : κ) (v : ν) (ttl : Int) :
    (s.setEx t k v ttl).get t' k = if t' ≤ t + ttl then some v else none := by
  simp [setEx, get, Entry.live]

theorem get_setEx_ne (s : Store κ ν) (t t' : Int) {k k' : κ} (h : k' ≠ k) (v : ν) (ttl : Int) :
    (s.setEx t k v ttl).get t' k' = s.get t' k' :=
  get_put_ne s h _ t'

@[simp] theorem get_del_self (s : Store κ ν) (t : Int) (k : κ) : (s.del k).get t k = none := by
  simp [del, get]

theorem get_del_ne (s : Store κ ν) (t : Int) {k k' : κ} (h : k' ≠ k) :
    (s.del k).get t k' = s.get t k' :=
  get_put_ne s h _ t

theorem setNx_of_none {s : Store κ ν} {t : Int} {k : κ} (h : s.get t k = none) (v : ν)
    (ttl : Int) : s.setNx t k v ttl = (s.setEx t k v ttl, true) := by
  simp [setNx, h]

theorem setNx_of_some {s : Store κ ν} {t : Int} {k : κ} {w : ν} (h : s.get t k = some w) (v : ν)
    (ttl : Int) : s.setNx t k v ttl = (s, false) := by
  simp [setNx, h]

theorem incrBy_ne (s : Store κ Int) (t : Int) {k k' : κ} (h : k' ≠ k) (n : Int) :
    (s.incrBy t k n).1 k' = s k' := by
  unfold incrBy
  cases s.get t k with
  | none => exact put_ne s h _
  | some v => exact put_ne s h _

/-- A counter stands at what its increment returned. -/
theorem incrBy_self (s : Store κ Int) (t : Int) (k : κ) (n : Int) :
    ∃ d, (s.incrBy t k n).1 k = some ⟨(s.incrBy t k n).2, d⟩ := by
  unfold incrBy
  cases s.get t k with
  | none => exact ⟨_, put_self _ _ _⟩
  | some v => exact ⟨_, put_self _ _ _⟩

theorem expireNx_cases (s : Store κ ν) (t : Int) (k : κ) (ttl : Int) :
    s.expireNx t k ttl = s ∨ ∃ v, s.get t k = some v ∧ s.expireNx t k ttl = s.setEx t k v ttl := by
  unfold expireNx
  split
  · next v hv _ => exact Or.inr ⟨v, hv, rfl⟩
  · exact Or.inl rfl

theorem expireNx_ne (s : Store κ ν) (t : Int) {k k' : κ} (h : k' ≠ k) (ttl : Int) :
    s.expireNx t k ttl k' = s k' := by
  rcases s.expireNx_cases t k ttl with heq | ⟨v, -, heq⟩
  · rw [heq]
  · rw [heq]
    exact put_ne s h _

/-- A deadline changes no value. -/
theorem expireNx_value (s : Store κ ν) (t ttl : Int) (k k' : κ) :
    (s.expireNx t k ttl k').map Entry.value = (s k').map Entry.value := by
  by_cases h : k' = k
  · subst h
    rcases s.expireNx_cases t k' ttl with heq | ⟨v, hv, heq⟩
    · rw [heq]
    · obtain ⟨e, he, -, hev⟩ := get_eq_some.mp hv
      simp [heq, setEx, he, hev]
  · rw [expireNx_ne s t h]

theorem expire_ne (s : Store κ ν) (t : Int) {k k' : κ} (h : k' ≠ k) (ttl : Int) :
    s.expire t k ttl k' = s k' := by
  unfold expire
  cases s.get t k with
  | none => rfl
  | some v => exact put_ne s h _

end Store

end Lib
