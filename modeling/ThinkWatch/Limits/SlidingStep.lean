import ThinkWatch.Lib.Keyed
import ThinkWatch.Limits.Sliding

/-!
# What one script call does to one counter

With distinct keys in a call, `LUA_ADMIT` acts on each counter alone: it drops the stale buckets
of the counter, and, when every counter has room, adds the charge to the current bucket
(`luaAdmit_allowed_entry`, `luaAdmit_refused_entry`). The call is allowed exactly when every live
sum is below its limit (`luaAdmit_allowed_iff`).
-/

namespace ThinkWatch.Limits

open Lib

/-! ## Sums over a range of buckets -/

namespace Hash

/-- The sum of a list of entries over a range of buckets. -/
def sumRange (l : List (Field × Int)) (lo hi : Int) : Int :=
  ((l.filter (fun e => e.1.inRange lo hi)).map Prod.snd).sum

theorem sumIn_eq (h : Hash) (lo hi : Int) : h.sumIn lo hi = sumRange h.fields lo hi := rfl

@[simp] theorem sumIn_empty (lo hi : Int) : empty.sumIn lo hi = 0 := rfl

theorem sumRange_cons (e : Field × Int) (l : List (Field × Int)) (lo hi : Int) :
    sumRange (e :: l) lo hi = (if e.1.inRange lo hi then e.2 else 0) + sumRange l lo hi := by
  unfold sumRange
  rw [List.filter_cons]
  split <;> simp

theorem sumRange_append (l l' : List (Field × Int)) (lo hi : Int) :
    sumRange (l ++ l') lo hi = sumRange l lo hi + sumRange l' lo hi := by
  simp [sumRange]

theorem map_incr_of_not_mem {l : List (Field × Int)} {f : Field} (hf : f ∉ l.map Prod.fst)
    (n : Int) : l.map (fun e => if e.1 = f then (e.1, e.2 + n) else e) = l := by
  have hid : ∀ e ∈ l, (if e.1 = f then (e.1, e.2 + n) else e) = e := by
    intro e he
    have hne : e.1 ≠ f := by
      rintro rfl
      exact hf (List.mem_map_of_mem he)
    exact if_neg hne
  rw [List.map_congr_left hid, List.map_id']

theorem sumRange_map_incr (f : Field) (n lo hi : Int) : ∀ l : List (Field × Int),
    (l.map Prod.fst).Nodup → f ∈ l.map Prod.fst →
    sumRange (l.map (fun e => if e.1 = f then (e.1, e.2 + n) else e)) lo hi
      = sumRange l lo hi + (if f.inRange lo hi then n else 0)
  | [], _, hf => by simp at hf
  | e :: l, hnd, hf => by
    rw [List.map_cons, List.nodup_cons] at hnd
    rw [List.map_cons, sumRange_cons, sumRange_cons]
    by_cases he : e.1 = f
    · rw [if_pos he, map_incr_of_not_mem (he ▸ hnd.1), ← he]
      split <;> omega
    · have hf' : f ∈ l.map Prod.fst := by
        rcases List.mem_cons.mp hf with h | h
        · exact absurd h.symm he
        · exact h
      rw [if_neg he, sumRange_map_incr f n lo hi l hnd.2 hf']
      omega

/-- `HINCRBY` adds to every range that holds the field, and to no other. -/
theorem sumIn_incr (h : Hash) (f : Field) (n lo hi : Int) :
    (h.incr f n).sumIn lo hi = h.sumIn lo hi + (if f.inRange lo hi then n else 0) := by
  rw [sumIn_eq, sumIn_eq]
  show sumRange (incrFields h.fields f n) lo hi = _
  unfold incrFields
  split
  · next hf => exact sumRange_map_incr f n lo hi _ h.nodup hf
  · rw [sumRange_append, sumRange_cons]
    simp [sumRange]

theorem sumRange_filter {p : Field × Int → Bool} {lo hi : Int} : ∀ {l : List (Field × Int)},
    (∀ e ∈ l, p e = false → e.1.inRange lo hi = false) →
    sumRange (l.filter p) lo hi = sumRange l lo hi
  | [], _ => rfl
  | e :: l, h => by
    have ih := sumRange_filter (l := l) (fun x hx => h x (by simp [hx]))
    rw [List.filter_cons, sumRange_cons]
    cases hp : p e with
    | true => rw [if_pos rfl, sumRange_cons, ih]
    | false =>
      rw [if_neg (by simp), ih, h e (by simp) hp]
      simp

/-- Deleting fields outside a range leaves its sum alone. -/
theorem sumIn_without {h : Hash} {fs : List Field} {lo hi : Int}
    (hfs : ∀ f ∈ fs, f.inRange lo hi = false) : (h.without fs).sumIn lo hi = h.sumIn lo hi := by
  refine sumRange_filter fun e _ he => hfs e.1 ?_
  simpa using he

end Hash

/-! ## The scan of one hash -/

/-- The fields the script deletes: not a number, or older than the window. -/
def Field.stale (oldest : Int) : Field → Bool
  | .bucket b => decide (b < oldest)
  | .other _ => true

/-- A stale field is outside every range that starts in the window. -/
theorem Field.inRange_of_stale {f : Field} {oldest lo hi : Int} (h : f.stale oldest = true)
    (hlo : oldest ≤ lo) : f.inRange lo hi = false := by
  cases f with
  | other _ => rfl
  | bucket b =>
    simp only [Field.stale, decide_eq_true_eq] at h
    simp only [Field.inRange, Bool.and_eq_false_iff, decide_eq_false_iff_not]
    omega

theorem foldl_scanField (oldest current : Int) : ∀ (l : List (Field × Int)) (acc : Scan),
    (l.foldl (scanField oldest current) acc).sum
        = acc.sum + Hash.sumRange l oldest current ∧
      (l.foldl (scanField oldest current) acc).stale
        = acc.stale ++ (l.filter (fun e => e.1.stale oldest)).map Prod.fst
  | [], acc => by simp [Hash.sumRange]
  | (f, v) :: l, acc => by
    rw [List.foldl_cons, Hash.sumRange_cons, List.filter_cons]
    obtain ⟨hsum, hstale⟩ := foldl_scanField oldest current l (scanField oldest current acc (f, v))
    rw [hsum, hstale]
    cases f with
    | other _ => simp [scanField, Field.inRange, Field.stale]
    | bucket b =>
      by_cases hold : b < oldest
      · have hr : ¬ oldest ≤ b := by omega
        simp [scanField, Field.inRange, Field.stale, hold, hr]
      · have hr : oldest ≤ b := by omega
        by_cases hcur : b ≤ current
        · simp [scanField, Field.inRange, Field.stale, hold, hr, hcur]
          omega
        · simp [scanField, Field.inRange, Field.stale, hold, hr, hcur]

/-- `sum` is the sum of the window. -/
theorem scan_sum (oldest current : Int) (h : Hash) :
    (scan oldest current h).sum = h.sumIn oldest current := by
  have := (foldl_scanField oldest current h.fields ⟨[], [], 0⟩).1
  simpa [scan, Hash.sumIn_eq] using this

/-- `stale` lists the stale fields. -/
theorem scan_stale (oldest current : Int) (h : Hash) :
    (scan oldest current h).stale = (h.fields.filter (fun e => e.1.stale oldest)).map Prod.fst := by
  have := (foldl_scanField oldest current h.fields ⟨[], [], 0⟩).2
  simpa [scan] using this

theorem stale_of_mem_scan {oldest current : Int} {h : Hash} {f : Field}
    (hf : f ∈ (scan oldest current h).stale) : f.stale oldest = true := by
  rw [scan_stale] at hf
  obtain ⟨e, he, rfl⟩ := List.mem_map.mp hf
  exact (List.mem_filter.mp he).2

/-! ## One entry of the store -/

/-- What `HGETALL` reads of an entry. -/
def entryHash (t : Int) : Option (Entry Hash) → Hash
  | none => Hash.empty
  | some e => if e.live t then e.value else Hash.empty

theorem hgetall_eq (s : Redis) (t : Int) (k : String) : hgetall s t k = entryHash t (s k) := by
  unfold hgetall Store.get entryHash
  cases s k with
  | none => rfl
  | some e => by_cases h : e.live t = true <;> simp [h]

/-- The entry after the script has deleted its stale fields. -/
def pruneEntry (t oldest current : Int) : Option (Entry Hash) → Option (Entry Hash)
  | none => none
  | some e =>
    let stale := (scan oldest current (entryHash t (some e))).stale
    if stale.length > 0 then
      if e.live t then
        if (e.value.without stale).fields = [] then none
        else some ⟨e.value.without stale, e.expireAt⟩
      else some e
    else some e

/-- The entry after the script has charged it. -/
def chargeEntry (t : Int) (c : Counter) (e : Option (Entry Hash)) : Option (Entry Hash) :=
  some ⟨(entryHash t e).incr (.bucket (bucketAt c.bucketSecs t)) c.charge,
    some (t + c.bucketSecs * 120 * 1000)⟩

theorem sumIn_of_fields_nil {h : Hash} (hf : h.fields = []) (lo hi : Int) : h.sumIn lo hi = 0 := by
  simp [Hash.sumIn_eq, Hash.sumRange, hf]

/-- Pruning does not change what any later read of the window sees. -/
theorem sumIn_pruneEntry (t t' oldest current : Int) (e : Option (Entry Hash)) {lo hi : Int}
    (hlo : oldest ≤ lo) :
    (entryHash t' (pruneEntry t oldest current e)).sumIn lo hi = (entryHash t' e).sumIn lo hi := by
  cases e with
  | none => rfl
  | some e =>
    have hkeep : (e.value.without (scan oldest current (entryHash t (some e))).stale).sumIn lo hi
        = e.value.sumIn lo hi :=
      Hash.sumIn_without fun f hf => Field.inRange_of_stale (stale_of_mem_scan hf) hlo
    rw [pruneEntry]
    generalize (scan oldest current (entryHash t (some e))).stale = stale at hkeep
    split
    · split
      · split
        · next hnil =>
          rw [sumIn_of_fields_nil hnil] at hkeep
          by_cases hl : e.live t' = true
          · simp [entryHash, hl, ← hkeep]
          · simp [entryHash, hl]
        · have hlive : (⟨e.value.without stale, e.expireAt⟩ : Entry Hash).live t' = e.live t' := rfl
          simp only [entryHash, hlive]
          split
          · exact hkeep
          · rfl
      · rfl
    · rfl

theorem sumIn_chargeEntry (t t' : Int) (c : Counter) (e : Option (Entry Hash)) (lo hi : Int) :
    (entryHash t' (chargeEntry t c e)).sumIn lo hi =
      if t' ≤ t + c.bucketSecs * 120 * 1000 then
        (entryHash t e).sumIn lo hi
          + (if (Field.bucket (bucketAt c.bucketSecs t)).inRange lo hi then c.charge else 0)
      else 0 := by
  by_cases h : t' ≤ t + c.bucketSecs * 120 * 1000
  · simp [entryHash, chargeEntry, Entry.live, h, Hash.sumIn_incr]
  · simp [entryHash, chargeEntry, Entry.live, h]

/-! ## The commands act at one key -/

theorem hdel_ne (s : Redis) (t : Int) {k k' : String} (h : k' ≠ k) (fs : List Field) :
    hdel s t k fs k' = s k' := by
  unfold hdel
  cases s k with
  | none => rfl
  | some e =>
    by_cases hl : e.live t = true
    · simp only [hl, if_true]; exact Store.put_ne s h _
    · simp only [hl]; rfl

theorem hincrby_eq (s : Redis) (t : Int) (k : String) (f : Field) (n : Int) :
    ∃ d, hincrby s t k f n = s.put k (some ⟨(entryHash t (s k)).incr f n, d⟩) ∧
      (⟨(entryHash t (s k)).incr f n, d⟩ : Entry Hash).live t = true := by
  unfold hincrby
  cases hk : s k with
  | none => exact ⟨none, rfl, rfl⟩
  | some e =>
    by_cases hl : e.live t = true
    · refine ⟨e.expireAt, by simp [hl, entryHash], ?_⟩
      exact hl
    · exact ⟨none, by simp [hl, entryHash], rfl⟩

/-- `HINCRBY` followed by `EXPIRE` is the charged entry. -/
theorem hincrby_expire (s : Redis) (t : Int) (c : Counter) :
    (hincrby s t c.key (.bucket (bucketAt c.bucketSecs t)) c.charge).expire t c.key
        (c.bucketSecs * 120 * 1000)
      = (fun k => if k = c.key then chargeEntry t c (s c.key) else s k) := by
  obtain ⟨d, hput, hl⟩ := hincrby_eq s t c.key (.bucket (bucketAt c.bucketSecs t)) c.charge
  have hget : (s.put c.key (some ⟨(entryHash t (s c.key)).incr
      (.bucket (bucketAt c.bucketSecs t)) c.charge, d⟩)).get t c.key
      = some ((entryHash t (s c.key)).incr (.bucket (bucketAt c.bucketSecs t)) c.charge) := by
    simp [Store.get, hl]
  rw [hput]
  simp only [Store.expire, hget]
  funext k
  by_cases hk : k = c.key
  · subst hk; simp [Store.setEx, chargeEntry]
  · simp [Store.setEx, Store.put, hk]

/-! ## The first loop -/

/-- The live sum of a counter: the last sixty buckets. -/
def liveSum (s : Redis) (t : Int) (c : Counter) : Int :=
  (hgetall s t c.key).sumIn (bucketAt c.bucketSecs t - 59) (bucketAt c.bucketSecs t)

theorem checkRule_store (t : Int) (acc : Pass) (c : Counter) :
    (checkRule t acc c).store =
      let sc := scan (bucketAt c.bucketSecs t - 59) (bucketAt c.bucketSecs t)
        (hgetall acc.store t c.key)
      if sc.stale.length > 0 then hdel acc.store t c.key sc.stale else acc.store := by
  unfold checkRule
  dsimp only
  split
  · split <;> rfl
  · rfl

theorem checkRule_sums (t : Int) (acc : Pass) (c : Counter) :
    (checkRule t acc c).sums = acc.sums ++ [liveSum acc.store t c] := by
  unfold checkRule liveSum
  dsimp only
  rw [scan_sum]
  split
  · split <;> rfl
  · rfl

/-- The loop that looks for room never goes below the bucket it starts at. -/
theorem le_roomBucket (counts : List (Int × Int)) (need : Int) : ∀ (n : Nat) (freed b : Int),
    b ≤ roomBucket counts need n freed b
  | 0, _, _ => Int.le_refl _
  | n + 1, freed, b => by
    rw [roomBucket]
    split
    · exact Int.le_refl _
    · have := le_roomBucket counts need n (freed + (counts.lookup b).getD 0) (b + 1)
      omega

/-- The instant a bucket of the window leaves it is still to come. -/
theorem wait_pos {w t b : Int} (hw : 1 ≤ w) (hb : bucketAt w t - 59 ≤ b) :
    0 < (b + 60) * w * 1000 - t := by
  have h1 : t / 1000 < (bucketAt w t + 1) * w := by
    have := Int.lt_ediv_add_one_mul_self (t / 1000) (show 0 < w by omega)
    exact this
  have h2 : (bucketAt w t + 1) * w ≤ (b + 60) * w :=
    Int.mul_le_mul_of_nonneg_right (by omega) (by omega)
  omega

/-- `limiting` and `wait_ms` are set together. -/
def Pass.Consistent (p : Pass) : Prop :=
  0 ≤ p.waitMs ∧ (0 < p.limiting ↔ 0 < p.waitMs)

theorem checkRule_limiting {t : Int} {acc : Pass} {c : Counter} (hw : 1 ≤ c.bucketSecs)
    (h : acc.Consistent) :
    (checkRule t acc c).Consistent ∧
      (0 < (checkRule t acc c).limiting ↔
        0 < acc.limiting ∨ c.maxCount ≤ liveSum acc.store t c) := by
  obtain ⟨h0, hiff⟩ := h
  unfold checkRule
  dsimp only
  rw [scan_sum]
  have hfold : (hgetall acc.store t c.key).sumIn (bucketAt c.bucketSecs t - 59)
      (bucketAt c.bucketSecs t) = liveSum acc.store t c := rfl
  rw [hfold]
  split
  · next hfull =>
    have hpos := wait_pos (t := t) hw (le_roomBucket
      (scan (bucketAt c.bucketSecs t - 59) (bucketAt c.bucketSecs t)
        (hgetall acc.store t c.key)).counts
      (liveSum acc.store t c - c.maxCount + 1) 59 0 (bucketAt c.bucketSecs t - 59))
    split
    · next hgt =>
      have hlen : 0 < ((acc.sums ++ [liveSum acc.store t c]).length : Int) := by
        simp only [List.length_append, List.length_cons, List.length_nil]
        omega
      refine ⟨⟨Int.le_of_lt hpos, fun _ => hpos, fun _ => hlen⟩, fun _ => Or.inr hfull,
        fun _ => hlen⟩
    · next hle =>
      have hl : 0 < acc.limiting := hiff.mpr (by omega)
      exact ⟨⟨h0, hiff⟩, fun h => Or.inl h, fun _ => hl⟩
  · next hroom =>
    refine ⟨⟨h0, hiff⟩, fun h => Or.inl h, ?_⟩
    rintro (h | h)
    · exact h
    · exact absurd h hroom

/-- The first loop acts at each counter's key, by pruning it. -/
theorem checkRule_acts (t : Int) :
    ActsAtKey (fun p k => p.store k) Counter.key (checkRule t)
      (fun c e => pruneEntry t (bucketAt c.bucketSecs t - 59) (bucketAt c.bucketSecs t) e) where
  other := by
    intro p c k hk
    show (checkRule t p c).store k = p.store k
    rw [checkRule_store]
    dsimp only
    split
    · exact hdel_ne _ _ hk _
    · rfl
  self := by
    intro p c
    show (checkRule t p c).store c.key = _
    rw [checkRule_store]
    dsimp only
    rw [hgetall_eq]
    cases hk : p.store c.key with
    | none =>
      have hnil : (scan (bucketAt c.bucketSecs t - 59) (bucketAt c.bucketSecs t)
          (entryHash t none)).stale = [] := rfl
      rw [hnil]
      exact hk
    | some e =>
      simp only [pruneEntry]
      split
      · next hst =>
        by_cases hl : e.live t = true
        · simp [hdel, hk, hl]
        · simp [hdel, hk, hl]
      · exact hk

/-- What the first loop leaves: the sums, and whether some counter was full. -/
theorem foldl_checkRule (t : Int) (s : Redis) : ∀ (cs : List Counter) (acc : Pass),
    (cs.map Counter.key).Nodup → (∀ c ∈ cs, 1 ≤ c.bucketSecs) → acc.Consistent →
    (∀ c ∈ cs, acc.store c.key = s c.key) →
    (cs.foldl (checkRule t) acc).sums = acc.sums ++ cs.map (liveSum s t) ∧
      (0 < (cs.foldl (checkRule t) acc).limiting ↔
        0 < acc.limiting ∨ ∃ c ∈ cs, c.maxCount ≤ liveSum s t c)
  | [], acc, _, _, _, _ => by simp
  | c :: cs, acc, hnd, hw, hcons, hagree => by
    rw [List.map_cons, List.nodup_cons] at hnd
    have hsum : liveSum acc.store t c = liveSum s t c := by
      unfold liveSum
      rw [hgetall_eq, hgetall_eq, hagree c (by simp)]
    obtain ⟨hcons', hlim⟩ := checkRule_limiting (t := t) (hw c (by simp)) hcons
    have hagree' : ∀ d ∈ cs, (checkRule t acc c).store d.key = s d.key := by
      intro d hd
      have hne : d.key ≠ c.key := fun he => hnd.1 (he ▸ List.mem_map_of_mem hd)
      rw [← hagree d (by simp [hd])]
      exact (checkRule_acts t).other acc c d.key hne
    obtain ⟨ihs, ihl⟩ := foldl_checkRule t s cs (checkRule t acc c) hnd.2
      (fun d hd => hw d (by simp [hd])) hcons' hagree'
    rw [List.foldl_cons]
    refine ⟨?_, ?_⟩
    · rw [ihs, checkRule_sums, hsum]
      simp
    · rw [ihl, hlim, hsum]
      simp only [List.mem_cons, exists_eq_or_imp, or_assoc]

/-! ## The charging loop -/

theorem chargeRule_acts (t : Int) :
    ActsAtKey (fun (p : Redis × List Int) k => p.1 k) (fun c : Counter × Int => c.1.key)
      (chargeRule t) (fun c e => if c.1.charge > 0 then chargeEntry t c.1 e else e) where
  other := by
    intro p c k hk
    simp only [chargeRule]
    split
    · rw [hincrby_expire]; exact if_neg hk
    · rfl
  self := by
    intro p c
    simp only [chargeRule]
    split
    · rw [hincrby_expire]; exact if_pos rfl
    · rfl

/-! ## The script -/

section Script

variable {s : Redis} {t : Int} {cs : List Counter}
  (hnd : (cs.map Counter.key).Nodup) (hw : ∀ c ∈ cs, 1 ≤ c.bucketSecs)

/-- The reply says "allowed". -/
def allowed (reply : List Int) : Prop := reply.head? = some 1

instance (reply : List Int) : Decidable (allowed reply) :=
  inferInstanceAs (Decidable (_ = _))

/-- The pass that `luaAdmit` starts from. -/
def firstPass (s : Redis) (t : Int) (cs : List Counter) : Pass :=
  cs.foldl (checkRule t) ⟨s, [], 0, 0⟩

include hnd hw in
theorem firstPass_spec :
    (firstPass s t cs).sums = cs.map (liveSum s t) ∧
      (0 < (firstPass s t cs).limiting ↔ ∃ c ∈ cs, c.maxCount ≤ liveSum s t c) := by
  have h := foldl_checkRule t s cs ⟨s, [], 0, 0⟩ hnd hw ⟨Int.le_refl _, by simp⟩ (fun _ _ => rfl)
  simpa [firstPass] using h

theorem allowed_luaAdmit :
    allowed (luaAdmit s t cs).2 ↔ ¬ 0 < (firstPass s t cs).limiting := by
  unfold luaAdmit firstPass allowed
  dsimp only
  split
  · next h => simpa using h
  · next h => simpa using h

include hnd hw in
/-- A call is allowed exactly when every counter has room. -/
theorem luaAdmit_allowed_iff :
    allowed (luaAdmit s t cs).2 ↔ ∀ c ∈ cs, liveSum s t c < c.maxCount := by
  rw [allowed_luaAdmit, (firstPass_spec hnd hw).2]
  simp only [not_exists, not_and, Int.not_le]

include hnd in
theorem firstPass_store {c : Counter} (hc : c ∈ cs) : (firstPass s t cs).store c.key
    = pruneEntry t (bucketAt c.bucketSecs t - 59) (bucketAt c.bucketSecs t) (s c.key) :=
  (checkRule_acts t).foldl_self cs ⟨s, [], 0, 0⟩ hnd c hc

theorem firstPass_store_other {k : String} (hk : ∀ c ∈ cs, c.key ≠ k) :
    (firstPass s t cs).store k = s k :=
  (checkRule_acts t).foldl_other cs ⟨s, [], 0, 0⟩ hk

/-- A refused call leaves the store of the first loop. -/
theorem luaAdmit_refused_store (h : ¬ allowed (luaAdmit s t cs).2) :
    (luaAdmit s t cs).1 = (firstPass s t cs).store := by
  rw [allowed_luaAdmit, not_not] at h
  unfold luaAdmit
  exact congrArg Prod.fst (if_pos h)

theorem luaAdmit_allowed_store (h : allowed (luaAdmit s t cs).2) :
    (luaAdmit s t cs).1
      = ((cs.zip (firstPass s t cs).sums).foldl (chargeRule t)
          ((firstPass s t cs).store, [])).1 := by
  rw [allowed_luaAdmit] at h
  unfold luaAdmit
  dsimp only
  rw [if_neg (show ¬ (cs.foldl (checkRule t) ⟨s, [], 0, 0⟩).limiting > 0 from h)]
  rfl

/-- A key the call does not name is not touched. -/
theorem luaAdmit_other {k : String} (hk : ∀ c ∈ cs, c.key ≠ k) : (luaAdmit s t cs).1 k = s k := by
  by_cases h : allowed (luaAdmit s t cs).2
  · rw [luaAdmit_allowed_store h]
    have hfold := (chargeRule_acts t).foldl_other (cs.zip (firstPass s t cs).sums)
      ((firstPass s t cs).store, []) (k := k) (fun a ha => hk a.1 (List.of_mem_zip ha).1)
    exact hfold.trans (firstPass_store_other hk)
  · rw [luaAdmit_refused_store h]
    exact firstPass_store_other hk

include hnd in
/-- A refused call prunes each of its counters. -/
theorem luaAdmit_refused_entry (h : ¬ allowed (luaAdmit s t cs).2) {c : Counter} (hc : c ∈ cs) :
    (luaAdmit s t cs).1 c.key
      = pruneEntry t (bucketAt c.bucketSecs t - 59) (bucketAt c.bucketSecs t) (s c.key) := by
  rw [luaAdmit_refused_store h]
  exact firstPass_store hnd hc

include hnd hw in
/-- An allowed call prunes each of its counters and charges those with a charge. -/
theorem luaAdmit_allowed_entry (h : allowed (luaAdmit s t cs).2) {c : Counter} (hc : c ∈ cs) :
    (luaAdmit s t cs).1 c.key
      = let e := pruneEntry t (bucketAt c.bucketSecs t - 59) (bucketAt c.bucketSecs t) (s c.key)
        if c.charge > 0 then chargeEntry t c e else e := by
  have hlen : cs.length = (firstPass s t cs).sums.length := by
    rw [(firstPass_spec hnd hw).1, List.length_map]
  have hmap : (cs.zip (firstPass s t cs).sums).map Prod.fst = cs :=
    List.map_fst_zip (Nat.le_of_eq hlen)
  have hnd' : ((cs.zip (firstPass s t cs).sums).map (fun c => c.1.key)).Nodup := by
    have : (cs.zip (firstPass s t cs).sums).map (fun c => c.1.key)
        = ((cs.zip (firstPass s t cs).sums).map Prod.fst).map Counter.key := by
      rw [List.map_map]; rfl
    rw [this, hmap]
    exact hnd
  obtain ⟨p, hp, rfl⟩ : ∃ p ∈ cs.zip (firstPass s t cs).sums, p.1 = c := by
    rw [← hmap] at hc
    exact List.mem_map.mp hc
  rw [luaAdmit_allowed_store h]
  have hfold := (chargeRule_acts t).foldl_self _ ((firstPass s t cs).store, []) hnd' p hp
  dsimp only at hfold ⊢
  rw [hfold, firstPass_store hnd hc]

end Script

end ThinkWatch.Limits
