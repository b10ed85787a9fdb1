import ThinkWatch.Limits.SlidingWindow

/-!
# The wait a refusal reports

`LUA_ADMIT` reports how long the limiting rule has no room. A bucket `b` leaves the window at
`(b + 60) * bucket_secs`, and until then the sum of a counter that nobody writes only falls; so the
rule is full exactly up to the moment at which the bucket found by `roomBucket` leaves, and the
request exactly up to the last such moment of its rules.
-/

namespace ThinkWatch.Limits

open Lib

/-! ## Sums of adjacent ranges -/

namespace Hash

theorem inRange_split {lo m hi : Int} (hlo : lo ≤ m + 1) (hhi : m ≤ hi) (f : Field) (v : Int) :
    (if f.inRange lo hi then v else 0) =
      (if f.inRange lo m then v else 0) + (if f.inRange (m + 1) hi then v else 0) := by
  cases f with
  | other _ => simp [Field.inRange]
  | bucket b =>
    simp only [Field.inRange, Bool.and_eq_true, decide_eq_true_eq]
    split <;> split <;> split <;> omega

theorem sumRange_split {lo m hi : Int} (hlo : lo ≤ m + 1) (hhi : m ≤ hi) (l : List (Field × Int)) :
    sumRange l lo hi = sumRange l lo m + sumRange l (m + 1) hi := by
  induction l with
  | nil => rfl
  | cons e l ih =>
    rw [sumRange_cons, sumRange_cons, sumRange_cons, inRange_split hlo hhi, ih]
    omega

theorem sumRange_nonneg {l : List (Field × Int)} {lo hi : Int}
    (h : ∀ b v, (Field.bucket b, v) ∈ l → 0 ≤ v) : 0 ≤ sumRange l lo hi := by
  induction l with
  | nil => exact Int.le_refl 0
  | cons e l ih =>
    rw [sumRange_cons]
    have hl := ih fun b v hb => h b v (List.mem_cons_of_mem e hb)
    split
    · next hin =>
      obtain ⟨f, v⟩ := e
      cases f with
      | other _ => cases hin
      | bucket b =>
        have := h b v List.mem_cons_self
        dsimp only
        omega
    · omega

/-- Ranges that hold the same buckets of a list have the same sum. -/
theorem sumRange_congr {l : List (Field × Int)} {lo hi lo' hi' : Int}
    (h : ∀ b v, (Field.bucket b, v) ∈ l →
      ((Field.bucket b).inRange lo hi = (Field.bucket b).inRange lo' hi' ∨ v = 0)) :
    sumRange l lo hi = sumRange l lo' hi' := by
  induction l with
  | nil => rfl
  | cons e l ih =>
    rw [sumRange_cons, sumRange_cons, ih fun b v hb => h b v (List.mem_cons_of_mem e hb)]
    obtain ⟨f, v⟩ := e
    cases f with
    | other _ => rfl
    | bucket b =>
      rcases h b v List.mem_cons_self with heq | rfl
      · rw [heq]
      · simp

/-- A range that no bucket of the list is in. -/
theorem sumRange_eq_zero {l : List (Field × Int)} {lo hi : Int}
    (h : ∀ b v, (Field.bucket b, v) ∈ l → (Field.bucket b).inRange lo hi = false) :
    sumRange l lo hi = 0 := by
  induction l with
  | nil => rfl
  | cons e l ih =>
    rw [sumRange_cons, ih fun b v hb => h b v (List.mem_cons_of_mem e hb)]
    obtain ⟨f, v⟩ := e
    cases f with
    | other _ => rfl
    | bucket b => simp [h b v List.mem_cons_self]

theorem sumRange_of_lt {l : List (Field × Int)} {lo hi : Int} (h : hi < lo) :
    sumRange l lo hi = 0 := by
  refine sumRange_eq_zero fun b v _ => ?_
  simp only [Field.inRange, Bool.and_eq_false_iff, decide_eq_false_iff_not]
  omega

end Hash

/-! ## The search for room -/

/-- `counts` has the count of each bucket of the window. -/
theorem lookup_foldl_scanField {oldest current b : Int} (hlo : oldest ≤ b) (hhi : b ≤ current) :
    ∀ (l : List (Field × Int)) (acc : Scan), (l.map Prod.fst).Nodup →
      (Field.bucket b ∈ l.map Prod.fst → acc.counts.lookup b = none) →
      ((l.foldl (scanField oldest current) acc).counts.lookup b).getD 0 =
        Hash.sumRange l b b + (acc.counts.lookup b).getD 0
  | [], acc, _, _ => by simp [Hash.sumRange]
  | (f, v) :: l, acc, hnd, hacc => by
    rw [List.map_cons, List.nodup_cons] at hnd
    rw [List.foldl_cons, Hash.sumRange_cons]
    by_cases hf : f = .bucket b
    · subst hf
      have hstep : scanField oldest current acc (.bucket b, v) =
          { acc with counts := (b, v) :: acc.counts, sum := acc.sum + v } := by
        simp [scanField, Int.not_lt.mpr hlo, hhi]
      have hrest : Hash.sumRange l b b = 0 := by
        refine Hash.sumRange_eq_zero fun b' v' hb' => ?_
        have hne : b' ≠ b := by
          rintro rfl
          exact hnd.1 (List.mem_map.mpr ⟨_, hb', rfl⟩)
        simp only [Field.inRange, Bool.and_eq_false_iff, decide_eq_false_iff_not]
        omega
      rw [lookup_foldl_scanField hlo hhi l _ hnd.2 fun hb => absurd hb hnd.1, hstep, hrest,
        hacc (by simp)]
      simp [Field.inRange]
    · have hkeep : (scanField oldest current acc (f, v)).counts.lookup b =
          acc.counts.lookup b := by
        cases f with
        | other _ => rfl
        | bucket b' =>
          have hne : (b == b') = false := by
            rw [beq_eq_false_iff_ne]
            rintro rfl
            exact hf rfl
          simp only [scanField]
          split
          · rfl
          · split
            · simp [List.lookup_cons, hne]
            · rfl
      have hout : f.inRange b b = false := by
        cases f with
        | other _ => rfl
        | bucket b' =>
          have hne : b' ≠ b := by
            rintro rfl
            exact hf rfl
          simp only [Field.inRange, Bool.and_eq_false_iff, decide_eq_false_iff_not]
          omega
      rw [lookup_foldl_scanField hlo hhi l _ hnd.2, hkeep, hout]
      · simp
      · intro hb
        rw [hkeep]
        exact hacc (List.mem_cons_of_mem f hb)

theorem lookup_scan {oldest current b : Int} (h : Hash) (hlo : oldest ≤ b) (hhi : b ≤ current) :
    ((scan oldest current h).counts.lookup b).getD 0 = h.sumIn b b := by
  have := lookup_foldl_scanField hlo hhi h.fields ⟨[], [], 0⟩ h.nodup fun _ => rfl
  simpa [scan, Hash.sumIn_eq] using this

/--
The bucket with whose leaving there is room: up to it the window holds the need, and up to no
earlier one.
-/
theorem roomBucket_spec {oldest current need : Int} {h : Hash}
    (hall : need ≤ h.sumIn oldest current) : ∀ (n : Nat) (freed b : Int), oldest ≤ b →
    b + n = current → freed = h.sumIn oldest (b - 1) →
    (∀ x, oldest ≤ x → x < b → h.sumIn oldest x < need) →
    let r := roomBucket (scan oldest current h).counts need n freed b
    r ≤ current ∧ need ≤ h.sumIn oldest r ∧ ∀ x, oldest ≤ x → x < r → h.sumIn oldest x < need
  | 0, freed, b, hb, hn, hfreed, hbefore => by
    obtain rfl : b = current := by omega
    exact ⟨Int.le_refl _, hall, hbefore⟩
  | n + 1, freed, b, hb, hn, hfreed, hbefore => by
    have hsplit := @Hash.sumRange_split oldest (b - 1) b (by omega) (by omega) h.fields
    have hsum : freed + ((scan oldest current h).counts.lookup b).getD 0 = h.sumIn oldest b := by
      rw [lookup_scan h hb (by omega), hfreed, Hash.sumIn_eq, Hash.sumIn_eq, Hash.sumIn_eq, hsplit,
        Int.sub_add_cancel]
    simp only [roomBucket]
    rw [hsum]
    split
    · next hneed => exact ⟨by omega, hneed, hbefore⟩
    · next hneed =>
      refine roomBucket_spec hall n _ (b + 1) (by omega) (by omega) (by simp) fun x hlo hx => ?_
      rcases Int.lt_or_eq_of_le (Int.le_of_lt_add_one hx) with hlt | rfl
      · exact hbefore x hlo hlt
      · omega

/-! ## What the scripts keep of a counter -/

/--
What holds of a counter that only these scripts write. No bucket is later than now, no count is
negative, and the key does not go before its buckets leave the window.
-/
structure Kept (w now : Int) (e : Entry Hash) : Prop where
  past : ∀ {b v}, (Field.bucket b, v) ∈ e.value.fields → b ≤ bucketAt w now
  nonneg : ∀ {b v}, (Field.bucket b, v) ∈ e.value.fields → 0 ≤ v
  outlives : ∀ {b v d}, (Field.bucket b, v) ∈ e.value.fields → e.expireAt = some d →
    (b + 60) * w * 1000 ≤ d + 1

/-- `width` is the bucket width of a key; `counter_key` puts the window into the key. -/
def WellKept (width : String → Int) (s : Redis) (now : Int) : Prop :=
  ∀ k e, s k = some e → Kept (width k) now e

section

variable {width : String → Int} {s s' : Redis} {now t : Int} {c : Counter}

theorem bucketAt_lt_iff {w B : Int} (hw : 1 ≤ w) : bucketAt w t < B ↔ t < B * w * 1000 := by
  rw [bucketAt, Int.ediv_lt_iff_lt_mul (by omega), Int.ediv_lt_iff_lt_mul (by decide)]

/-- The counter has no room at `t`. -/
def Full (s : Redis) (t : Int) (c : Counter) : Prop := c.maxCount ≤ liveSum s t c

instance (s : Redis) (t : Int) (c : Counter) : Decidable (Full s t c) :=
  inferInstanceAs (Decidable (_ ≤ _))

/-- Without writes, what is live later is what is live now and has not left the window by then. -/
theorem liveSum_later (hs : WellKept width s now) (hw : c.bucketSecs = width c.key)
    (hpos : 1 ≤ c.bucketSecs) (ht : now ≤ t) :
    liveSum s t c = (hgetall s now c.key).sumIn (bucketAt c.bucketSecs t - 59)
      (bucketAt c.bucketSecs now) := by
  have hmono := bucketAt_mono hpos ht
  unfold liveSum
  rw [hgetall_eq, hgetall_eq]
  cases he : s c.key with
  | none => rfl
  | some e =>
    have hpast : ∀ b v, (Field.bucket b, v) ∈ e.value.fields → b ≤ bucketAt c.bucketSecs now :=
      fun b v hb => hw ▸ (hs _ e he).past hb
    by_cases hnow : e.live now = true
    · have hread : entryHash now (some e) = e.value := if_pos hnow
      rw [hread]
      by_cases hlive : e.live t = true
      · have hread' : entryHash t (some e) = e.value := if_pos hlive
        rw [hread']
        refine Hash.sumRange_congr fun b v hb => Or.inl ?_
        have := hpast b v hb
        simp only [Field.inRange]
        rw [decide_eq_true (show b ≤ bucketAt c.bucketSecs t by omega), decide_eq_true this]
      · -- the key is gone, and so are all its buckets
        have hread' : entryHash t (some e) = Hash.empty := if_neg hlive
        rw [hread', Hash.sumIn_empty]
        symm
        refine Hash.sumRange_eq_zero fun b v hb => ?_
        unfold Entry.live at hlive
        cases hd : e.expireAt with
        | none => simp [hd] at hlive
        | some d =>
          have hgone : d < t := by simpa [hd] using hlive
          have hout := (hs _ e he).outlives hb hd
          rw [← hw] at hout
          have hleft : ¬ bucketAt c.bucketSecs t < b + 60 := by
            rw [bucketAt_lt_iff hpos]
            omega
          simp only [Field.inRange, Bool.and_eq_false_iff, decide_eq_false_iff_not]
          omega
    · have hlive : ¬ e.live t = true := by
        intro hl
        refine hnow ?_
        unfold Entry.live at hl ⊢
        cases hd : e.expireAt with
        | none => rfl
        | some d =>
          rw [hd] at hl
          exact decide_eq_true (Int.le_trans ht (of_decide_eq_true hl))
      have hread : entryHash now (some e) = Hash.empty := if_neg hnow
      have hread' : entryHash t (some e) = Hash.empty := if_neg hlive
      rw [hread, hread', Hash.sumIn_empty, Hash.sumIn_empty]

theorem mem_entryHash {e₀ : Option (Entry Hash)} {f : Field × Int}
    (h : f ∈ (entryHash t e₀).fields) : ∃ e, e₀ = some e ∧ f ∈ e.value.fields := by
  cases e₀ with
  | none => cases h
  | some e =>
    by_cases hlive : e.live t = true
    · have hread : entryHash t (some e) = e.value := if_pos hlive
      exact ⟨e, rfl, hread ▸ h⟩
    · have hread : entryHash t (some e) = Hash.empty := if_neg hlive
      rw [hread] at h
      cases h

theorem mem_hgetall {k : String} {f : Field × Int} (hb : f ∈ (hgetall s now k).fields) :
    ∃ e, s k = some e ∧ f ∈ e.value.fields :=
  mem_entryHash (hgetall_eq s now k ▸ hb)

theorem past_of_hgetall (hs : WellKept width s now) {k : String} {b v : Int}
    (hb : (Field.bucket b, v) ∈ (hgetall s now k).fields) : b ≤ bucketAt (width k) now := by
  obtain ⟨e, he, hmem⟩ := mem_hgetall hb
  exact (hs k e he).past hmem

theorem hgetall_nonneg (hs : WellKept width s now) (k : String) {lo hi : Int} :
    0 ≤ (hgetall s now k).sumIn lo hi := by
  refine Hash.sumRange_nonneg fun b v hb => ?_
  obtain ⟨e, he, hmem⟩ := mem_hgetall hb
  exact (hs k e he).nonneg hmem

/-- Room at a later moment: the buckets that have left by then held at least the need. -/
theorem full_later_iff (hs : WellKept width s now) (hw : c.bucketSecs = width c.key)
    (hpos : 1 ≤ c.bucketSecs) (hmax : 0 < c.maxCount) (ht : now ≤ t) :
    Full s t c ↔ (hgetall s now c.key).sumIn (bucketAt c.bucketSecs now - 59)
        (bucketAt c.bucketSecs t - 60) <
      liveSum s now c - c.maxCount + 1 := by
  have hmono := bucketAt_mono hpos ht
  have hnonneg := @hgetall_nonneg width s now hs c.key
  unfold Full
  rw [liveSum_later hs hw hpos ht]
  unfold liveSum
  rcases Int.lt_or_le (bucketAt c.bucketSecs now) (bucketAt c.bucketSecs t - 60) with hgone | hin
  · -- everything that is live now has left
    have hzero : (hgetall s now c.key).sumIn (bucketAt c.bucketSecs t - 59)
        (bucketAt c.bucketSecs now) = 0 := Hash.sumRange_of_lt (by omega)
    have hall : (hgetall s now c.key).sumIn (bucketAt c.bucketSecs now - 59)
        (bucketAt c.bucketSecs t - 60) = (hgetall s now c.key).sumIn
          (bucketAt c.bucketSecs now - 59) (bucketAt c.bucketSecs now) := by
      refine Hash.sumRange_congr fun b v hb => Or.inl ?_
      have := past_of_hgetall hs hb
      rw [← hw] at this
      simp only [Field.inRange]
      rw [decide_eq_true (show b ≤ bucketAt c.bucketSecs t - 60 by omega), decide_eq_true this]
    rw [hzero, hall]
    omega
  · have hsplit := @Hash.sumRange_split (bucketAt c.bucketSecs now - 59)
      (bucketAt c.bucketSecs t - 60) (bucketAt c.bucketSecs now) (by omega) (by omega)
      (hgetall s now c.key).fields
    rw [← Hash.sumIn_eq, ← Hash.sumIn_eq, ← Hash.sumIn_eq] at hsplit
    rw [hsplit, show bucketAt c.bucketSecs t - 60 + 1 = bucketAt c.bucketSecs t - 59 by omega]
    omega

/-- A full counter stays full until the bucket that `roomBucket` finds has left, and no longer. -/
theorem full_iff_roomBucket (hs : WellKept width s now) (hw : c.bucketSecs = width c.key)
    (hpos : 1 ≤ c.bucketSecs) (hmax : 0 < c.maxCount) (hfull : Full s now c) {h : Hash}
    (hread : ∀ lo hi, bucketAt c.bucketSecs now - 59 ≤ lo →
      h.sumIn lo hi = (hgetall s now c.key).sumIn lo hi) (ht : now ≤ t) :
    Full s t c ↔ t < (roomBucket (scan (bucketAt c.bucketSecs now - 59)
        (bucketAt c.bucketSecs now) h).counts (liveSum s now c - c.maxCount + 1) 59 0
        (bucketAt c.bucketSecs now - 59) + 60) * c.bucketSecs * 1000 := by
  have hmono := bucketAt_mono hpos ht
  have hneed : liveSum s now c - c.maxCount + 1 ≤
      h.sumIn (bucketAt c.bucketSecs now - 59) (bucketAt c.bucketSecs now) := by
    rw [hread _ _ (Int.le_refl _)]
    show liveSum s now c - c.maxCount + 1 ≤ liveSum s now c
    omega
  obtain ⟨-, hroom, hbefore⟩ := roomBucket_spec hneed 59 0 (bucketAt c.bucketSecs now - 59)
    (Int.le_refl _) (by omega) (Hash.sumRange_of_lt (by omega)).symm fun x hlo hx => by omega
  have hfirst := le_roomBucket (scan (bucketAt c.bucketSecs now - 59)
    (bucketAt c.bucketSecs now) h).counts (liveSum s now c - c.maxCount + 1) 59 0
    (bucketAt c.bucketSecs now - 59)
  rw [full_later_iff hs hw hpos hmax ht, ← bucketAt_lt_iff hpos, ← hread _ _ (Int.le_refl _)]
  generalize roomBucket _ _ 59 0 _ = b at hroom hbefore hfirst
  constructor
  · intro hlt
    by_contra hge
    have hsplit := @Hash.sumRange_split (bucketAt c.bucketSecs now - 59) b
      (bucketAt c.bucketSecs t - 60) (by omega) (by omega) h.fields
    have hlater : 0 ≤ h.sumIn (b + 1) (bucketAt c.bucketSecs t - 60) := by
      rw [hread _ _ (by omega)]
      exact hgetall_nonneg hs c.key
    rw [← Hash.sumIn_eq, ← Hash.sumIn_eq, ← Hash.sumIn_eq] at hsplit
    omega
  · intro hlt
    rcases Int.lt_or_le (bucketAt c.bucketSecs t - 60) (bucketAt c.bucketSecs now - 59) with hx | hx
    · have hzero : h.sumIn (bucketAt c.bucketSecs now - 59) (bucketAt c.bucketSecs t - 60) = 0 :=
        Hash.sumRange_of_lt hx
      have hpositive : c.maxCount ≤ liveSum s now c := hfull
      omega
    · exact hbefore _ hx (by omega)

/-- A counter that has room keeps it. -/
theorem not_full_later (hs : WellKept width s now) (hw : c.bucketSecs = width c.key)
    (hpos : 1 ≤ c.bucketSecs) (hmax : 0 < c.maxCount) (h : ¬ Full s now c) (ht : now ≤ t) :
    ¬ Full s t c := by
  have hnonneg := @hgetall_nonneg width s now hs c.key (bucketAt c.bucketSecs now - 59)
    (bucketAt c.bucketSecs t - 60)
  rw [full_later_iff hs hw hpos hmax ht]
  unfold Full at h
  omega

/-! ## The rounds of the first loop -/

/-- From `t` on the two stores have the same live buckets. -/
def Agree (width : String → Int) (t : Int) (s s' : Redis) : Prop :=
  ∀ k t' lo hi, t ≤ t' → bucketAt (width k) t - 59 ≤ lo →
    (hgetall s' t' k).sumIn lo hi = (hgetall s t' k).sumIn lo hi

theorem Agree.refl (s : Redis) : Agree width t s s := fun _ _ _ _ _ _ => rfl

theorem Agree.trans {s'' : Redis} (h : Agree width t s s') (h' : Agree width t s' s'') :
    Agree width t s s'' :=
  fun k t' lo hi ht hlo => (h' k t' lo hi ht hlo).trans (h k t' lo hi ht hlo)

theorem Agree.liveSum (h : Agree width now s s') (hw : c.bucketSecs = width c.key)
    (hpos : 1 ≤ c.bucketSecs) (ht : now ≤ t) : liveSum s' t c = liveSum s t c := by
  have hmono := bucketAt_mono hpos ht
  exact h c.key t _ _ ht (by rw [← hw]; omega)

theorem agree_checkRule (hw : c.bucketSecs = width c.key) (p : Pass) :
    Agree width now p.store (checkRule now p c).store := by
  intro k t' lo hi ht hlo
  rw [hgetall_eq, hgetall_eq]
  by_cases hk : k = c.key
  · subst hk
    rw [show (checkRule now p c).store c.key = _ from (checkRule_acts now).self p c]
    exact sumIn_pruneEntry now t' _ _ _ (by rw [hw]; exact hlo)
  · rw [show (checkRule now p c).store k = _ from (checkRule_acts now).other p c k hk]

/-- The rules of a request, with the widths that belong to their keys. -/
structure RuleOf (width : String → Int) (c : Counter) : Prop where
  width : c.bucketSecs = width c.key
  bucketSecs : 1 ≤ c.bucketSecs
  maxCount : 0 < c.maxCount

/--
The loop after the rules `done`: the wait is exact for them, and `limiting` is the number of one
that has no room.
-/
structure Waits (width : String → Int) (s : Redis) (now : Int) (done : List Counter) (p : Pass) :
    Prop where
  agree : Agree width now s p.store
  sums : p.sums.length = done.length
  consistent : p.Consistent
  exact : ∀ t, now ≤ t → (t < now + p.waitMs ↔ ∃ c ∈ done, Full s t c)
  limiting : 0 < p.limiting → ∃ (i : Nat) (c : Counter), p.limiting = (i : Int) + 1 ∧
    done[i]? = some c ∧ Full s now c

theorem waits_start : Waits width s now [] ⟨s, [], 0, 0⟩ where
  agree := .refl s
  sums := rfl
  consistent := ⟨Int.le_refl 0, by simp⟩
  exact t ht := by simp; omega
  limiting h := absurd h (by simp)

/-- When the window of a full rule has room, as a round computes it. -/
def roomAt (store : Redis) (now : Int) (c : Counter) : Int :=
  (roomBucket (scan (bucketAt c.bucketSecs now - 59) (bucketAt c.bucketSecs now)
    (hgetall store now c.key)).counts (liveSum store now c - c.maxCount + 1) 59 0
    (bucketAt c.bucketSecs now - 59) + 60) * c.bucketSecs * 1000

/-- What a round sets. -/
theorem checkRule_eq (p : Pass) :
    checkRule now p c =
      if Full p.store now c ∧ p.waitMs < roomAt p.store now c - now then
        ⟨(checkRule now p c).store, p.sums ++ [liveSum p.store now c], p.sums.length + 1,
          roomAt p.store now c - now⟩
      else
        ⟨(checkRule now p c).store, p.sums ++ [liveSum p.store now c], p.limiting, p.waitMs⟩ := by
  have hfold : (hgetall p.store now c.key).sumIn (bucketAt c.bucketSecs now - 59)
      (bucketAt c.bucketSecs now) = liveSum p.store now c := rfl
  rw [checkRule_store]
  unfold checkRule
  dsimp only
  rw [scan_sum, hfold]
  by_cases hfull : liveSum p.store now c ≥ c.maxCount
  · rw [if_pos hfull]
    split
    · next hlater =>
      have hset : Full p.store now c ∧ p.waitMs < roomAt p.store now c - now := ⟨hfull, hlater⟩
      rw [if_pos hset]
      simp [roomAt]
    · next hlater =>
      have hset : ¬ (Full p.store now c ∧ p.waitMs < roomAt p.store now c - now) :=
        fun h => hlater h.2
      rw [if_neg hset]
  · have hset : ¬ (Full p.store now c ∧ p.waitMs < roomAt p.store now c - now) :=
      fun h => hfull h.1
    rw [if_neg hfull, if_neg hset]

theorem waits_checkRule {done : List Counter} {p : Pass} (hs : WellKept width s now)
    (hc : RuleOf width c) (h : Waits width s now done p) :
    Waits width s now (done ++ [c]) (checkRule now p c) := by
  have hlive : liveSum p.store now c = liveSum s now c :=
    h.agree.liveSum hc.width hc.bucketSecs (Int.le_refl now)
  have hiff : Full p.store now c ↔ Full s now c := by rw [Full, Full, hlive]
  have hagree := h.agree.trans (agree_checkRule hc.width p)
  have hexists : ∀ t, (∃ d ∈ done ++ [c], Full s t d) ↔ (∃ d ∈ done, Full s t d) ∨ Full s t c := by
    intro t
    simp only [List.mem_append, List.mem_singleton, or_and_right, exists_or, exists_eq_left]
  have hroom : Full s now c → ∀ t, now ≤ t → (Full s t c ↔ t < roomAt p.store now c) := by
    intro hfull t ht
    have hread : ∀ lo hi, bucketAt c.bucketSecs now - 59 ≤ lo →
        (hgetall p.store now c.key).sumIn lo hi = (hgetall s now c.key).sumIn lo hi :=
      fun lo hi hlo => h.agree c.key now lo hi (Int.le_refl now) (by rw [← hc.width]; exact hlo)
    rw [full_iff_roomBucket hs hc.width hc.bucketSecs hc.maxCount hfull hread ht, roomAt, hlive]
  obtain ⟨hcons, -⟩ := checkRule_limiting (t := now) hc.bucketSecs h.consistent
  have hsums : (checkRule now p c).sums.length = (done ++ [c]).length := by
    rw [checkRule_sums, List.length_append, List.length_append, h.sums]
    rfl
  by_cases hset : Full p.store now c ∧ p.waitMs < roomAt p.store now c - now
  · -- the rule has the longest wait so far
    have hround := @checkRule_eq now c p
    rw [if_pos hset] at hround
    refine ⟨hagree, hsums, hcons, fun t ht => ?_, fun _ => ?_⟩
    · rw [hround, hexists, ← h.exact t ht, hroom (hiff.mp hset.1) t ht]
      dsimp only
      omega
    · rw [hround]
      refine ⟨done.length, c, ?_, by simp, hiff.mp hset.1⟩
      rw [h.sums]
  · have hround := @checkRule_eq now c p
    rw [if_neg hset] at hround
    refine ⟨hagree, hsums, hcons, fun t ht => ?_, fun hlim => ?_⟩
    · rw [hround, hexists, ← h.exact t ht]
      dsimp only
      by_cases hfull : Full s now c
      · have hle : ¬ p.waitMs < roomAt p.store now c - now := fun hlt => hset ⟨hiff.mpr hfull, hlt⟩
        rw [hroom hfull t ht]
        omega
      · have := not_full_later hs hc.width hc.bucketSecs hc.maxCount hfull ht
        simp [this]
    · rw [hround] at hlim ⊢
      obtain ⟨i, d, hi, hd, hfull⟩ := h.limiting hlim
      refine ⟨i, d, hi, ?_, hfull⟩
      rw [List.getElem?_append_left (List.getElem?_eq_some_iff.mp hd).1]
      exact hd

theorem waits_foldl (hs : WellKept width s now) : ∀ (cs done : List Counter) (p : Pass),
    (∀ c ∈ cs, RuleOf width c) → Waits width s now done p →
    Waits width s now (done ++ cs) (cs.foldl (checkRule now) p)
  | [], done, p, _, h => by simpa using h
  | c :: cs, done, p, hcs, h => by
    have hstep := waits_checkRule hs (hcs c List.mem_cons_self) h
    have hrest := waits_foldl hs cs (done ++ [c]) _
      (fun d hd => hcs d (List.mem_cons_of_mem c hd)) hstep
    rw [List.append_assoc, List.singleton_append] at hrest
    exact hrest

/-- The first loop of the script. -/
theorem waits_firstPass {cs : List Counter} (hs : WellKept width s now)
    (hcs : ∀ c ∈ cs, RuleOf width c) : Waits width s now cs (firstPass s now cs) := by
  have h := waits_foldl hs cs [] ⟨s, [], 0, 0⟩ hcs waits_start
  rw [List.nil_append] at h
  exact h

/-! ## The reply -/

/-- A request is refused when a rule has no room; the keys of the rules may coincide. -/
theorem refused_iff {cs : List Counter} (hcs : ∀ c ∈ cs, RuleOf width c) :
    ¬ allowed (luaAdmit s t cs).2 ↔ ∃ c ∈ cs, Full s t c := by
  have hfold : ∀ (cs : List Counter) (p : Pass), (∀ c ∈ cs, RuleOf width c) → p.Consistent →
      Agree width t s p.store →
      (0 < (cs.foldl (checkRule t) p).limiting ↔ 0 < p.limiting ∨ ∃ c ∈ cs, Full s t c) := by
    intro cs
    induction cs with
    | nil => simp
    | cons c cs ih =>
      intro p hcs hcons hagree
      have hc := hcs c List.mem_cons_self
      obtain ⟨hcons', hlim⟩ := checkRule_limiting (t := t) hc.bucketSecs hcons
      rw [hagree.liveSum hc.width hc.bucketSecs (Int.le_refl t)] at hlim
      rw [List.foldl_cons, ih _ (fun d hd => hcs d (List.mem_cons_of_mem c hd)) hcons'
        (hagree.trans (agree_checkRule hc.width p)), hlim]
      simp only [List.mem_cons, exists_eq_or_imp, or_assoc, Full]
  rw [allowed_luaAdmit, not_not]
  have h := hfold cs ⟨s, [], 0, 0⟩ hcs ⟨Int.le_refl 0, by simp⟩ (.refl s)
  simpa [firstPass] using h

theorem luaAdmit_refused {cs : List Counter} (h : ¬ allowed (luaAdmit s t cs).2) :
    luaAdmit s t cs = ((firstPass s t cs).store,
      [0, (firstPass s t cs).limiting, (firstPass s t cs).waitMs] ++ (firstPass s t cs).sums) := by
  rw [allowed_luaAdmit, not_not] at h
  exact if_pos h

/-- The whole seconds reported are not less than the wait. -/
theorem le_retryAfterSecs (waitMs : Int) : waitMs ≤ retryAfterSecs waitMs * 1000 := by
  unfold retryAfterSecs
  omega

end

/-! ## The counters of a run -/

section

variable {w now t : Int} {width : String → Int} {s : Redis}

theorem Kept.later {e : Entry Hash} (h : Kept w now e) (hw : 1 ≤ w) (ht : now ≤ t) :
    Kept w t e where
  past hb := Int.le_trans (h.past hb) (bucketAt_mono hw ht)
  nonneg := h.nonneg
  outlives := h.outlives

theorem kept_pruneEntry {oldest current : Int} {e₀ : Option (Entry Hash)}
    (h : ∀ e, e₀ = some e → Kept w now e) :
    ∀ e, pruneEntry t oldest current e₀ = some e → Kept w now e := by
  intro e' he'
  cases e₀ with
  | none => cases he'
  | some e =>
    have he := h e rfl
    have hwithout : ∀ fs, Kept w now ⟨e.value.without fs, e.expireAt⟩ := fun fs =>
      ⟨fun hb => he.past (List.mem_of_mem_filter hb),
        fun hb => he.nonneg (List.mem_of_mem_filter hb),
        fun hb => he.outlives (List.mem_of_mem_filter hb)⟩
    simp only [pruneEntry] at he'
    split at he'
    · split at he'
      · split at he'
        · cases he'
        · obtain rfl := Option.some.inj he'
          exact hwithout _
      · obtain rfl := Option.some.inj he'
        exact he
    · obtain rfl := Option.some.inj he'
      exact he

theorem mem_incrFields {l : List (Field × Int)} {f : Field} {n : Int} {e : Field × Int}
    (h : e ∈ Hash.incrFields l f n) :
    e ∈ l ∨ (e.1 = f ∧ (e.2 = n ∨ ∃ v, (f, v) ∈ l ∧ e.2 = v + n)) := by
  unfold Hash.incrFields at h
  split at h
  · obtain ⟨e₀, he₀, rfl⟩ := List.mem_map.mp h
    split
    · next hf => exact Or.inr ⟨hf, Or.inr ⟨e₀.2, hf ▸ he₀, rfl⟩⟩
    · exact Or.inl he₀
  · rcases List.mem_append.mp h with h | h
    · exact Or.inl h
    · rw [List.mem_singleton.mp h]
      exact Or.inr ⟨rfl, Or.inl rfl⟩

theorem kept_chargeEntry {c : Counter} {e₀ : Option (Entry Hash)} (hw : 1 ≤ c.bucketSecs)
    (hcharge : 0 ≤ c.charge) (h : ∀ e, e₀ = some e → Kept c.bucketSecs t e) :
    ∀ e, chargeEntry t c e₀ = some e → Kept c.bucketSecs t e := by
  intro e' he'
  obtain rfl := Option.some.inj he'
  have hmem : ∀ {b v}, (Field.bucket b, v) ∈ ((entryHash t e₀).incr
      (.bucket (bucketAt c.bucketSecs t)) c.charge).fields →
      b ≤ bucketAt c.bucketSecs t ∧ 0 ≤ v := by
    intro b v hb
    rcases mem_incrFields hb with hold | ⟨hf, hv⟩
    · obtain ⟨e, he, hb⟩ := mem_entryHash hold
      exact ⟨(h e he).past hb, (h e he).nonneg hb⟩
    · obtain rfl := Field.bucket.inj hf
      refine ⟨Int.le_refl _, ?_⟩
      rcases hv with rfl | ⟨v₀, hold, rfl⟩
      · exact hcharge
      · obtain ⟨e, he, hb⟩ := mem_entryHash hold
        exact Int.add_nonneg ((h e he).nonneg hb) hcharge
  refine ⟨fun hb => (hmem hb).1, fun hb => (hmem hb).2, fun {b v d} hb hd => ?_⟩
  obtain rfl := Option.some.inj hd
  -- the deadline is two windows after the charge, and the bucket is no later than the charge
  have hle : b * c.bucketSecs ≤ bucketAt c.bucketSecs t * c.bucketSecs :=
    Int.mul_le_mul_of_nonneg_right (hmem hb).1 (by omega)
  have hdiv : bucketAt c.bucketSecs t * c.bucketSecs ≤ t / 1000 := Int.ediv_mul_le _ (by omega)
  rw [Int.add_mul]
  omega

/-- The calls use the widths that belong to the keys. -/
def UsesWidths (width : String → Int) : Call → Prop
  | .admitCounters _ cs => ∀ c ∈ cs, c.bucketSecs = width c.key
  | .recordCounters _ _ cs => ∀ c ∈ cs, c.2 = width c.1

/-- A step of a run: the clock does not go back. -/
def KeptStep (width : String → Int) (n : Node) (call : Call) (n' : Node) : Prop :=
  n.clock ≤ call.nowMs ∧ UsesWidths width call ∧ n' = n.run call

theorem wellKept_checkRule {p : Pass} (c : Counter) (h : WellKept width p.store t) :
    WellKept width (checkRule t p c).store t := by
  intro k e he
  by_cases hk : k = c.key
  · subst hk
    rw [show (checkRule t p c).store c.key = _ from (checkRule_acts t).self p c] at he
    exact kept_pruneEntry (h c.key) e he
  · rw [show (checkRule t p c).store k = _ from (checkRule_acts t).other p c k hk] at he
    exact h k e he

theorem wellKept_charged {c : Counter} (hwidth : c.bucketSecs = width c.key)
    (hpos : ∀ k, 1 ≤ width k) (hcharge : 0 ≤ c.charge) (h : WellKept width s t) :
    WellKept width ((hincrby s t c.key (.bucket (bucketAt c.bucketSecs t)) c.charge).expire t c.key
      (c.bucketSecs * 120 * 1000)) t := by
  rw [hincrby_expire]
  intro k e he
  dsimp only at he
  split at he
  · next hk =>
    subst hk
    rw [← hwidth]
    refine kept_chargeEntry ?_ hcharge (fun e he => ?_) e he
    · rw [hwidth]
      exact hpos c.key
    · rw [hwidth]
      exact h c.key e he
  · exact h k e he

theorem wellKept_chargeRule {p : Redis × List Int} {c : Counter × Int}
    (hwidth : c.1.bucketSecs = width c.1.key) (hpos : ∀ k, 1 ≤ width k)
    (h : WellKept width p.1 t) : WellKept width (chargeRule t p c).1 t := by
  unfold chargeRule
  split
  · next hcharge => exact wellKept_charged hwidth hpos (Int.le_of_lt hcharge) h
  · exact h

theorem wellKept_luaAdmit {cs : List Counter} (hwidth : ∀ c ∈ cs, c.bucketSecs = width c.key)
    (hpos : ∀ k, 1 ≤ width k) (h : WellKept width s t) :
    WellKept width (luaAdmit s t cs).1 t := by
  have hfirst : WellKept width (firstPass s t cs).store t :=
    List.foldlRecOn cs _ (motive := fun p : Pass => WellKept width p.store t) h
      fun p hp c _ => wellKept_checkRule c hp
  by_cases hallowed : allowed (luaAdmit s t cs).2
  · rw [luaAdmit_allowed_store hallowed]
    exact List.foldlRecOn _ _ (motive := fun p : Redis × List Int => WellKept width p.1 t) hfirst
      fun p hp c hc => wellKept_chargeRule (hwidth c.1 (List.of_mem_zip hc).1) hpos hp
  · rw [luaAdmit_refused_store hallowed]
    exact hfirst

theorem wellKept_recordCountersAt {cs : List (String × Int)} {amount : Int}
    (hwidth : ∀ c ∈ cs, c.2 = width c.1) (hpos : ∀ k, 1 ≤ width k) (h : WellKept width s t) :
    WellKept width (recordCountersAt s cs amount t) t := by
  unfold recordCountersAt
  split
  · exact h
  · next hskip =>
    have hamount : 0 ≤ amount := by
      simp only [Bool.or_eq_true, decide_eq_true_eq, not_or] at hskip
      omega
    exact List.foldlRecOn cs _ (motive := fun s : Redis => WellKept width s t) h
      fun s hs c hc =>
        @wellKept_charged t width s ⟨c.1, c.2, 0, amount⟩ (hwidth c hc) hpos hamount hs

theorem wellKept_step {n n' : Node} {call : Call} (hpos : ∀ k, 1 ≤ width k)
    (h : WellKept width n.store n.clock) (hstep : KeptStep width n call n') :
    WellKept width n'.store n'.clock := by
  obtain ⟨hclock, hwidth, rfl⟩ := hstep
  have hnow : WellKept width n.store call.nowMs := fun k e he => (h k e he).later (hpos k) hclock
  cases call with
  | admitCounters t cs =>
    show WellKept width (admitCountersAt n.store cs t).1 t
    rw [(admitCountersAt_eq n.store cs t).1]
    exact wellKept_luaAdmit hwidth hpos hnow
  | recordCounters t amount cs => exact wellKept_recordCountersAt hwidth hpos hnow

/-- In every run from an empty store the counters are as `admit_wait_exact` takes them to be. -/
theorem wellKept_run {n₀ n : Node} {calls : List Call} (hpos : ∀ k, 1 ≤ width k)
    (h₀ : ∀ k, n₀.store k = none) (h : Steps (KeptStep width) n₀ calls n) :
    WellKept width n.store n.clock :=
  Steps.invariant (I := fun n => WellKept width n.store n.clock)
    (fun _ _ _ hn hstep => wellKept_step hpos hn hstep) h fun k e he => by
      rw [h₀ k] at he
      cases he

end

/-! ## Two rules of one user -/

def minuteAndFive (k : String) : Int := if k = "requests/1m" then 1 else 5

/-- Two requests were made in the second second. -/
def twoMade : Node :=
  (⟨.empty, 0, []⟩ : Node).run (.recordCounters 1000 2 [("requests/1m", 1), ("requests/5m", 5)])

def userRules : List Counter := [⟨"requests/1m", 1, 2, 1⟩, ⟨"requests/5m", 5, 3, 1⟩]

end ThinkWatch.Limits
