import ThinkWatch.Limits.Budget

/-!
# A budget period is one counter

The boundary of a period comes from date arithmetic (`period_end`), the name of its counter from
formatting (`bucket_id`, `crates/common/src/limits/budget.rs`). Instants are in nanoseconds here, as
chrono keeps them; its calendar is taken without the ends of its range.
-/

namespace ThinkWatch.Limits

open Lib

/-! ## Numbers in a text -/

/-- A number with zeros before it up to a width. -/
def zeroPadded (width n : Nat) : List Char := List.leftpad width '0' (Nat.toDigits 10 n)

theorem zeroPadded_inj {width width' n n' : Nat}
    (h : zeroPadded width n = zeroPadded width' n') : n = n' := by
  have hvalue : ∀ w k, Nat.ofDigitChars 10 (zeroPadded w k) 0 = k := by
    intro w k
    rw [zeroPadded, List.leftpad, Nat.ofDigitChars_append, Nat.ofDigitChars_replicate_zero,
      Nat.mul_zero, Nat.ofDigitChars_toDigits (by decide) (by decide)]
  rw [← hvalue width n, h, hvalue]

theorem zeroPadded_length {width n : Nat} (hwidth : 0 < width) (h : n < 10 ^ width) :
    (zeroPadded width n).length = width := by
  have hdigits := (Nat.length_toDigits_le_iff (by decide : 1 < 10) hwidth).mpr h
  rw [zeroPadded, List.length_leftpad]
  omega

/-- A text of digits does not start with another sign. -/
theorem zeroPadded_ne_cons {width n : Nat} {c : Char} {s : List Char} (hc : c.isDigit = false) :
    zeroPadded width n ≠ c :: s := by
  intro h
  have hmem : c ∈ zeroPadded width n := by simp [h]
  rw [zeroPadded, List.leftpad, List.mem_append] at hmem
  rcases hmem with hzero | hdigit
  · obtain rfl := List.eq_of_mem_replicate hzero
    cases hc
  · rw [Nat.isDigit_of_mem_toDigits (by decide) (by decide) hdigit] at hc
    cases hc

/-- chrono's `%Y`: four digits, and a sign for the years that have more or come before year 0. -/
def formatYear (year : Int) : List Char :=
  if 0 ≤ year ∧ year ≤ 9999 then zeroPadded 4 year.toNat
  else (if year < 0 then '-' else '+') :: zeroPadded 4 year.natAbs

/-- `{:04}` of a signed number; a sign takes one of the four places. -/
def formatIsoYear (year : Int) : List Char :=
  if year < 0 then '-' :: zeroPadded 3 year.natAbs else zeroPadded 4 year.toNat

theorem formatYear_inj {y y' : Int} (h : formatYear y = formatYear y') : y = y' := by
  unfold formatYear at h
  by_cases hy : 0 ≤ y ∧ y ≤ 9999
  · rw [if_pos hy] at h
    by_cases hy' : 0 ≤ y' ∧ y' ≤ 9999
    · rw [if_pos hy'] at h
      have := zeroPadded_inj h
      omega
    · rw [if_neg hy'] at h
      exact absurd h (zeroPadded_ne_cons (by split <;> rfl))
  · rw [if_neg hy] at h
    by_cases hy' : 0 ≤ y' ∧ y' ≤ 9999
    · rw [if_pos hy'] at h
      exact absurd h.symm (zeroPadded_ne_cons (by split <;> rfl))
    · rw [if_neg hy'] at h
      obtain ⟨hsign, hdigits⟩ := List.cons.inj h
      have habs := zeroPadded_inj hdigits
      have hneg : y < 0 ↔ y' < 0 := by
        by_cases hlt : y < 0
        · by_cases hlt' : y' < 0
          · simp [hlt, hlt']
          · simp [hlt, hlt'] at hsign
        · by_cases hlt' : y' < 0
          · simp [hlt, hlt'] at hsign
          · simp [hlt, hlt']
      omega

theorem formatIsoYear_inj {y y' : Int} (h : formatIsoYear y = formatIsoYear y') : y = y' := by
  unfold formatIsoYear at h
  split at h
  · split at h
    · have := zeroPadded_inj (List.cons.inj h).2
      omega
    · exact absurd h.symm (zeroPadded_ne_cons rfl)
  · split at h
    · exact absurd h (zeroPadded_ne_cons rfl)
    · have := zeroPadded_inj h
      omega

/-! ## The text of a bucket id -/

/-- `%Y-%m-%d`, `{:04}-W{:02}` and `%Y-%m`. -/
def BucketId.format : BucketId → List Char
  | .day y m d => formatYear y ++ '-' :: (zeroPadded 2 m.toNat ++ '-' :: zeroPadded 2 d.toNat)
  | .week y w => formatIsoYear y ++ '-' :: 'W' :: zeroPadded 2 w.toNat
  | .month y m => formatYear y ++ '-' :: zeroPadded 2 m.toNat

example : (bucketId "weekly" (20551 * msPerDay)).format = "2026-W15".toList := by decide +kernel

/-- Numbers of the calendar, which fit in two digits. -/
def TwoDigits (n : Int) : Prop := 0 ≤ n ∧ n < 100

theorem twoDigits_length {n n' : Int} (h : TwoDigits n) (h' : TwoDigits n') :
    (zeroPadded 2 n.toNat).length = (zeroPadded 2 n'.toNat).length := by
  unfold TwoDigits at h h'
  rw [zeroPadded_length (by decide) (by omega), zeroPadded_length (by decide) (by omega)]

theorem twoDigits_inj {n n' : Int} (h : TwoDigits n) (h' : TwoDigits n')
    (heq : zeroPadded 2 n.toNat = zeroPadded 2 n'.toNat) : n = n' := by
  have := zeroPadded_inj heq
  unfold TwoDigits at h h'
  omega

/-- What is before a separator and a number of two digits, and the number. -/
theorem twoDigits_append {a b : List Char} {c : Char} {n n' : Int} (h : TwoDigits n)
    (h' : TwoDigits n') (heq : a ++ c :: zeroPadded 2 n.toNat = b ++ c :: zeroPadded 2 n'.toNat) :
    a = b ∧ n = n' := by
  obtain ⟨hab, hrest⟩ := List.append_inj' heq (congrArg (· + 1) (twoDigits_length h h'))
  exact ⟨hab, twoDigits_inj h h' (List.cons.inj hrest).2⟩

theorem twoDigits_month (d : Int) : TwoDigits (Calendar.month d) := by
  have := Calendar.month_bounds d
  unfold TwoDigits
  omega

theorem twoDigits_day (d : Int) : TwoDigits (Calendar.day d) := by
  have := Calendar.day_bounds d
  unfold TwoDigits
  omega

theorem twoDigits_isoWeek (d : Int) : TwoDigits (Calendar.isoWeek d) := by
  have := Calendar.isoWeek_bounds d
  unfold TwoDigits
  omega

/-- The text says which bucket it is, among those of one kind of period. -/
theorem format_bucketId_inj (p : BudgetPeriod) {now now' : Int}
    (h : (bucketId p.asStr now).format = (bucketId p.asStr now').format) :
    bucketId p.asStr now = bucketId p.asStr now' := by
  cases p with
  | daily =>
    simp only [bucketId, BudgetPeriod.asStr, BucketId.format] at h ⊢
    rw [← List.cons_append, ← List.append_assoc, ← List.cons_append, ← List.append_assoc] at h
    obtain ⟨hrest, hday⟩ := twoDigits_append (twoDigits_day _) (twoDigits_day _) h
    obtain ⟨hyear, hmonth⟩ := twoDigits_append (twoDigits_month _) (twoDigits_month _) hrest
    rw [formatYear_inj hyear, hmonth, hday]
  | weekly =>
    simp only [bucketId, BudgetPeriod.asStr, BucketId.format] at h ⊢
    rw [List.append_cons, List.append_cons (formatIsoYear (Calendar.isoYear (dateOf now')))] at h
    obtain ⟨hyear, hweek⟩ := twoDigits_append (twoDigits_isoWeek _) (twoDigits_isoWeek _) h
    rw [formatIsoYear_inj (List.append_cancel_right hyear), hweek]
  | monthly =>
    simp only [bucketId, BudgetPeriod.asStr, BucketId.format] at h ⊢
    obtain ⟨hyear, hmonth⟩ := twoDigits_append (twoDigits_month _) (twoDigits_month _) h
    rw [formatYear_inj hyear, hmonth]

/-! ## Periods -/

/-- An instant that is not before another, and before the end of its period, is in the period. -/
theorem periodEnd_eq (p : BudgetPeriod) {now t : Int} (hle : now ≤ t) (hlt : t < periodEnd p now) :
    periodEnd p t = periodEnd p now := by
  have hdate : dateOf now ≤ dateOf t := Int.ediv_le_ediv (by decide) hle
  have hbefore : dateOf t < firstDayAfter p now := Int.ediv_lt_of_lt_mul (by decide) hlt
  unfold periodEnd
  congr 1
  cases p with
  | daily =>
    simp only [firstDayAfter] at hbefore ⊢
    omega
  | weekly =>
    have hmonday := Calendar.monday_spec (dateOf now)
    simp only [firstDayAfter] at hbefore ⊢
    rw [Calendar.monday_eq (by omega) hbefore]
  | monthly =>
    have hmonth := Calendar.monthOf_spec (dateOf now)
    simp only [firstDayAfter] at hbefore ⊢
    rw [Calendar.monthOf_unique (hmonth.1.trans hdate) hbefore]

/-- The wait is the rest of the period, rounded up to whole seconds. -/
theorem secsUntilPeriodEnd_spec (p : BudgetPeriod) (now : Int) :
    periodEnd p now ≤ now + secsUntilPeriodEnd p now * 1000 ∧
      now + secsUntilPeriodEnd p now * 1000 < periodEnd p now + 1000 := by
  have hpos := (periodEnd_spec p now).1
  unfold secsUntilPeriodEnd retryAfterSecs
  omega

/-! ## Instants in nanoseconds -/

def nsPerMs : Int := 1000000

/-- `bucket_id` as its text. -/
def bucketIdText (period : String) (now : Int) : List Char :=
  (bucketId period (now / nsPerMs)).format

/-- `period_end`, which depends on the date alone. -/
def periodEndNs (period : BudgetPeriod) (now : Int) : Int :=
  periodEnd period (now / nsPerMs) * nsPerMs

theorem bucketIdText_eq_iff (p : BudgetPeriod) (now now' : Int) :
    bucketIdText p.asStr now = bucketIdText p.asStr now' ↔
      periodEndNs p now = periodEndNs p now' := by
  have hns : periodEndNs p now = periodEndNs p now' ↔
      periodEnd p (now / nsPerMs) = periodEnd p (now' / nsPerMs) := by
    unfold periodEndNs nsPerMs
    omega
  rw [hns, ← bucketId_eq_iff]
  exact ⟨format_bucketId_inj p, fun h => congrArg BucketId.format h⟩

theorem lt_periodEndNs (p : BudgetPeriod) (now : Int) : now < periodEndNs p now := by
  have := (periodEnd_spec p (now / nsPerMs)).1
  unfold periodEndNs
  unfold nsPerMs at *
  omega

/--
The bucket of an instant is that of every later instant before the end of its period, and of none
from the end on; the buckets are the same exactly where the periods are; and the wait that a refused
request is told ends in the first second after the period.
-/
theorem period_is_one_counter (p : BudgetPeriod) :
    (∀ now t, now ≤ t → t < periodEndNs p now →
      bucketIdText p.asStr t = bucketIdText p.asStr now) ∧
    (∀ now t, periodEndNs p now ≤ t → bucketIdText p.asStr t ≠ bucketIdText p.asStr now) ∧
    (∀ now t, bucketIdText p.asStr t = bucketIdText p.asStr now ↔
      periodEndNs p t = periodEndNs p now) ∧
    ∀ ms, periodEndNs p (ms * nsPerMs) ≤ (ms + secsUntilPeriodEnd p ms * 1000) * nsPerMs ∧
      (ms + secsUntilPeriodEnd p ms * 1000) * nsPerMs <
        periodEndNs p (ms * nsPerMs) + 1000 * nsPerMs := by
  refine ⟨?_, ?_, fun now t => bucketIdText_eq_iff p t now, ?_⟩
  · intro now t hle hlt
    rw [bucketIdText_eq_iff]
    unfold periodEndNs at *
    rw [periodEnd_eq p (Int.ediv_le_ediv (by decide) hle) (Int.ediv_lt_of_lt_mul (by decide) hlt)]
  · intro now t hle heq
    rw [bucketIdText_eq_iff] at heq
    have := lt_periodEndNs p t
    omega
  · intro ms
    have hspec := secsUntilPeriodEnd_spec p ms
    unfold periodEndNs nsPerMs
    rw [Int.mul_ediv_cancel _ (by decide)]
    omega

/-- Thursday and Friday of the first week. -/
theorem period_is_one_counter_friday :
    bucketIdText "weekly" (86400 * 1000 * nsPerMs) = bucketIdText "weekly" 0 :=
  (period_is_one_counter .weekly).1 0 (86400 * 1000 * nsPerMs) (by decide) (by decide +kernel)

end ThinkWatch.Limits
