import ThinkWatch.Errors
import ThinkWatch.Lib.Calendar
import ThinkWatch.Lib.Expiring
import ThinkWatch.Lib.Run
import ThinkWatch.Lib.Threads
import ThinkWatch.Limits.Sliding

/-!
# Budget caps

`crates/common/src/limits/budget.rs`: the calendar periods, their counters and the alerts of
`add_weighted_tokens`. Times are in milliseconds, of one clock. A counter's key is the tuple that its
string is formatted from, an id of a period the numbers in it.
-/

namespace ThinkWatch.Limits

open Lib

inductive BudgetSubject where
  | user
  | apiKeyLineage
deriving DecidableEq, Repr

def BudgetSubject.asStr : BudgetSubject → String
  | user => "user"
  | apiKeyLineage => "api_key_lineage"

theorem BudgetSubject.asStr_inj {k k' : BudgetSubject} : k.asStr = k'.asStr ↔ k = k' := by
  cases k <;> cases k' <;> decide

inductive BudgetPeriod where
  | daily
  | weekly
  | monthly
deriving DecidableEq, Repr

def BudgetPeriod.asStr : BudgetPeriod → String
  | daily => "daily"
  | weekly => "weekly"
  | monthly => "monthly"

theorem BudgetPeriod.asStr_inj {p p' : BudgetPeriod} : p.asStr = p'.asStr ↔ p = p' := by
  cases p <;> cases p' <;> decide

structure BudgetCap where
  id : Uuid
  subjectKind : BudgetSubject
  subjectId : Uuid
  period : BudgetPeriod
  limitTokens : Int
deriving DecidableEq, Repr

/-! ## Periods -/

/-- The calendar key of a period, by the numbers its text is formatted from. -/
inductive BucketId where
  | day (year month day : Int)
  | week (year week : Int)
  | month (year month : Int)
deriving DecidableEq, Repr

def msPerDay : Int := 86400 * 1000

/-- `date_naive`, in days. -/
def dateOf (now : Int) : Int := now / msPerDay

def bucketId (period : String) (now : Int) : BucketId :=
  let today := dateOf now
  match period with
  | "daily" => .day (Calendar.year today) (Calendar.month today) (Calendar.day today)
  | "weekly" => .week (Calendar.isoYear today) (Calendar.isoWeek today)
  | "monthly" => .month (Calendar.year today) (Calendar.month today)
  | _ => .month (Calendar.year today) (Calendar.month today)

/-- The first day after the period that contains `now`. -/
def firstDayAfter (period : BudgetPeriod) (now : Int) : Int :=
  match period with
  | .daily => dateOf now + 1
  | .weekly => Calendar.monday (dateOf now) + 7
  | .monthly => Calendar.monthStart (Calendar.monthOf (dateOf now) + 1)

def periodEnd (period : BudgetPeriod) (now : Int) : Int := firstDayAfter period now * msPerDay

/-- What a refused request's `Retry-After` says. -/
def secsUntilPeriodEnd (period : BudgetPeriod) (now : Int) : Int :=
  retryAfterSecs (periodEnd period now - now)

def periodTtlSecs : String → Int
  | "daily" => 2 * 86400
  | "weekly" => 2 * 7 * 86400
  | "monthly" => 2 * 31 * 86400
  | _ => 31 * 86400

/-- The length of the longest period of its kind, half of how long a counter is kept. -/
def maxLength : BudgetPeriod → Int
  | .daily => msPerDay
  | .weekly => 7 * msPerDay
  | .monthly => 31 * msPerDay

theorem periodTtlSecs_eq (p : BudgetPeriod) : periodTtlSecs p.asStr * 1000 = 2 * maxLength p := by
  cases p <;> rfl

theorem maxLength_pos (p : BudgetPeriod) : 0 < maxLength p := by
  cases p <;> decide

/-- A period ends after every instant of it, and not later than its length. -/
theorem periodEnd_spec (p : BudgetPeriod) (now : Int) :
    now < periodEnd p now ∧ periodEnd p now ≤ now + maxLength p := by
  have hday : dateOf now * msPerDay ≤ now ∧ now < (dateOf now + 1) * msPerDay := by
    unfold dateOf msPerDay
    omega
  unfold periodEnd firstDayAfter maxLength
  unfold msPerDay at *
  cases p with
  | daily =>
    simp only
    omega
  | weekly =>
    have hweek := Calendar.monday_spec (dateOf now)
    simp only
    omega
  | monthly =>
    have hmonth := Calendar.monthOf_spec (dateOf now)
    have hlen := (Calendar.monthStart_add_one (Calendar.monthOf (dateOf now))).2
    simp only
    omega

/-- Two instants are in one period when it ends for both at once. -/
theorem bucketId_eq_iff (p : BudgetPeriod) (now now' : Int) :
    bucketId p.asStr now = bucketId p.asStr now' ↔ periodEnd p now = periodEnd p now' := by
  have hend : periodEnd p now = periodEnd p now' ↔
      firstDayAfter p now = firstDayAfter p now' := by
    unfold periodEnd msPerDay
    omega
  rw [hend]
  cases p with
  | daily =>
    constructor
    · intro h
      obtain ⟨hy, hm, hd⟩ := BucketId.day.inj h
      unfold firstDayAfter
      rw [Calendar.date_injective hy hm hd]
    · intro h
      have hdate : dateOf now = dateOf now' := (Int.add_left_inj 1).mp h
      unfold bucketId
      rw [hdate]
  | weekly =>
    constructor
    · intro h
      obtain ⟨hy, hw⟩ := BucketId.week.inj h
      unfold firstDayAfter
      rw [Calendar.monday_injective hy hw]
    · intro h
      have hmonday : Calendar.monday (dateOf now) = Calendar.monday (dateOf now') :=
        (Int.add_left_inj 7).mp h
      simp only [bucketId, BudgetPeriod.asStr, Calendar.isoWeek, Calendar.isoYear, hmonday]
  | monthly =>
    constructor
    · intro h
      obtain ⟨hy, hm⟩ := BucketId.month.inj h
      unfold firstDayAfter
      rw [Calendar.monthOf_eq, Calendar.monthOf_eq, hy, hm]
    · intro h
      have hmonth : Calendar.monthOf (dateOf now) = Calendar.monthOf (dateOf now') :=
        (Int.add_left_inj 1).mp (Calendar.monthStart_injective h)
      simp only [bucketId, BudgetPeriod.asStr, Calendar.year, Calendar.month, hmonth]

/-! ## Counters -/

structure BudgetKey where
  subjectKind : String
  subjectId : Uuid
  period : String
  bucket : BucketId
deriving DecidableEq, Repr

def buildKey (subjectKind : String) (subjectId : Uuid) (period : String) (now : Int) : BudgetKey :=
  ⟨subjectKind, subjectId, period, bucketId period now⟩

/-- The key of a cap's counter. -/
def BudgetCap.key (cap : BudgetCap) (now : Int) : BudgetKey :=
  buildKey cap.subjectKind.asStr cap.subjectId cap.period.asStr now

/-- Two caps on one subject and period, which count on one counter. -/
def BudgetCap.SameCounter (c cap : BudgetCap) : Prop :=
  c.subjectKind = cap.subjectKind ∧ c.subjectId = cap.subjectId ∧ c.period = cap.period

instance (c cap : BudgetCap) : Decidable (c.SameCounter cap) := inferInstanceAs (Decidable (_ ∧ _))

theorem BudgetCap.key_eq_iff (c cap : BudgetCap) (now now' : Int) :
    c.key now = cap.key now' ↔
      c.SameCounter cap ∧ periodEnd cap.period now = periodEnd cap.period now' := by
  rw [← bucketId_eq_iff]
  simp only [key, buildKey, BudgetKey.mk.injEq, BudgetSubject.asStr_inj, BudgetPeriod.asStr_inj,
    SameCounter]
  constructor
  · rintro ⟨hk, hid, hp, hb⟩
    exact ⟨⟨hk, hid, hp⟩, hp ▸ hb⟩
  · rintro ⟨⟨hk, hid, hp⟩, hb⟩
    exact ⟨hk, hid, hp, hp ▸ hb⟩

abbrev BudgetStore := Store BudgetKey Int

/-- `spend`: a period nothing has been spent in yet has no counter. -/
def spend (s : BudgetStore) (cap : BudgetCap) (now : Int) : Int := (s.get now (cap.key now)).getD 0

/-- `LUA_INCR_AND_EXPIRE`; `INCRBY` refuses to leave the range of an `i64`. -/
def luaIncrAndExpire (s : BudgetStore) (t : Int) (key : BudgetKey) (amount ttlSecs : Int) :
    Option (BudgetStore × Int) :=
  let n := (s.get t key).getD 0 + amount
  if -2 ^ 63 ≤ n ∧ n < 2 ^ 63 then some (s.setEx t key n (ttlSecs * 1000), n) else none

/-! ## Alerts -/

def alertThresholdsPct : List Int := [50, 80, 95, 100]

/-- A threshold in weighted tokens. -/
def threshold (limit pct : Int) : Int := limit * pct / 100

def crossedThresholds (prev new limit : Int) : List Int :=
  if limit ≤ 0 ∨ new ≤ prev then []
  else alertThresholdsPct.filter fun pct => prev < threshold limit pct ∧ threshold limit pct ≤ new

structure CapStatus where
  capId : Uuid
  subjectKind : BudgetSubject
  subjectId : Uuid
  current : Int
  limit : Int
deriving DecidableEq, Repr

structure BudgetCrossing where
  capId : Uuid
  subjectKind : String
  subjectId : Uuid
  period : String
  thresholdPct : Int
  limitTokens : Int
  currentTokens : Int
deriving DecidableEq, Repr

def capStatus (cap : BudgetCap) (current : Int) : CapStatus :=
  ⟨cap.id, cap.subjectKind, cap.subjectId, current, cap.limitTokens⟩

def BudgetCap.crossing (cap : BudgetCap) (pct current : Int) : BudgetCrossing :=
  ⟨cap.id, cap.subjectKind.asStr, cap.subjectId, cap.period.asStr, pct, cap.limitTokens, current⟩

/-- The crossings of a cap's counter at a percentage. -/
def BudgetCrossing.Of (cap : BudgetCap) (pct : Int) (x : BudgetCrossing) : Prop :=
  x.subjectKind = cap.subjectKind.asStr ∧ x.subjectId = cap.subjectId ∧
    x.period = cap.period.asStr ∧ x.thresholdPct = pct

instance (cap : BudgetCap) (pct : Int) (x : BudgetCrossing) : Decidable (x.Of cap pct) :=
  inferInstanceAs (Decidable (_ ∧ _))

theorem crossing_of_iff {c cap : BudgetCap} {pct pct' n : Int} :
    (c.crossing pct' n).Of cap pct ↔ c.SameCounter cap ∧ pct' = pct := by
  simp only [BudgetCap.crossing, BudgetCrossing.Of, BudgetSubject.asStr_inj,
    BudgetPeriod.asStr_inj, BudgetCap.SameCounter, and_assoc]

/-- Of the percentages that are crossed, the ones equal to `pct`. -/
theorem crossedThresholds_filter {prev new limit pct : Int} (hpct : pct ∈ alertThresholdsPct)
    (hlimit : 0 < limit) (hlt : prev < new) :
    (crossedThresholds prev new limit).filter (fun p => p = pct) =
      if prev < threshold limit pct ∧ threshold limit pct ≤ new then [pct] else [] := by
  rw [crossedThresholds, if_neg (by omega), List.filter_filter]
  simp only [alertThresholdsPct, List.mem_cons, List.not_mem_nil, or_false] at hpct
  rcases hpct with rfl | rfl | rfl | rfl <;> simp [alertThresholdsPct, List.filter_cons]

end ThinkWatch.Limits
