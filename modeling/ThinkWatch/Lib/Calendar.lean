import Mathlib.Data.Int.ConditionallyCompleteOrder
import Mathlib.Order.ConditionallyCompleteLattice.Basic
import Mathlib.Order.Monotone.Basic
import Mathlib.Tactic.Common
import Mathlib.Tactic.IntervalCases

/-!
# The Gregorian calendar

Days are counted from 1970-01-01, months from March of year 0, so that the leap day is the last day
of a year of months. All days before and after are in the calendar as it stands today.
-/

namespace Lib.Calendar

/-- The day 1970-01-01, counted from the 1st of March of year 0. -/
def epoch : Int := 719468

/-! ## Months -/

/-- The first day of March of a year. -/
def marchFirst (year : Int) : Int := 365 * year + year / 4 - year / 100 + year / 400 - epoch

/-- The days of a year before its `k`th month from March. -/
def daysBefore (k : Int) : Int := (153 * k + 2) / 5

/-- The first day of a month. -/
def monthStart (m : Int) : Int := marchFirst (m / 12) + daysBefore (m % 12)

/-- The year, from March to February, that a day is in. -/
def marchYear (d : Int) : Int :=
  let y := 400 * (d + epoch) / 146097
  if d < marchFirst y then y - 1 else if marchFirst (y + 1) ≤ d then y + 1 else y

/-- The month that a day is in. -/
def monthOf (d : Int) : Int :=
  12 * marchYear d + (5 * (d - marchFirst (marchYear d)) + 2) / 153

theorem marchFirst_add_one (y : Int) :
    marchFirst y + 365 ≤ marchFirst (y + 1) ∧ marchFirst (y + 1) ≤ marchFirst y + 366 := by
  unfold marchFirst
  omega

theorem marchYear_spec (d : Int) :
    marchFirst (marchYear d) ≤ d ∧ d < marchFirst (marchYear d + 1) := by
  have hlo : marchFirst (400 * (d + epoch) / 146097 - 1) ≤ d := by
    unfold marchFirst epoch
    omega
  have hhi : d < marchFirst (400 * (d + epoch) / 146097 + 1 + 1) := by
    unfold marchFirst epoch
    omega
  unfold marchYear
  simp only
  split
  · next hlt => exact ⟨hlo, by rwa [Int.sub_add_cancel]⟩
  · split
    · next hle => exact ⟨hle, hhi⟩
    · next hge hlt => exact ⟨Int.not_lt.mp hge, Int.not_le.mp hlt⟩

/-- A year of 366 days. -/
def IsLeap (year : Int) : Prop := year % 4 = 0 ∧ (year % 100 ≠ 0 ∨ year % 400 = 0)

instance (year : Int) : Decidable (IsLeap year) := inferInstanceAs (Decidable (_ ∧ _))

/-- The days of a month of a year, the month counted from January. -/
def daysIn (year month : Int) : Int :=
  if month = 2 then if IsLeap year then 29 else 28
  else if month = 4 ∨ month = 6 ∨ month = 9 ∨ month = 11 then 30 else 31

/-- The months have the lengths that they have in the calendar. -/
theorem monthStart_add_one_eq (m : Int) :
    monthStart (m + 1) = monthStart m + daysIn ((m + 2) / 12) ((m + 2) % 12 + 1) := by
  by_cases hk : m % 12 = 11
  · -- February, the last month of a year from March
    unfold monthStart daysBefore daysIn
    rw [if_pos (by omega), show (m + 1) / 12 = m / 12 + 1 by omega, show (m + 1) % 12 = 0 by omega,
      hk, show (m + 2) / 12 = m / 12 + 1 by omega]
    by_cases hleap : IsLeap (m / 12 + 1)
    · rw [if_pos hleap]
      unfold IsLeap at hleap
      unfold marchFirst
      omega
    · rw [if_neg hleap]
      unfold IsLeap at hleap
      unfold marchFirst
      omega
  · have hk' : 0 ≤ m % 12 ∧ m % 12 ≤ 10 := by omega
    unfold monthStart daysBefore daysIn
    rw [if_neg (by omega), show (m + 1) / 12 = m / 12 by omega,
      show (m + 1) % 12 = m % 12 + 1 by omega, show (m + 2) % 12 = (m % 12 + 2) % 12 by omega]
    generalize m % 12 = k at hk'
    obtain ⟨hlo, hhi⟩ := hk'
    interval_cases k <;> simp <;> omega

theorem daysIn_bounds (year month : Int) : 1 ≤ daysIn year month ∧ daysIn year month ≤ 31 := by
  unfold daysIn
  split
  · split
    · decide
    · decide
  · split
    · decide
    · decide

/-- Every month has between 1 and 31 days. -/
theorem monthStart_add_one (m : Int) :
    monthStart m < monthStart (m + 1) ∧ monthStart (m + 1) ≤ monthStart m + 31 := by
  have hdays := daysIn_bounds ((m + 2) / 12) ((m + 2) % 12 + 1)
  rw [monthStart_add_one_eq]
  omega

theorem monthStart_strictMono : StrictMono monthStart :=
  strictMono_int_of_lt_succ fun m => (monthStart_add_one m).1

theorem monthStart_injective : Function.Injective monthStart := monthStart_strictMono.injective

/-- A day is in its month. -/
theorem monthOf_spec (d : Int) :
    monthStart (monthOf d) ≤ d ∧ d < monthStart (monthOf d + 1) := by
  obtain ⟨hlo, hhi⟩ := marchYear_spec d
  have hlen := (marchFirst_add_one (marchYear d)).2
  have hyear : monthOf d / 12 = marchYear d := by
    unfold monthOf
    omega
  have hmonth : monthOf d % 12 = (5 * (d - marchFirst (marchYear d)) + 2) / 153 := by
    unfold monthOf
    omega
  by_cases hk : monthOf d % 12 = 11
  · have hyear' : (monthOf d + 1) / 12 = marchYear d + 1 := by omega
    have hmonth' : (monthOf d + 1) % 12 = 0 := by omega
    unfold monthStart daysBefore
    rw [hyear, hyear', hmonth']
    omega
  · have hyear' : (monthOf d + 1) / 12 = marchYear d := by omega
    have hmonth' : (monthOf d + 1) % 12 = monthOf d % 12 + 1 := by omega
    unfold monthStart daysBefore
    rw [hyear, hyear', hmonth', hmonth]
    omega

/-- A day is in no other month. -/
theorem monthOf_unique {d m : Int} (hlo : monthStart m ≤ d) (hhi : d < monthStart (m + 1)) :
    monthOf d = m := by
  obtain ⟨hstart, hnext⟩ := monthOf_spec d
  have hle : monthOf d < m + 1 :=
    monthStart_strictMono.lt_iff_lt.mp (hstart.trans_lt hhi)
  have hge : m < monthOf d + 1 :=
    monthStart_strictMono.lt_iff_lt.mp (hlo.trans_lt hnext)
  omega

/-! ## Dates -/

/-- The year, from January to December. -/
def year (d : Int) : Int := (monthOf d + 2) / 12

/-- The month of the year, from 1. -/
def month (d : Int) : Int := (monthOf d + 2) % 12 + 1

/-- The day of the month, from 1. -/
def day (d : Int) : Int := d - monthStart (monthOf d) + 1

/-- The 1st of January of a year. -/
def januaryFirst (year : Int) : Int := monthStart (12 * year - 2)

theorem monthOf_eq (d : Int) : monthOf d = 12 * year d + month d - 3 := by
  unfold year month
  omega

theorem month_bounds (d : Int) : 1 ≤ month d ∧ month d ≤ 12 := by
  unfold month
  omega

theorem day_bounds (d : Int) : 1 ≤ day d ∧ day d ≤ 31 := by
  have hspec := monthOf_spec d
  have hlen := (monthStart_add_one (monthOf d)).2
  unfold day
  omega

/-- The days of a year are from one 1st of January to the next. -/
theorem januaryFirst_spec (d : Int) :
    januaryFirst (year d) ≤ d ∧ d < januaryFirst (year d) + 366 := by
  have hspec := monthOf_spec d
  have hfirst : 12 * year d - 2 ≤ monthOf d := by
    unfold year
    omega
  have hlast : monthOf d + 1 ≤ 12 * (year d + 1) - 2 := by
    unfold year
    omega
  have hlo := monthStart_strictMono.monotone hfirst
  have hhi := monthStart_strictMono.monotone hlast
  have hlen : monthStart (12 * (year d + 1) - 2) ≤ monthStart (12 * year d - 2) + 366 := by
    have hyear := (marchFirst_add_one (year d - 1)).2
    rw [Int.sub_add_cancel] at hyear
    unfold monthStart
    rw [show (12 * (year d + 1) - 2) / 12 = year d by omega,
      show (12 * (year d + 1) - 2) % 12 = 10 by omega,
      show (12 * year d - 2) / 12 = year d - 1 by omega,
      show (12 * year d - 2) % 12 = 10 by omega]
    omega
  unfold januaryFirst
  omega

/-- The year, month and day of a date say which day it is. -/
theorem date_injective {d d' : Int} (hy : year d = year d') (hm : month d = month d')
    (hd : day d = day d') : d = d' := by
  have hmonth : monthOf d = monthOf d' := by rw [monthOf_eq, monthOf_eq, hy, hm]
  unfold day at hd
  rw [hmonth] at hd
  omega

/-! ## Weeks -/

/-- Monday of the week that a day is in; 1970-01-01 was a Thursday. -/
def monday (d : Int) : Int := d - (d + 3) % 7

/-- The year an ISO week counts in is that of its Thursday. -/
def isoYear (d : Int) : Int := year (monday d + 3)

/-- The week of the ISO year, from 1. -/
def isoWeek (d : Int) : Int := (monday d + 3 - januaryFirst (isoYear d)) / 7 + 1

theorem monday_spec (d : Int) : monday d ≤ d ∧ d < monday d + 7 := by
  unfold monday
  omega

theorem isoWeek_bounds (d : Int) : 1 ≤ isoWeek d ∧ isoWeek d ≤ 53 := by
  have hyear := januaryFirst_spec (monday d + 3)
  unfold isoWeek isoYear
  omega

/-- The days from a Monday to the Sunday after it are in one week. -/
theorem monday_eq {d d' : Int} (hlo : monday d ≤ d') (hhi : d' < monday d + 7) :
    monday d' = monday d := by
  unfold monday at *
  omega

/-- The ISO year and week say which week it is. -/
theorem monday_injective {d d' : Int} (hy : isoYear d = isoYear d')
    (hw : isoWeek d = isoWeek d') : monday d = monday d' := by
  unfold isoWeek at hw
  rw [hy] at hw
  unfold monday at *
  omega

example : (year 20551, month 20551, day 20551) = (2026, 4, 8) := by decide

example : (isoYear 20551, isoWeek 20551) = (2026, 15) := by decide

end Lib.Calendar
