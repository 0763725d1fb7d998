import Mathlib.Algebra.BigOperators.Intervals
import Mathlib.Tactic.IntervalCases

/-!
# The Gregorian calendar

A date is a year, a month and a day that there is (`Gregorian.Date`); the days are numbered from the
first of January of year 1 by adding up the lengths of the years and of the months before
(`Gregorian.Date.dayNumber`). That day is a Monday. The days before a year are also counted by a closed
formula (`Gregorian.sum_yearLength`).
-/

namespace Gregorian

open Finset

/-! ### Years -/

/-- A leap year. -/
def IsLeap (y : ℕ) : Prop := y % 4 = 0 ∧ y % 100 ≠ 0 ∨ y % 400 = 0

instance (y : ℕ) : Decidable (IsLeap y) := inferInstanceAs (Decidable (_ ∨ _))

/-- The days of a year. -/
def yearLength (y : ℕ) : ℕ := if IsLeap y then 366 else 365

/-- The leap years up to a year. -/
def leapYears (y : ℕ) : ℕ := y / 4 - y / 100 + y / 400

theorem leapYears_succ (y : ℕ) :
    leapYears (y + 1) = leapYears y + if IsLeap (y + 1) then 1 else 0 := by
  by_cases h : IsLeap (y + 1)
  · rw [if_pos h]
    unfold leapYears
    unfold IsLeap at h
    omega
  · rw [if_neg h]
    unfold leapYears
    unfold IsLeap at h
    omega

/-- The days up to the end of a year. -/
def daysUpTo (y : ℕ) : ℕ := 365 * y + leapYears y

theorem daysUpTo_succ (y : ℕ) : daysUpTo (y + 1) = daysUpTo y + yearLength (y + 1) := by
  rw [daysUpTo, daysUpTo, leapYears_succ, yearLength]
  split_ifs <;> omega

theorem daysUpTo_mono : Monotone daysUpTo :=
  monotone_nat_of_le_succ fun y => by
    rw [daysUpTo_succ]
    exact Nat.le_add_right _ _

/-- The days before a year are counted by the closed formula. -/
theorem sum_yearLength (y : ℕ) : ∑ k ∈ Ico 1 (y + 1), yearLength k = daysUpTo y := by
  induction y with
  | zero => rfl
  | succ y ih => rw [sum_Ico_succ_top (Nat.le_add_left 1 y), ih, daysUpTo_succ]

/-! ### Months -/

/-- The days of the months of a year. -/
def monthLengths (y : ℕ) : List ℕ :=
  [31, if IsLeap y then 29 else 28, 31, 30, 31, 30, 31, 31, 30, 31, 30, 31]

theorem sum_monthLengths (y : ℕ) : (monthLengths y).sum = yearLength y := by
  unfold monthLengths yearLength
  split_ifs <;> rfl

theorem le_of_mem_monthLengths {y l : ℕ} (h : l ∈ monthLengths y) : l ≤ 31 := by
  have hfebruary : (if IsLeap y then 29 else 28) ≤ 31 := by split <;> omega
  rw [monthLengths] at h
  simp only [List.mem_cons, List.not_mem_nil, or_false] at h
  omega

/-! ### Dates -/

/-- A date. -/
structure Date where
  year : ℕ
  /-- The number of months before it in the year. -/
  monthsBefore : ℕ
  day : ℕ
  year_pos : 1 ≤ year
  month_lt : monthsBefore < (monthLengths year).length
  day_mem : day ∈ Icc 1 (monthLengths year)[monthsBefore]

namespace Date

/-- The number of the month. -/
def month (d : Date) : ℕ := d.monthsBefore + 1

/-- The number of days before it. -/
def dayNumber (d : Date) : ℕ :=
  ∑ k ∈ Ico 1 d.year, yearLength k + ((monthLengths d.year).take d.monthsBefore).sum + (d.day - 1)

/-- The day of the week, with 1 for Monday. -/
def weekday (d : Date) : ℕ := d.dayNumber % 7 + 1

theorem month_le (d : Date) : d.month ≤ 12 := d.month_lt

theorem day_le (d : Date) : d.day ≤ 31 :=
  (mem_Icc.mp d.day_mem).2.trans (le_of_mem_monthLengths (List.getElem_mem d.month_lt))

/-- The days of the years before, by the closed formula. -/
theorem dayNumber_eq (d : Date) : d.dayNumber = daysUpTo (d.year - 1) +
    ((monthLengths d.year).take d.monthsBefore).sum + (d.day - 1) := by
  rw [dayNumber, ← sum_yearLength, Nat.sub_add_cancel d.year_pos]

theorem daysUpTo_le_dayNumber (d : Date) : daysUpTo (d.year - 1) ≤ d.dayNumber := by
  rw [dayNumber_eq, Nat.add_assoc]
  exact Nat.le_add_right _ _

/-- The day is in its year. -/
theorem dayNumber_lt (d : Date) : d.dayNumber < daysUpTo d.year := by
  obtain ⟨hpos, hle⟩ := mem_Icc.mp d.day_mem
  have hsplit := List.sum_take_add_sum_drop (monthLengths d.year) d.monthsBefore
  rw [List.drop_eq_getElem_cons d.month_lt, List.sum_cons, sum_monthLengths] at hsplit
  have hyear := daysUpTo_succ (d.year - 1)
  rw [Nat.sub_add_cancel d.year_pos] at hyear
  rw [dayNumber_eq, hyear]
  omega

/-- A day from the end of a year on is in a later year. -/
theorem lt_year {d : Date} {y : ℕ} (h : daysUpTo y ≤ d.dayNumber) : y < d.year := by
  by_contra hle
  have hmono := daysUpTo_mono (Nat.le_of_not_lt hle)
  have hlt := d.dayNumber_lt
  omega

/-- A day before the end of a year is in it or earlier. -/
theorem year_le {d : Date} {y : ℕ} (h : d.dayNumber < daysUpTo y) : d.year ≤ y := by
  by_contra hlt
  have hmono := daysUpTo_mono (Nat.le_sub_one_of_lt (Nat.lt_of_not_le hlt))
  have hle := d.daysUpTo_le_dayNumber
  omega

end Date

end Gregorian
