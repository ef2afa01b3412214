import Mathlib.Tactic

/-!
# The Gregorian calendar

Dates and times of day from year 0 on, the number of a day, and seconds since the Epoch.  A leap
second counts as the first second of the next minute.
-/

namespace Ipxe.Library

variable (year : ℕ)

def LeapYear : Prop := year % 4 = 0 ∧ (year % 100 ≠ 0 ∨ year % 400 = 0)

instance (year : ℕ) : Decidable (LeapYear year) := inferInstanceAs (Decidable (_ ∧ _))

def yearLength : ℕ := if LeapYear year then 366 else 365

/-- The days of a month, the months being numbered from 1. -/
def monthLength (month : ℕ) : ℕ :=
  [0, 31, if LeapYear year then 29 else 28, 31, 30, 31, 30, 31, 31, 30, 31, 30, 31].getD month 0

def daysToYear : ℕ := ∑ y ∈ Finset.range year, yearLength y

def daysToMonth (month : ℕ) : ℕ := ∑ m ∈ Finset.range month, monthLength year m

structure CalendarTime where
  year : ℕ
  month : ℕ
  day : ℕ
  hour : ℕ
  minute : ℕ
  second : ℕ
  deriving DecidableEq

namespace CalendarTime

variable (time : CalendarTime)

structure Valid : Prop where
  month : 1 ≤ time.month ∧ time.month ≤ 12
  day : 1 ≤ time.day ∧ time.day ≤ monthLength time.year time.month
  hour : time.hour < 24
  minute : time.minute < 60
  second : time.second ≤ 60

/-- The day of the year, the first one being 0. -/
def yearDay : ℕ := daysToMonth time.year time.month + (time.day - 1)

def epochDay : ℤ := (daysToYear time.year + time.yearDay : ℕ) - (daysToYear 1970 : ℕ)

/-- The day of the week, Sunday being 0; 1 January 1970 was a Thursday. -/
def weekDay : ℤ := (time.epochDay + 4) % 7

def epochSeconds : ℤ :=
  time.epochDay * 86400 + (time.hour * 3600 + time.minute * 60 + time.second : ℕ)

end CalendarTime

/-- Leap days, with the exceptions for centuries. -/
theorem daysToYear_eq :
    daysToYear year = 365 * year + (year + 3) / 4 - (year + 99) / 100 + (year + 399) / 400 := by
  induction year with
  | zero => rfl
  | succ year ih =>
    rw [daysToYear, Finset.sum_range_succ, ← daysToYear, ih, yearLength]
    by_cases hleap : LeapYear year
    · rw [if_pos hleap]
      obtain ⟨hfour, hcentury⟩ := hleap
      omega
    · rw [if_neg hleap]
      rw [LeapYear] at hleap
      omega

/-- The Epoch. -/
theorem daysToYear_1970 : daysToYear 1970 = 719528 := by
  rw [daysToYear_eq]

/-- The table of months, and the leap day behind February. -/
theorem daysToMonth_eq {month : ℕ} (h : 1 ≤ month ∧ month ≤ 12) :
    daysToMonth year month =
      [0, 31, 59, 90, 120, 151, 181, 212, 243, 273, 304, 334].getD (month - 1) 0 +
        if 3 ≤ month ∧ LeapYear year then 1 else 0 := by
  obtain ⟨hlow, hhigh⟩ := h
  by_cases hleap : LeapYear year <;>
    interval_cases month <;>
      simp [daysToMonth, Finset.sum_range_succ, monthLength, hleap]

/-- December begins after 335 days at most. -/
theorem daysToMonth_le {month : ℕ} (h : 1 ≤ month ∧ month ≤ 12) : daysToMonth year month ≤ 335 := by
  rw [daysToMonth_eq year h]
  obtain ⟨hlow, hhigh⟩ := h
  have htable : ∀ i < 12, [0, 31, 59, 90, 120, 151, 181, 212, 243, 273, 304, 334].getD i 0 ≤ 334 := by
    decide
  have := htable (month - 1) (by omega)
  split_ifs <;> omega

/-- Days since the Epoch by year and day of the year. -/
theorem CalendarTime.epochDay_eq (time : CalendarTime) :
    time.epochDay = (daysToYear time.year + time.yearDay : ℕ) - 719528 := by
  rw [CalendarTime.epochDay, daysToYear_1970]
  rfl

end Ipxe.Library
