import Mathlib.Algebra.BigOperators.Intervals
import Mathlib.Algebra.Group.Action.Defs
import Mathlib.Algebra.Order.BigOperators.Group.Finset
import Mathlib.Tactic.IntervalCases

/-! # The Gregorian calendar

Days are counted from an epoch by adding up the lengths of the years and months in between.  The count
has a closed form, and it orders the dates as their years, months and days do.
-/

namespace Decentagram.Lib.Gregorian

def isLeapYear (year : Nat) : Prop := year % 4 = 0 ∧ year % 100 ≠ 0 ∨ year % 400 = 0

instance (year : Nat) : Decidable (isLeapYear year) := inferInstanceAs (Decidable (_ ∨ _))

def daysInYear (year : Nat) : Nat := if isLeapYear year then 366 else 365

/-- The months are numbered from 1. -/
def daysInMonth (year month : Nat) : Nat :=
  if month = 2 then if isLeapYear year then 29 else 28
  else if month ∈ [4, 6, 9, 11] then 30
  else 31

structure Date where
  year : Nat
  month : Nat
  day : Nat
  isMonth : 1 ≤ month ∧ month ≤ 12
  isDay : 1 ≤ day ∧ day ≤ daysInMonth year month
deriving DecidableEq

def daysBeforeYear (epoch year : Nat) : Nat := ∑ earlier ∈ Finset.Ico epoch year, daysInYear earlier

def daysBeforeMonth (year month : Nat) : Nat := ∑ earlier ∈ Finset.Ico 1 month, daysInMonth year earlier

namespace Date

/-- The day of the year, from 0 on. -/
def dayOfYear (date : Date) : Nat := daysBeforeMonth date.year date.month + (date.day - 1)

/-- The days from the first of January of the epoch to the date. -/
def dayNumber (epoch : Nat) (date : Date) : Nat := daysBeforeYear epoch date.year + date.dayOfYear

end Date

/-! ## Closed forms -/

theorem daysBeforeYear_succ {epoch year : Nat} (later : epoch ≤ year) :
    daysBeforeYear epoch (year + 1) = daysBeforeYear epoch year + daysInYear year :=
  Finset.sum_Ico_succ_top later daysInYear

/-- The days from the first of January of the year 1. -/
theorem daysBeforeYear_eq {epoch year : Nat} (positive : 0 < epoch) (later : epoch ≤ year) :
    daysBeforeYear epoch year + (365 * (epoch - 1) + (epoch - 1) / 4 - (epoch - 1) / 100 + (epoch - 1) / 400) =
      365 * (year - 1) + (year - 1) / 4 - (year - 1) / 100 + (year - 1) / 400 := by
  induction year, later using Nat.le_induction with
  | base => simp [daysBeforeYear]
  | succ year later inductionHypothesis =>
    -- the leap days up to a year are those up to the year before, and one more in a leap year
    rw [daysBeforeYear_succ later, daysInYear]
    split
    next leap =>
      simp only [isLeapYear] at leap
      omega
    next common =>
      simp only [isLeapYear] at common
      omega

/-- With the leap day at the end of the year that starts with March, the months before a month have a
    linear count of days. -/
theorem daysBeforeMonth_eq {year month : Nat} (isMonth : 1 ≤ month ∧ month ≤ 12) :
    daysBeforeMonth year month =
      if month ≤ 2 then 31 * (month - 1)
      else (367 * (month - 2)) / 12 + 29 + if isLeapYear year then 1 else 0 := by
  obtain ⟨first, last⟩ := isMonth
  by_cases leap : isLeapYear year <;> interval_cases month <;>
    simp [daysBeforeMonth, Finset.sum_Ico_succ_top, daysInMonth, leap]

/-! ## Bounds -/

theorem daysInYear_le (year : Nat) : daysInYear year ≤ 366 := by
  unfold daysInYear
  split <;> decide

theorem daysInMonth_le (year month : Nat) : daysInMonth year month ≤ 31 := by
  unfold daysInMonth
  split
  next february => split <;> decide
  next later => split <;> decide

theorem daysBeforeYear_le (epoch year : Nat) : daysBeforeYear epoch year ≤ 366 * (year - epoch) := by
  have each := Finset.sum_le_card_nsmul (Finset.Ico epoch year) daysInYear 366
    fun earlier _ => daysInYear_le earlier
  rwa [Nat.card_Ico, smul_eq_mul, Nat.mul_comm] at each

theorem Date.day_le (date : Date) : date.day ≤ 31 := Nat.le_trans date.isDay.2 (daysInMonth_le _ _)

/-! ## The order of the dates -/

theorem daysBeforeMonth_succ {year month : Nat} (positive : 1 ≤ month) :
    daysBeforeMonth year (month + 1) = daysBeforeMonth year month + daysInMonth year month :=
  Finset.sum_Ico_succ_top positive (daysInMonth year)

theorem daysBeforeMonth_mono {year first last : Nat} (le : first ≤ last) :
    daysBeforeMonth year first ≤ daysBeforeMonth year last :=
  Finset.sum_le_sum_of_subset (Finset.Ico_subset_Ico_right le)

theorem daysBeforeYear_mono {epoch first last : Nat} (le : first ≤ last) :
    daysBeforeYear epoch first ≤ daysBeforeYear epoch last :=
  Finset.sum_le_sum_of_subset (Finset.Ico_subset_Ico_right le)

theorem daysBeforeMonth_end (year : Nat) : daysBeforeMonth year 13 = daysInYear year := by
  by_cases leap : isLeapYear year <;>
    simp [daysBeforeMonth, Finset.sum_Ico_succ_top, daysInMonth, daysInYear, leap]

namespace Date

variable {epoch : Nat} {date other : Date}

theorem dayOfYear_lt (date : Date) : date.dayOfYear < daysBeforeMonth date.year (date.month + 1) := by
  have isMonth := date.isMonth
  have isDay := date.isDay
  rw [daysBeforeMonth_succ isMonth.1, dayOfYear]
  omega

theorem dayOfYear_lt_daysInYear (date : Date) : date.dayOfYear < daysInYear date.year := by
  have isMonth := date.isMonth
  calc date.dayOfYear
      < daysBeforeMonth date.year (date.month + 1) := date.dayOfYear_lt
    _ ≤ daysBeforeMonth date.year 13 := daysBeforeMonth_mono (by omega)
    _ = daysInYear date.year := daysBeforeMonth_end date.year

/-- The first one of two dates. -/
def Before (date other : Date) : Prop :=
  date.year < other.year ∨ date.year = other.year ∧
    (date.month < other.month ∨ date.month = other.month ∧ date.day < other.day)

instance (date other : Date) : Decidable (date.Before other) := inferInstanceAs (Decidable (_ ∨ _))

theorem ext_iff' : date = other ↔
    date.year = other.year ∧ date.month = other.month ∧ date.day = other.day := by
  cases date
  cases other
  simp

theorem before_or (different : date ≠ other) : date.Before other ∨ other.Before date := by
  rw [ne_eq, ext_iff'] at different
  simp only [Before]
  omega

theorem dayNumber_lt_of_before (since : epoch ≤ date.year) (before : date.Before other) :
    date.dayNumber epoch < other.dayNumber epoch := by
  have isMonth := other.isMonth
  have isDay := other.isDay
  have isDay' := date.isDay
  rcases before with earlierYear | ⟨sameYear, earlierMonth | ⟨sameMonth, earlierDay⟩⟩
  · calc date.dayNumber epoch
        < daysBeforeYear epoch date.year + daysInYear date.year :=
          Nat.add_lt_add_left date.dayOfYear_lt_daysInYear _
      _ = daysBeforeYear epoch (date.year + 1) := (daysBeforeYear_succ since).symm
      _ ≤ daysBeforeYear epoch other.year := daysBeforeYear_mono earlierYear
      _ ≤ other.dayNumber epoch := Nat.le_add_right _ _
  · have inMonth := date.dayOfYear_lt
    have months : daysBeforeMonth date.year (date.month + 1) ≤ daysBeforeMonth date.year other.month :=
      daysBeforeMonth_mono earlierMonth
    simp only [dayNumber, ← sameYear]
    simp only [dayOfYear, ← sameYear] at inMonth ⊢
    omega
  · simp only [dayNumber, dayOfYear, ← sameYear, ← sameMonth]
    omega

/-- The days are numbered in the order of the dates. -/
theorem dayNumber_lt_iff (since : epoch ≤ date.year) (since' : epoch ≤ other.year) :
    date.dayNumber epoch < other.dayNumber epoch ↔ date.Before other := by
  refine ⟨fun lt => ?_, dayNumber_lt_of_before since⟩
  by_contra notBefore
  rcases eq_or_ne date other with rfl | different
  · exact absurd lt (Nat.lt_irrefl _)
  · have behind := (before_or different).resolve_left notBefore
    exact absurd (dayNumber_lt_of_before since' behind) (Nat.lt_asymm lt)

theorem dayNumber_inj (since : epoch ≤ date.year) (since' : epoch ≤ other.year) :
    date.dayNumber epoch = other.dayNumber epoch ↔ date = other := by
  refine ⟨fun same => ?_, congrArg _⟩
  by_contra different
  rcases before_or different with before | behind
  · exact absurd (dayNumber_lt_of_before since before) (by omega)
  · exact absurd (dayNumber_lt_of_before since' behind) (by omega)

end Date

/-! ## Times of a day -/

structure DateTime where
  date : Date
  hour : Nat
  minute : Nat
  second : Nat
  isTime : hour < 24 ∧ minute < 60 ∧ second < 60
deriving DecidableEq

namespace DateTime

def secondOfDay (time : DateTime) : Nat := time.hour * 3600 + time.minute * 60 + time.second

def seconds (epoch : Nat) (time : DateTime) : Nat := time.date.dayNumber epoch * 86400 + time.secondOfDay

def Before (time other : DateTime) : Prop :=
  time.date.Before other.date ∨ time.date = other.date ∧
    (time.hour < other.hour ∨ time.hour = other.hour ∧
      (time.minute < other.minute ∨ time.minute = other.minute ∧ time.second < other.second))

/-- The seconds are numbered in the order of the times. -/
theorem seconds_lt_iff {epoch : Nat} {time other : DateTime} (since : epoch ≤ time.date.year)
    (since' : epoch ≤ other.date.year) :
    time.seconds epoch < other.seconds epoch ↔ time.Before other := by
  have isTime := time.isTime
  have isTime' := other.isTime
  have days := Date.dayNumber_lt_iff since since'
  have sameDay := Date.dayNumber_inj since since'
  rw [Before, ← days, ← sameDay, seconds, seconds, secondOfDay, secondOfDay]
  omega

end DateTime

end Decentagram.Lib.Gregorian
