import Mathlib.Algebra.BigOperators.Intervals
import Mathlib.Algebra.Order.BigOperators.Group.Finset
import Mathlib.Tactic.IntervalCases

namespace HitOs

/-!
# The Gregorian calendar

Dates with a time of day, counted in seconds from the first one of an epoch on.  Months
and hours are counted from zero and days from one.  Later moments have more seconds,
because a part of a year, of a month or of a day is shorter than the whole one.
-/

namespace Calendar

def isLeap (year : Nat) : Bool :=
  year % 4 == 0 && (year % 100 != 0 || year % 400 == 0)

def yearLength (year : Nat) : Nat :=
  if isLeap year then 366 else 365

def monthLength (year month : Nat) : Nat :=
  if month = 1 then
    if isLeap year then 29 else 28
  else if month = 3 ∨ month = 5 ∨ month = 8 ∨ month = 10 then 30
  else 31

/-- The days of the years from an epoch to a year. -/
def daysBeforeYear (epoch year : Nat) : Nat :=
  ∑ earlier ∈ Finset.Ico epoch year, yearLength earlier

/-- The days of the months before a month of a year. -/
def daysBeforeMonth (year month : Nat) : Nat :=
  ∑ earlier ∈ Finset.range month, monthLength year earlier

/-- A day of the calendar, and a time of it. -/
structure Moment where
  year : Nat
  month : Nat
  day : Nat
  hour : Nat
  minute : Nat
  second : Nat
  monthValid : month < 12
  dayPositive : 1 ≤ day
  dayValid : day ≤ monthLength year month
  hourValid : hour < 24
  minuteValid : minute < 60
  secondValid : second < 60

namespace Moment

/-- The seconds of a day that are over. -/
def secondOfDay (moment : Moment) : Nat :=
  3600 * moment.hour + 60 * moment.minute + moment.second

/-- The days from an epoch that are over. -/
def days (epoch : Nat) (moment : Moment) : Nat :=
  daysBeforeYear epoch moment.year + daysBeforeMonth moment.year moment.month +
    (moment.day - 1)

/-- The seconds since the first one of an epoch. -/
def seconds (epoch : Nat) (moment : Moment) : Nat :=
  86400 * moment.days epoch + moment.secondOfDay

/-- The order of days. -/
def EarlierDay (first second : Moment) : Prop :=
  first.year < second.year ∨
    first.year = second.year ∧
      (first.month < second.month ∨ first.month = second.month ∧ first.day < second.day)

/-- The order of times of the day. -/
def EarlierTime (first second : Moment) : Prop :=
  first.hour < second.hour ∨
    first.hour = second.hour ∧
      (first.minute < second.minute ∨
        first.minute = second.minute ∧ first.second < second.second)

/-- The order of the calendar and of the clock. -/
def Before (first second : Moment) : Prop :=
  first.EarlierDay second ∨
    (first.year = second.year ∧ first.month = second.month ∧
        first.day = second.day) ∧
      first.EarlierTime second

end Moment

variable {epoch year later month next : Nat}

theorem daysBeforeYear_succ (since : epoch ≤ year) :
    daysBeforeYear epoch (year + 1) = daysBeforeYear epoch year + yearLength year :=
  Finset.sum_Ico_succ_top since _

theorem daysBeforeYear_mono (ordered : year ≤ later) :
    daysBeforeYear epoch year ≤ daysBeforeYear epoch later :=
  Finset.sum_le_sum_of_subset (Finset.Ico_subset_Ico_right ordered)

theorem daysBeforeMonth_succ :
    daysBeforeMonth year (month + 1) =
      daysBeforeMonth year month + monthLength year month :=
  Finset.sum_range_succ _ _

theorem daysBeforeMonth_mono (ordered : month ≤ next) :
    daysBeforeMonth year month ≤ daysBeforeMonth year next :=
  Finset.sum_le_sum_of_subset (Finset.range_mono ordered)

/-- The months of a year are the year. -/
theorem daysBeforeMonth_twelve : daysBeforeMonth year 12 = yearLength year := by
  simp only [daysBeforeMonth, Finset.sum_range_succ, Finset.sum_range_zero,
    monthLength, yearLength]
  cases isLeap year <;> simp

namespace Moment

variable {first second moment : Moment}

theorem secondOfDay_lt : moment.secondOfDay < 86400 := by
  have hour := moment.hourValid
  have minute := moment.minuteValid
  have second := moment.secondValid
  rw [secondOfDay]
  omega

/-- A day of a month is one of the days of its year. -/
theorem dayOfYear_lt :
    daysBeforeMonth moment.year moment.month + (moment.day - 1) <
      yearLength moment.year := by
  have ends : daysBeforeMonth moment.year (moment.month + 1) ≤
      daysBeforeMonth moment.year 12 :=
    daysBeforeMonth_mono moment.monthValid
  have positive := moment.dayPositive
  have valid := moment.dayValid
  rw [daysBeforeMonth_twelve, daysBeforeMonth_succ] at ends
  omega

theorem days_lt
    (since : epoch ≤ first.year)
    (earlier : first.EarlierDay second) :
    first.days epoch < second.days epoch := by
  rw [days, days]
  rcases earlier with year | ⟨year, month | ⟨month, day⟩⟩
  · have most := first.dayOfYear_lt
    have ends : daysBeforeYear epoch (first.year + 1) ≤
        daysBeforeYear epoch second.year :=
      daysBeforeYear_mono year
    rw [daysBeforeYear_succ since] at ends
    omega
  · have ends : daysBeforeMonth second.year (first.month + 1) ≤
        daysBeforeMonth second.year second.month :=
      daysBeforeMonth_mono month
    have positive := first.dayPositive
    have valid := first.dayValid
    rw [daysBeforeMonth_succ] at ends
    rw [year] at valid ⊢
    omega
  · have positive := first.dayPositive
    rw [year, month]
    omega

theorem secondOfDay_mono (earlier : first.EarlierTime second) :
    first.secondOfDay < second.secondOfDay := by
  have minute := first.minuteValid
  have most := first.secondValid
  rw [secondOfDay, secondOfDay]
  rcases earlier with hour | ⟨hour, minute | ⟨minute, second⟩⟩ <;> omega

/-- Later moments have more seconds. -/
theorem seconds_lt
    (since : epoch ≤ first.year)
    (before : first.Before second) :
    first.seconds epoch < second.seconds epoch := by
  have most := first.secondOfDay_lt
  rw [seconds, seconds]
  rcases before with earlier | ⟨⟨year, month, day⟩, time⟩
  · have more := days_lt since earlier
    omega
  · have same : first.days epoch = second.days epoch := by
      rw [days, days, year, month, day]
    have more := secondOfDay_mono time
    omega

end Moment

end Calendar

end HitOs
