import HitOs.Calendars
import HitOs.MachineInts

namespace HitOs

/-!
# The time of the kernel

`kernel_mktime` of `mktime.c`, in integers of 32 bits.  Its leap years are every fourth
year, which those of the calendar are as long as the seconds fit.
-/

namespace Times

open Calendar

/-- The fields of `tm` that are used here. -/
structure Tm where
  sec : Int
  min : Int
  hour : Int
  mday : Int
  mon : Int
  year : Int

/-- `MINUTE` -/
def minute : Int := 60

/-- `HOUR` -/
def hour : Int := 60 * minute

/-- `DAY` -/
def day : Int := 24 * hour

/-- `YEAR` -/
def year : Int := 365 * day

/-- The table `month`, for leap years. -/
def month : List Int :=
  [0,
    day * 31,
    day * (31 + 29),
    day * (31 + 29 + 31),
    day * (31 + 29 + 31 + 30),
    day * (31 + 29 + 31 + 30 + 31),
    day * (31 + 29 + 31 + 30 + 31 + 30),
    day * (31 + 29 + 31 + 30 + 31 + 30 + 31),
    day * (31 + 29 + 31 + 30 + 31 + 30 + 31 + 31),
    day * (31 + 29 + 31 + 30 + 31 + 30 + 31 + 31 + 30),
    day * (31 + 29 + 31 + 30 + 31 + 30 + 31 + 31 + 30 + 31),
    day * (31 + 29 + 31 + 30 + 31 + 30 + 31 + 31 + 30 + 31 + 30)]

/-- `month[mon]`; none beside of the table. -/
def monthAt (mon : Int) : Option Int :=
  if 0 ≤ mon then month[mon.toNat]? else none

/-- `kernel_mktime`; divisions round to zero. -/
def kernelMktime (tm : Tm) : Option Int :=
  let years := int32 (tm.year - 70)
  let res :=
    int32 (int32 (year * years) + int32 (day * (int32 (years + 1)).tdiv 4))
  (monthAt tm.mon).map fun seconds =>
    let res := int32 (res + seconds)
    let res :=
      if tm.mon > 1 ∧ (int32 (years + 2)).tmod 4 ≠ 0 then int32 (res - day)
      else res
    let res := int32 (res + int32 (day * int32 (tm.mday - 1)))
    let res := int32 (res + int32 (hour * tm.hour))
    let res := int32 (res + int32 (minute * tm.min))
    int32 (res + tm.sec)

/-- The seconds since the beginning of 1970. -/
def unixTime (moment : Moment) : Nat :=
  moment.seconds 1970

/-- A moment as `tm` has it, with the years counted from `base`. -/
def Tm.ofMoment (base : Nat) (moment : Moment) : Tm where
  sec := moment.second
  min := moment.minute
  hour := moment.hour
  mday := moment.day
  mon := moment.month
  year := moment.year - base

/-! ## The years -/

section Years

variable {number index : Nat}

/-- Before 2100 every fourth year is a leap year. -/
theorem isLeap_iff
    (since : 1970 ≤ number)
    (notLater : number < 2100) :
    isLeap number = true ↔ number % 4 = 0 := by
  simp only [isLeap, Bool.and_eq_true, Bool.or_eq_true, beq_iff_eq, bne_iff_ne]
  omega

theorem daysBeforeYear_eq
    (since : 1970 ≤ number)
    (notLater : number ≤ 2100) :
    daysBeforeYear 1970 number =
      365 * (number - 1970) + (number - 1969) / 4 := by
  induction number, since using Nat.le_induction with
  | base =>
    rfl
  | succ number since inductionHypothesis =>
    have leap := isLeap_iff since (by omega)
    rw [daysBeforeYear_succ since, inductionHypothesis (by omega), yearLength]
    simp only [leap]
    split <;> omega

/-- The table is right for leap years, and has a day too much after other Februaries. -/
theorem month_eq (valid : index < 12) :
    month[index]? =
      some (day * daysBeforeMonth number index +
        if 1 < index ∧ isLeap number = false then day else 0) := by
  interval_cases index <;>
    simp only [daysBeforeMonth, Finset.sum_range_succ, Finset.sum_range_zero,
      monthLength] <;>
    cases isLeap number <;> rfl

end Years

/-! ## The sum -/

/-- What `kernel_mktime` adds up, where nothing wraps. -/
def total (tm : Tm) (seconds : Int) : Int :=
  let years := tm.year - 70
  let february :=
    if tm.mon > 1 ∧ (years + 2).tmod 4 ≠ 0 then day else 0
  year * years + day * (years + 1).tdiv 4 + seconds - february +
    day * (tm.mday - 1) + hour * tm.hour + minute * tm.min + tm.sec

/-- All the wraps are one wrap of the sum. -/
theorem kernelMktime_eq
    {tm : Tm}
    (lower : -2 ^ 30 ≤ tm.year)
    (upper : tm.year ≤ 2 ^ 30) :
    kernelMktime tm =
      (monthAt tm.mon).map fun seconds => int32 (total tm seconds) := by
  have years : int32 (tm.year - 70) = tm.year - 70 :=
    int32_of_fits ⟨by omega, by omega⟩
  have next : int32 (tm.year - 70 + 1) = tm.year - 70 + 1 :=
    int32_of_fits ⟨by omega, by omega⟩
  have second : int32 (tm.year - 70 + 2) = tm.year - 70 + 2 :=
    int32_of_fits ⟨by omega, by omega⟩
  simp only [kernelMktime, years, next, second, total]
  refine congrArg (fun change => (monthAt tm.mon).map change) (funext fun seconds => ?_)
  split <;> simp [int32]

section Moments

variable {base : Nat} {moment : Moment}

/-- A valid month is in the table. -/
theorem monthAt_ofMoment (base : Nat) (moment : Moment) :
    monthAt (Tm.ofMoment base moment).mon =
      some (day * daysBeforeMonth moment.year moment.month +
        if 1 < moment.month ∧ isLeap moment.year = false then day else 0) := by
  rw [monthAt, Tm.ofMoment, if_pos (Int.natCast_nonneg _), Int.toNat_natCast]
  exact month_eq moment.monthValid

/-- The Unix time, as a sum of products. -/
theorem unixTime_eq
    (since : 1970 ≤ moment.year)
    (notLater : moment.year < 2100) :
    (unixTime moment : Int) =
      year * (moment.year - 1970) + day * ((moment.year - 1969) / 4) +
        day * daysBeforeMonth moment.year moment.month +
        day * (moment.day - 1) + hour * moment.hour +
        minute * moment.minute + moment.second := by
  have positive := moment.dayPositive
  rw [unixTime, Moment.seconds, Moment.days, Moment.secondOfDay,
    daysBeforeYear_eq since (by omega)]
  simp only [year, day, hour, minute]
  omega

/-- A moment until 2038-01-19 03:14:07 is not later than that year. -/
theorem year_le_of_fits
    (fits : unixTime moment < 2 ^ 31) :
    moment.year ≤ 2038 := by
  by_contra late
  have more : daysBeforeYear 1970 2039 ≤ daysBeforeYear 1970 moment.year :=
    daysBeforeYear_mono (by omega)
  rw [daysBeforeYear_eq (by decide) (by decide)] at more
  rw [unixTime, Moment.seconds, Moment.days] at fits
  omega

/-- The test for a year without a leap day. -/
theorem leapTest
    (fourth : base % 4 = 0)
    (since : 1970 ≤ moment.year)
    (notLater : moment.year < 2100) :
    ((moment.year - base - 70 + 2 : Int).tmod 4 ≠ 0) ↔
      isLeap moment.year = false := by
  rw [← Bool.not_eq_true, isLeap_iff since notLater]
  apply not_congr
  rw [← Int.dvd_iff_tmod_eq_zero]
  omega

/-- The leap day that the table has too much is taken back. -/
theorem total_ofMoment
    {seconds : Int}
    (fourth : base % 4 = 0)
    (since : 1970 ≤ moment.year)
    (notLater : moment.year < 2100)
    (inTable : monthAt (Tm.ofMoment base moment).mon = some seconds) :
    total (Tm.ofMoment base moment) seconds =
      year * (moment.year - base - 70) +
        day * (moment.year - base - 69 : Int).tdiv 4 +
        day * daysBeforeMonth moment.year moment.month +
        day * (moment.day - 1) + hour * moment.hour +
        minute * moment.minute + moment.second := by
  rw [monthAt_ofMoment, Option.some_inj] at inTable
  have test :
      ((Tm.ofMoment base moment).mon > 1 ∧
          ((Tm.ofMoment base moment).year - 70 + 2).tmod 4 ≠ 0) ↔
        1 < moment.month ∧ isLeap moment.year = false := by
    refine and_congr ?_ (leapTest fourth since notLater)
    exact Int.ofNat_lt (n := 1)
  have place : (moment.year - base - 70 + 1 : Int) = moment.year - base - 69 := by
    omega
  simp only [total, test, ← inTable]
  simp only [Tm.ofMoment, place]
  omega

/-- The years of a calendar moment do not wrap. -/
theorem kernelMktime_ofMoment
    (base_le : base ≤ 2000)
    (notLater : moment.year < 2100) :
    kernelMktime (Tm.ofMoment base moment) =
      (monthAt (Tm.ofMoment base moment).mon).map fun seconds =>
        int32 (total (Tm.ofMoment base moment) seconds) := by
  apply kernelMktime_eq
  · change -2 ^ 30 ≤ (moment.year - base : Int)
    omega
  · change (moment.year - base : Int) ≤ 2 ^ 30
    omega

/-- Years since 1900 give the Unix time. -/
theorem kernelMktime_of_fits
    (since : 1970 ≤ moment.year)
    (fits : unixTime moment < 2 ^ 31) :
    kernelMktime (Tm.ofMoment 1900 moment) = some (unixTime moment : Int) := by
  have notLater : moment.year < 2100 :=
    Nat.lt_of_le_of_lt (year_le_of_fits fits) (by decide)
  have inTable := monthAt_ofMoment 1900 moment
  have sum := total_ofMoment (by decide) since notLater inTable
  have years :
      (moment.year - (1900 : Nat) - 70 : Int) = moment.year - 1970 := by
    omega
  have leaps :
      (moment.year - (1900 : Nat) - 69 : Int).tdiv 4 =
        (moment.year - 1969) / 4 := by
    rw [Int.tdiv_eq_ediv_of_nonneg (by omega)]
    omega
  rw [years, leaps, ← unixTime_eq since notLater] at sum
  rw [kernelMktime_ofMoment (by decide) notLater, inTable, Option.map_some, sum,
    int32_of_fits ⟨by omega, by omega⟩]

end Moments

/--
For moments from 1970 until the seconds no longer fit, `kernel_mktime` is the Unix time,
and earlier moments have less.
-/
theorem kernelMktime_exact
    {moment : Moment}
    (since : 1970 ≤ moment.year)
    (fits : unixTime moment < 2 ^ 31) :
    kernelMktime (Tm.ofMoment 1900 moment) = some (unixTime moment : Int) ∧
      ∀ earlier : Moment,
        1970 ≤ earlier.year → earlier.Before moment →
          ∃ value, kernelMktime (Tm.ofMoment 1900 earlier) = some value ∧
            value < unixTime moment := by
  refine ⟨kernelMktime_of_fits since fits, fun earlier begins before => ?_⟩
  have less : unixTime earlier < unixTime moment := Moment.seconds_lt begins before
  exact ⟨unixTime earlier, kernelMktime_of_fits begins (less.trans fits),
    Int.ofNat_lt.mpr less⟩

/-- Half past noon on the leap day of 2000. -/
def leapDay : Moment where
  year := 2000
  month := 1
  day := 29
  hour := 12
  minute := 30
  second := 45
  monthValid := by decide
  dayPositive := by decide
  dayValid := by decide
  hourValid := by decide
  minuteValid := by decide
  secondValid := by decide

theorem kernelMktime_exact_leapDay :
    kernelMktime (Tm.ofMoment 1900 leapDay) = some 951827445 := by
  have value : unixTime leapDay = 951827445 := by decide +kernel
  have since : 1970 ≤ leapDay.year := by decide
  have fits : unixTime leapDay < 2 ^ 31 := by
    rw [value]
    decide
  have exactly := (kernelMktime_exact since fits).1
  rw [value] at exactly
  exact exactly

end Times

end HitOs
