import HitOs.Mktime

namespace HitOs

/-!
# The clock at boot

`time_init` of `main.c`, which reads the registers of the CMOS clock until no second has
passed meanwhile.  The clock has the last two digits of the year only, and these are taken
for years since 1900, so that the time is right until the end of 1999.
-/

namespace Times

open Calendar

/-- What each read of a register finds: first the number of the read, then the register. -/
abbrev Cmos := Nat → Nat → BitVec 8

/-- `BCD_TO_BIN`, of a byte in an `int`. -/
def bcdToBin (val : Int) : Int :=
  ((val.toNat &&& 15) + (val.toNat >>> 4) * 10 : Nat)

/-- The reads of one turn of the loop of `time_init`. -/
def readClock (cmos : Cmos) (start : Nat) : Tm where
  sec := (cmos start 0).toNat
  min := (cmos (start + 1) 2).toNat
  hour := (cmos (start + 2) 4).toNat
  mday := (cmos (start + 3) 7).toNat
  mon := (cmos (start + 4) 8).toNat
  year := (cmos (start + 5) 9).toNat

/-- What `time_init` makes of the registers. -/
def decode (time : Tm) : Tm where
  sec := bcdToBin time.sec
  min := bcdToBin time.min
  hour := bcdToBin time.hour
  mday := bcdToBin time.mday
  mon := bcdToBin time.mon - 1
  year := bcdToBin time.year

/-- `time_init` from a read on, with the value of `startup_time`; none if no turn is the last. -/
def timeInit (cmos : Cmos) : Nat → Nat → Option Int
  | 0, _ => none
  | turns + 1, start =>
    let time := readClock cmos start
    if time.sec ≠ (cmos (start + 6) 0).toNat then timeInit cmos turns (start + 7)
    else kernelMktime (decode time)

/-! ## What the clock presents -/

/-- Two decimal digits in one byte. -/
def toBcd (number : Nat) : BitVec 8 :=
  BitVec.ofNat 8 (16 * (number / 10) + number % 10)

/-- The registers of the clock at a moment. -/
def register (moment : Moment) : Nat → BitVec 8
  | 0 => toBcd moment.second
  | 2 => toBcd moment.minute
  | 4 => toBcd moment.hour
  | 7 => toBcd moment.day
  | 8 => toBcd (moment.month + 1)
  | 9 => toBcd (moment.year % 100)
  | _ => 0

/-- The clock stands still during the seven reads of a turn. -/
def Presents (cmos : Cmos) (start : Nat) (moment : Moment) : Prop :=
  ∀ read < 7, cmos (start + read) = register moment

/-- Seconds have passed during each of the turns before. -/
def Unsettled (cmos : Cmos) (turns : Nat) : Prop :=
  ∀ turn < turns, cmos (7 * turn) 0 ≠ cmos (7 * turn + 6) 0

section Clock

variable {cmos : Cmos} {start turns fuel number : Nat} {moment : Moment}

/-- Numbers of two digits are decoded. -/
theorem bcdToBin_toBcd (digits : number < 100) :
    bcdToBin (toBcd number).toNat = number := by
  have all : ∀ number < 100, bcdToBin (toBcd number).toNat = number := by
    decide
  exact all number digits

/-- No month is longer than 31 days. -/
theorem monthLength_le {year month : Nat} : monthLength year month ≤ 31 := by
  unfold monthLength
  split
  · split <;> decide
  · split <;> decide

/-- The fields that `kernel_mktime` gets; the years are those of the century. -/
theorem decode_readClock
    {base : Nat}
    (century : base ≤ moment.year ∧ moment.year < base + 100 ∧ base % 100 = 0)
    (presents : Presents cmos start moment) :
    decode (readClock cmos start) = Tm.ofMoment base moment := by
  obtain ⟨lower, upper, whole⟩ := century
  have month := moment.monthValid
  have day := moment.dayValid.trans monthLength_le
  have hour := moment.hourValid
  have minute := moment.minuteValid
  have second := moment.secondValid
  have year : moment.year % 100 = moment.year - base := by
    omega
  have zeroth : cmos start = register moment := presents 0 (by decide)
  have following : ∀ read < 7, cmos (start + read) = register moment := presents
  simp only [decode, readClock, zeroth, following 1 (by decide),
    following 2 (by decide), following 3 (by decide), following 4 (by decide),
    following 5 (by decide), register, year, bcdToBin_toBcd (show moment.second < 100 by omega),
    bcdToBin_toBcd (show moment.minute < 100 by omega),
    bcdToBin_toBcd (show moment.hour < 100 by omega),
    bcdToBin_toBcd (show moment.day < 100 by omega),
    bcdToBin_toBcd (show moment.month + 1 < 100 by omega),
    bcdToBin_toBcd (show moment.year - base < 100 by omega), Tm.ofMoment,
    Tm.mk.injEq, true_and]
  refine ⟨?_, ?_⟩ <;> omega

/-- The loop ends with the first turn during which no second has passed. -/
theorem timeInit_eq
    (unsettled :
      ∀ turn < turns, cmos (start + 7 * turn) 0 ≠ cmos (start + 7 * turn + 6) 0)
    (presents : Presents cmos (start + 7 * turns) moment)
    (enough : turns < fuel) :
    timeInit cmos fuel start =
      kernelMktime (decode (readClock cmos (start + 7 * turns))) := by
  induction turns generalizing fuel start with
  | zero =>
    obtain ⟨fuel, rfl⟩ := Nat.exists_eq_succ_of_ne_zero enough.ne'
    have zeroth : cmos start = register moment := presents 0 (by decide)
    have sixth : cmos (start + 6) = register moment := presents 6 (by decide)
    rw [timeInit]
    simp [readClock, zeroth, sixth]
  | succ turns inductionHypothesis =>
    obtain ⟨fuel, rfl⟩ := Nat.exists_eq_succ_of_ne_zero (Nat.ne_zero_of_lt enough)
    have passed : (readClock cmos start).sec ≠ (cmos (start + 6) 0).toNat := by
      have changed := unsettled 0 (Nat.succ_pos turns)
      exact fun same =>
        changed (BitVec.eq_of_toNat_eq (Int.ofNat_inj.mp same))
    have shifted (turn : Nat) : start + 7 + 7 * turn = start + 7 * (turn + 1) := by
      omega
    rw [timeInit]
    simp only [ne_eq, passed, not_false_eq_true, if_true]
    rw [inductionHypothesis _ _ (Nat.lt_of_succ_lt_succ enough), shifted]
    · intro turn below
      rw [shifted]
      exact unsettled (turn + 1) (Nat.succ_lt_succ below)
    · rw [shifted]
      exact presents

/-- A year since 2000 is taken for one a century earlier, and no wrap makes up for it. -/
theorem kernelMktime_ne
    (since : 2000 ≤ moment.year)
    (fits : unixTime moment < 2 ^ 31) :
    kernelMktime (Tm.ofMoment 2000 moment) ≠ some (unixTime moment : Int) := by
  have notLater : moment.year ≤ 2038 := year_le_of_fits fits
  have inTable := monthAt_ofMoment 2000 moment
  have sum := total_ofMoment (by decide) (by omega) (by omega) inTable
  have unix : 1970 ≤ moment.year := by omega
  have before2100 : moment.year < 2100 := by omega
  have real := unixTime_eq unix before2100
  rw [kernelMktime_ofMoment (by decide) (by omega), inTable, Option.map_some,
    ne_eq, Option.some_inj]
  generalize total (Tm.ofMoment 2000 moment) _ = wrong at sum
  intro same
  have turns : wrong % 2 ^ 32 = (unixTime moment : Int) % 2 ^ 32 := by
    rw [← same]
    exact Int.bmod_emod.symm
  have leaps :
      (moment.year - (2000 : Nat) - 69 : Int).tdiv 4 =
        -((2069 - moment.year) / 4) := by
    rw [show (moment.year - (2000 : Nat) - 69 : Int) = -(2069 - moment.year) by omega,
      Int.neg_tdiv, Int.tdiv_eq_ediv_of_nonneg (by omega)]
  have century :
      ((moment.year - 1969) / 4 : Int) + (2069 - moment.year) / 4 = 24 ∨
        ((moment.year - 1969) / 4 : Int) + (2069 - moment.year) / 4 = 25 := by
    omega
  have less : (unixTime moment : Int) - wrong = day * 36524 ∨
      (unixTime moment : Int) - wrong = day * 36525 := by
    rw [leaps] at sum
    rw [sum, real]
    simp only [year, day, hour, minute]
    rcases century with early | late
    · exact Or.inl (by omega)
    · exact Or.inr (by omega)
  clear sum real
  simp only [day, hour, minute] at less
  omega

end Clock

/--
The clock at boot is right if and only if the moment that the CMOS clock presents in the
last turn is before 2000.
-/
theorem startupTime_exact_iff
    {cmos : Cmos} {turns fuel : Nat} {moment : Moment}
    (since : 1970 ≤ moment.year)
    (fits : unixTime moment < 2 ^ 31)
    (unsettled : Unsettled cmos turns)
    (presents : Presents cmos (7 * turns) moment)
    (enough : turns < fuel) :
    timeInit cmos fuel 0 = some (unixTime moment : Int) ↔ moment.year < 2000 := by
  have notLater : moment.year ≤ 2038 := year_le_of_fits fits
  have last : timeInit cmos fuel 0 =
      kernelMktime (decode (readClock cmos (7 * turns))) := by
    have shifted : Presents cmos (0 + 7 * turns) moment := by
      simpa using presents
    have ends := timeInit_eq (by simpa [Unsettled] using unsettled) shifted enough
    simpa using ends
  rw [last]
  by_cases early : moment.year < 2000
  · have century : 1900 ≤ moment.year ∧ moment.year < 1900 + 100 ∧ 1900 % 100 = 0 := by
      omega
    rw [decode_readClock century presents, kernelMktime_of_fits since fits]
    exact iff_of_true rfl early
  · have century : 2000 ≤ moment.year ∧ moment.year < 2000 + 100 ∧ 2000 % 100 = 0 := by
      omega
    rw [decode_readClock century presents]
    exact iff_of_false (kernelMktime_ne (by omega) fits) early

/-- The last second of 1999. -/
def lastSecond : Moment where
  year := 1999
  month := 11
  day := 31
  hour := 23
  minute := 59
  second := 59
  monthValid := by decide
  dayPositive := by decide
  dayValid := by decide
  hourValid := by decide
  minuteValid := by decide
  secondValid := by decide

/-- The clock is right up to the end of 1999. -/
theorem startupTime_exact_lastSecond :
    timeInit (fun _ => register lastSecond) 1 0 = some 946684799 := by
  have value : unixTime lastSecond = 946684799 := by decide +kernel
  have since : 1970 ≤ lastSecond.year := by decide
  have fits : unixTime lastSecond < 2 ^ 31 := by
    rw [value]
    decide
  have unsettled : Unsettled (fun _ => register lastSecond) 0 :=
    fun _ below => absurd below (Nat.not_lt_zero _)
  have presents : Presents (fun _ => register lastSecond) (7 * 0) lastSecond :=
    fun _ _ => rfl
  have exactly :=
    (startupTime_exact_iff since fits unsettled presents Nat.zero_lt_one).mpr (by decide)
  rw [value] at exactly
  exact exactly

/-- The first second of 2010. -/
def newYear : Moment where
  year := 2010
  month := 0
  day := 1
  hour := 0
  minute := 0
  second := 0
  monthValid := by decide
  dayPositive := by decide
  dayValid := by decide
  hourValid := by decide
  minuteValid := by decide
  secondValid := by decide

/-- The clock stands still, and yet the time is sixty years before 1970. -/
theorem startupTime_wrong_newYear :
    Presents (fun _ => register newYear) 0 newYear ∧
      unixTime newYear = 1262304000 ∧
      timeInit (fun _ => register newYear) 1 0 = some (-1893369600) :=
  ⟨fun _ _ => rfl, by decide +kernel, by decide +kernel⟩

end Times

end HitOs
