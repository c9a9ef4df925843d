import Decentagram.Lib.Gregorian
import Decentagram.RaOnchain.X509CertNodes

/-! # The validity of a certificate

`X509Parser.toTimestamp` reads the two forms of an X.509 time and counts its seconds since 1970 with
the date library.  Both compute with fixed widths and checked arithmetic; the formula for the days
divides towards zero.
-/

namespace Decentagram.RaOnchain

open Decentagram.Lib BytesUtils

/-! ## Checked arithmetic of other widths -/

def uintOf (width n : Nat) : Except Revert Nat := if n < 2 ^ width then .ok n else .error .panic

def int256 (n : Int) : Except Revert Int :=
  if -2 ^ 255 ≤ n ∧ n < 2 ^ 255 then .ok n else .error .panic

/-- `int(n)` of a `uint`. -/
def toInt256 (n : Nat) : Int := if n < 2 ^ 255 then n else n - 2 ^ 256

/-- `uint(n)` of an `int`. -/
def toUint256 (n : Int) : Nat := (n % 2 ^ 256).toNat

namespace BokkyPooBahsDateTimeLibrary

def secondsPerDay : Nat := 24 * 60 * 60
def secondsPerHour : Nat := 60 * 60
def secondsPerMinute : Nat := 60
def offset19700101 : Int := 2440588

/-- `(_month - 14) / 12`. -/
def monthShift (month : Int) : Except Revert Int := do
  return (← int256 (month - 14)).tdiv 12

/-- `1461 * (_year + 4800 + (_month - 14) / 12) / 4`. -/
def yearDays (year month : Int) : Except Revert Int := do
  let years ← int256 ((← int256 (year + 4800)) + (← monthShift month))
  return (← int256 (1461 * years)).tdiv 4

/-- `367 * (_month - 2 - (_month - 14) / 12 * 12) / 12`. -/
def monthDays (month : Int) : Except Revert Int := do
  let months ← int256 ((← int256 (month - 2)) - (← int256 ((← monthShift month) * 12)))
  return (← int256 (367 * months)).tdiv 12

/-- `3 * ((_year + 4900 + (_month - 14) / 12) / 100) / 4`. -/
def centuryDays (year month : Int) : Except Revert Int := do
  let years ← int256 ((← int256 (year + 4900)) + (← monthShift month))
  return (← int256 (3 * years.tdiv 100)).tdiv 4

def daysFromDate (year month day : Nat) : Except Revert Nat := do
  require (year ≥ 1970) ""
  let year := toInt256 year
  let month := toInt256 month
  let days ← int256 (toInt256 day - 32075)
  let days ← int256 (days + (← yearDays year month))
  let days ← int256 (days + (← monthDays month))
  let days ← int256 (days - (← centuryDays year month))
  return toUint256 (← int256 (days - offset19700101))

def timestampFromDateTime (year month day hour minute second : Nat) : Except Revert Nat := do
  let days ← uintOf 256 ((← daysFromDate year month day) * secondsPerDay)
  let hours ← uintOf 256 (days + (← uintOf 256 (hour * secondsPerHour)))
  let minutes ← uintOf 256 (hours + (← uintOf 256 (minute * secondsPerMinute)))
  uintOf 256 (minutes + second)

end BokkyPooBahsDateTimeLibrary

namespace X509Parser

/-- `uint8(x509Time[i])-48`. -/
def digitAt (x509Time : Bytes) (i : Nat) : Except Revert Nat := do
  sub (← byteAt x509Time i).toNat 48

/-- `(uint8(x509Time[i])-48)*10 + uint8(x509Time[i+1])-48`, all of it with `uint8`. -/
def twoDigitsAt (x509Time : Bytes) (i : Nat) : Except Revert Nat := do
  let tens ← mulUint8 (← digitAt x509Time i) 10
  let both ← uintOf 8 (tens + (← byteAt x509Time (i + 1)).toNat)
  sub both 48

/-- What comes before the last two digits of the year, and where these are. -/
def century (x509Time : Bytes) : Except Revert (Nat × Nat) := do
  if x509Time.length = 13 then
    return (if (← digitAt x509Time 0) < 5 then 2000 else 1900, 0)
  else if x509Time.length = 15 then
    -- 1000 does not fit in `uint8`, but 100 does
    let thousands ← uintOf 16 ((← digitAt x509Time 0) * 1000)
    let hundreds ← mulUint8 (← digitAt x509Time 1) 100
    return (← uintOf 16 (thousands + hundreds), 2)
  else
    .error (.reason "Invalid x509Time")

def toTimestamp (x509Time : Bytes) : Except Revert Nat := do
  let (yrs, offset) ← century x509Time
  let yrs ← uintOf 16 (yrs + (← twoDigitsAt x509Time offset))
  let mnths ← twoDigitsAt x509Time (offset + 2)
  let dys ← twoDigitsAt x509Time (offset + 4)
  let hrs ← twoDigitsAt x509Time (offset + 6)
  let mins ← twoDigitsAt x509Time (offset + 8)
  let secs ← twoDigitsAt x509Time (offset + 10)
  BokkyPooBahsDateTimeLibrary.timestampFromDateTime yrs mnths dys hrs mins secs

end X509Parser

namespace X509Timestamp

/-- The seconds of `notBefore` and `notAfter`. -/
def getValidityTimestamps (certDer : Bytes) (validityNode : Nat) : Except Revert (Nat × Nat) := do
  let notBeforeNode ← Asn1Decode.firstChildOf certDer validityNode
  let notAfterNode ← Asn1Decode.nextSiblingOf certDer notBeforeNode
  let notBefore ← X509Parser.toTimestamp (← Asn1Decode.bytesAt certDer notBeforeNode)
  let notAfter ← X509Parser.toTimestamp (← Asn1Decode.bytesAt certDer notAfterNode)
  return (notBefore, notAfter)

end X509Timestamp

/-! ## The days of a date -/

theorem uintOf_eq_ok {width n value : Nat} : uintOf width n = .ok value ↔ n < 2 ^ width ∧ value = n := by
  unfold uintOf
  split
  next fits => simp [fits, eq_comm]
  next overflows => simp [overflows]

theorem int256_of_small {n : Int} (low : -2 ^ 255 ≤ n) (high : n < 2 ^ 255) : int256 n = .ok n :=
  if_pos ⟨low, high⟩

theorem toInt256_of_small {n : Nat} (small : n < 2 ^ 255) : toInt256 n = n := if_pos small

namespace BokkyPooBahsDateTimeLibrary

open Gregorian

theorem monthShift_of_isMonth {month : Nat} (isMonth : 1 ≤ month ∧ month ≤ 12) :
    monthShift month = .ok (if month ≤ 2 then -1 else 0) := by
  obtain ⟨first, last⟩ := isMonth
  interval_cases month <;> decide

theorem yearDays_of_small {year month : Nat} (isMonth : 1 ≤ month ∧ month ≤ 12)
    (small : year < 2 ^ 240) :
    yearDays year month = .ok ((1461 * (year + 4800 - if month ≤ 2 then 1 else 0) / 4 : Nat) : Int) := by
  have shifted : (0 : Int) ≤ 1461 * (year + 4800 + if month ≤ 2 then -1 else 0) := by split <;> omega
  rw [yearDays, monthShift_of_isMonth isMonth]
  simp only [ok_bind]
  rw [int256_of_small (by omega) (by omega), ok_bind,
    int256_of_small (by split <;> omega) (by split <;> omega), ok_bind,
    int256_of_small (by omega) (by split <;> omega), ok_bind, Int.tdiv_eq_ediv_of_nonneg shifted]
  split <;> exact congrArg Except.ok (by omega)

theorem monthDays_of_isMonth {month : Nat} (isMonth : 1 ≤ month ∧ month ≤ 12) :
    monthDays month = .ok ((367 * (month + (if month ≤ 2 then 12 else 0) - 2) / 12 : Nat) : Int) := by
  obtain ⟨first, last⟩ := isMonth
  interval_cases month <;> decide

theorem centuryDays_of_small {year month : Nat} (isMonth : 1 ≤ month ∧ month ≤ 12)
    (small : year < 2 ^ 240) :
    centuryDays year month =
      .ok ((3 * ((year + 4900 - if month ≤ 2 then 1 else 0) / 100) / 4 : Nat) : Int) := by
  have shifted : (0 : Int) ≤ year + 4900 + if month ≤ 2 then -1 else 0 := by split <;> omega
  rw [centuryDays, monthShift_of_isMonth isMonth]
  simp only [ok_bind]
  rw [int256_of_small (by omega) (by omega), ok_bind,
    int256_of_small (by split <;> omega) (by split <;> omega), ok_bind,
    Int.tdiv_eq_ediv_of_nonneg shifted,
    int256_of_small (by omega) (by split <;> omega), ok_bind, Int.tdiv_eq_ediv_of_nonneg (by omega)]
  split <;> exact congrArg Except.ok (by omega)

/-! The leap days up to a year, in the two forms of the formula. -/

theorem leapDays_four (year : Nat) : 1461 * (year + 4800) / 4 = 365 * year + year / 4 + 1753200 := by
  omega

theorem leapDays_hundred (year : Nat) :
    3 * ((year + 4900) / 100) / 4 + year / 400 = year / 100 + 36 := by
  have centuries : (year + 4900) / 100 = year / 100 + 49 := by omega
  have cycles : year / 400 = year / 100 / 4 := (Nat.div_div_eq_div_mul year 100 4).symm
  rw [centuries, cycles]
  omega

theorem leapDays_succ (year : Nat) :
    (year + 1) / 4 + (year + 1) / 400 + year / 100 =
      year / 4 + year / 400 + (year + 1) / 100 + if isLeapYear (year + 1) then 1 else 0 := by
  split
  next leap =>
    simp only [isLeapYear] at leap
    omega
  next common =>
    simp only [isLeapYear] at common
    omega

theorem daysBeforeYear_1970 {year : Nat} (since : 1970 ≤ year + 1) :
    daysBeforeYear 1970 (year + 1) + year / 100 + 719162 = 365 * year + year / 4 + year / 400 := by
  have years := @daysBeforeYear_eq 1970 _ (by decide) since
  have centuries : year / 100 ≤ year / 4 := Nat.div_le_div_left (by decide) (by decide)
  simp only [Nat.add_sub_cancel] at years
  omega

/-- The Julian day number of a date, without the subtractions that cut off. -/
theorem julianDay_eq (date : Date) (since : 1970 ≤ date.year) :
    1461 * (date.year + 4800 - if date.month ≤ 2 then 1 else 0) / 4 +
        367 * (date.month + (if date.month ≤ 2 then 12 else 0) - 2) / 12 + date.day =
      date.dayNumber 1970 + 2440588 + 32075 +
        3 * ((date.year + 4900 - if date.month ≤ 2 then 1 else 0) / 100) / 4 := by
  have isMonth := date.isMonth
  have firstDay := date.isDay.1
  have months := @daysBeforeMonth_eq date.year _ isMonth
  obtain ⟨before, year⟩ : ∃ before, date.year = before + 1 := ⟨date.year - 1, by omega⟩
  rw [Date.dayNumber, Date.dayOfYear]
  rw [year] at since months ⊢
  have years := daysBeforeYear_1970 since
  generalize daysBeforeYear 1970 (before + 1) = wholeYears at years ⊢
  generalize daysBeforeMonth (before + 1) date.month = wholeMonths at months ⊢
  by_cases early : date.month ≤ 2
  · -- January and February belong to the year before
    have four := leapDays_four before
    have hundred := leapDays_hundred before
    have linear : 367 * (date.month + 12 - 2) / 12 = 31 * (date.month - 1) + 336 := by omega
    have yearBefore : before + 1 + 4800 - 1 = before + 4800 := by omega
    have yearBefore' : before + 1 + 4900 - 1 = before + 4900 := by omega
    rw [if_pos early] at months
    rw [if_pos early, if_pos early, linear, yearBefore, yearBefore', four, months]
    clear linear yearBefore yearBefore' four months
    generalize 31 * (date.month - 1) = linear, before / 4 = four, before / 100 = century,
      before / 400 = cycle, 3 * ((before + 4900) / 100) / 4 = centuryLeapDays at years hundred ⊢
    omega
  · have four := leapDays_four (before + 1)
    have hundred := leapDays_hundred (before + 1)
    have leapDay := leapDays_succ before
    rw [if_neg early] at months
    rw [if_neg early, if_neg early, Nat.sub_zero, Nat.sub_zero, Nat.add_zero, four, months]
    generalize (if isLeapYear (before + 1) then 1 else 0) = leap at leapDay ⊢
    clear four months
    generalize 367 * (date.month - 2) / 12 = linear, before / 4 = four, before / 100 = century,
      before / 400 = cycle, (before + 1) / 4 = four', (before + 1) / 100 = century',
      (before + 1) / 400 = cycle', 3 * ((before + 1 + 4900) / 100) / 4 = centuryLeapDays
      at years leapDay hundred ⊢
    omega

/-- The formula counts the days of the calendar. -/
theorem daysFromDate_eq (date : Date) (since : 1970 ≤ date.year) (small : date.year < 2 ^ 240) :
    daysFromDate date.year date.month date.day = .ok (date.dayNumber 1970) := by
  have isMonth := date.isMonth
  have isDay := date.isDay
  have julianDay := julianDay_eq date since
  have days := date.day_le
  have months : 367 * (date.month + (if date.month ≤ 2 then 12 else 0) - 2) / 12 ≤ 367 := by
    split <;> omega
  have years : 1461 * (date.year + 4800 - if date.month ≤ 2 then 1 else 0) / 4 < 2 ^ 254 := by
    split <;> omega
  have required : require (date.year ≥ 1970) "" = .ok () := by simp [since]
  rw [daysFromDate, required, ok_bind, toInt256_of_small (by omega), toInt256_of_small (by omega),
    toInt256_of_small (by omega), int256_of_small (by omega) (by omega), ok_bind,
    yearDays_of_small isMonth small, ok_bind, int256_of_small (by omega) (by omega), ok_bind,
    monthDays_of_isMonth isMonth, ok_bind, int256_of_small (by omega) (by omega), ok_bind,
    centuryDays_of_small isMonth small, ok_bind, int256_of_small (by omega) (by omega), ok_bind,
    offset19700101, int256_of_small (by omega) (by omega)]
  refine congrArg Except.ok ?_
  rw [toUint256]
  omega

theorem timestampFromDateTime_eq (time : DateTime) (since : 1970 ≤ time.date.year)
    (small : time.date.year < 2 ^ 64) :
    timestampFromDateTime time.date.year time.date.month time.date.day time.hour time.minute
      time.second = .ok (time.seconds 1970) := by
  have isTime := time.isTime
  have days : time.date.dayNumber 1970 < 2 ^ 80 := by
    have yearDays := daysBeforeYear_le 1970 time.date.year
    have dayOfYear := time.date.dayOfYear_lt_daysInYear
    have yearLength := daysInYear_le time.date.year
    rw [Date.dayNumber]
    omega
  have fits {n : Nat} (less : n < 2 ^ 100) : uintOf 256 n = .ok n :=
    uintOf_eq_ok.mpr ⟨Nat.lt_trans less (by decide), rfl⟩
  rw [timestampFromDateTime, daysFromDate_eq time.date since (Nat.lt_trans small (by decide)), ok_bind,
    DateTime.seconds, DateTime.secondOfDay, secondsPerDay, secondsPerHour, secondsPerMinute]
  generalize time.date.dayNumber 1970 = day at days ⊢
  rw [fits (by omega), ok_bind, fits (by omega), ok_bind, fits (by omega), ok_bind, fits (by omega),
    ok_bind, fits (by omega), ok_bind, fits (by omega)]
  exact congrArg Except.ok (by omega)

end BokkyPooBahsDateTimeLibrary

namespace X509Parser

open Gregorian

/-! ## The texts of a time -/

def digit (n : Nat) : UInt8 := UInt8.ofNat (48 + n)

def twoDigits (n : Nat) : Bytes := [digit (n / 10), digit (n % 10)]

inductive TimeForm where
  | utcTime
  | generalizedTime
deriving DecidableEq

namespace TimeForm

/-- The years a form can write. -/
def Writes : TimeForm → Nat → Prop
  | utcTime, year => 1950 ≤ year ∧ year < 2050
  | generalizedTime, year => year < 10000

theorem Writes.lt {form : TimeForm} {year : Nat} (writes : form.Writes year) : year < 10000 := by
  cases form with
  | utcTime => exact Nat.lt_trans writes.2 (by decide)
  | generalizedTime => exact writes

def yearText : TimeForm → Nat → Bytes
  | utcTime, year => twoDigits (year % 100)
  | generalizedTime, year => twoDigits (year / 100) ++ twoDigits (year % 100)

def text (form : TimeForm) (time : DateTime) (zone : UInt8) : Bytes :=
  form.yearText time.date.year ++ twoDigits time.date.month ++ twoDigits time.date.day ++
    twoDigits time.hour ++ twoDigits time.minute ++ twoDigits time.second ++ [zone]

/-- The years whose hundreds do not fit in the width that reads them. -/
def Overflows (form : TimeForm) (year : Nat) : Prop := form = generalizedTime ∧ 2 < year / 100 % 10

instance (form : TimeForm) (year : Nat) : Decidable (form.Overflows year) :=
  inferInstanceAs (Decidable (_ ∧ _))

end TimeForm

/-- The last second of February 2400. -/
def endOfFebruary2400 : DateTime :=
  { date := { year := 2400, month := 2, day := 29, isMonth := by decide, isDay := by decide }
    hour := 23, minute := 59, second := 59
    isTime := by decide }

/-- A day that the shorter form still writes, before the epoch. -/
def newYear1960 : DateTime :=
  { date := { year := 1960, month := 1, day := 1, isMonth := by decide, isDay := by decide }
    hour := 0, minute := 0, second := 0
    isTime := by decide }

/-- The first second of 2050, which the shorter form cannot write any more. -/
def newYear2050 : DateTime :=
  { date := { year := 2050, month := 1, day := 1, isMonth := by decide, isDay := by decide }
    hour := 0, minute := 0, second := 0
    isTime := by decide }

def lastSecond2049 : DateTime :=
  { date := { year := 2049, month := 12, day := 31, isMonth := by decide, isDay := by decide }
    hour := 23, minute := 59, second := 59
    isTime := by decide }

theorem toNat_digit {n : Nat} (isDigit : n < 10) : (digit n).toNat = 48 + n := by
  rw [digit, UInt8.toNat_ofNat_of_lt']
  exact Nat.lt_of_lt_of_le (Nat.add_lt_add_left isDigit 48) (by decide)

theorem digitAt_of_digit {x509Time : Bytes} {i n : Nat} (isDigit : n < 10)
    (here : x509Time[i]? = some (digit n)) : digitAt x509Time i = .ok n := by
  have read : byteAt x509Time i = .ok (digit n) := byteAt_eq_ok.mpr here
  rw [digitAt, read, ok_bind, toNat_digit isDigit]
  exact sub_eq_ok.mpr ⟨by omega, by omega⟩

theorem twoDigitsAt_of_twoDigits {x509Time : Bytes} {i n : Nat} (small : n < 100)
    (tens : x509Time[i]? = some (digit (n / 10)))
    (ones : x509Time[i + 1]? = some (digit (n % 10))) : twoDigitsAt x509Time i = .ok n := by
  have read : byteAt x509Time (i + 1) = .ok (digit (n % 10)) := byteAt_eq_ok.mpr ones
  have times : mulUint8 (n / 10) 10 = .ok (n / 10 * 10) := mulUint8_eq_ok.mpr ⟨by omega, rfl⟩
  have plus : uintOf 8 (n / 10 * 10 + (48 + n % 10)) = .ok (48 + n) :=
    uintOf_eq_ok.mpr ⟨by omega, by omega⟩
  rw [twoDigitsAt, digitAt_of_digit (by omega) tens, ok_bind, times, ok_bind, read, ok_bind,
    toNat_digit (by omega), plus, ok_bind]
  exact sub_eq_ok.mpr ⟨by omega, by omega⟩

/-- The century of a text, or the panic of the multiplication that reads it. -/
theorem century_text {form : TimeForm} {time : DateTime} (zone : UInt8)
    (writes : form.Writes time.date.year) :
    century (form.text time zone) =
      if form.Overflows time.date.year then .error .panic
      else .ok (time.date.year / 100 * 100, (form.yearText time.date.year).length - 2) := by
  cases form with
  | utcTime =>
    obtain ⟨after, before⟩ := writes
    have first : digitAt (TimeForm.text .utcTime time zone) 0 = .ok (time.date.year % 100 / 10) :=
      digitAt_of_digit (by omega) rfl
    have size : (TimeForm.text .utcTime time zone).length = 13 := rfl
    have inWidth : ¬TimeForm.Overflows .utcTime time.date.year := by simp [TimeForm.Overflows]
    simp only [century, size, if_true, first, ok_bind, inWidth, if_false]
    refine congrArg Except.ok (Prod.ext ?_ rfl)
    dsimp only
    split <;> omega
  | generalizedTime =>
    have before : time.date.year < 10000 := writes
    have thousands : digitAt (TimeForm.text .generalizedTime time zone) 0 =
        .ok (time.date.year / 100 / 10) := digitAt_of_digit (by omega) rfl
    have hundreds : digitAt (TimeForm.text .generalizedTime time zone) 1 =
        .ok (time.date.year / 100 % 10) := digitAt_of_digit (by omega) rfl
    have size : (TimeForm.text .generalizedTime time zone).length = 15 := rfl
    have fits : uintOf 16 (time.date.year / 100 / 10 * 1000) = .ok (time.date.year / 100 / 10 * 1000) :=
      uintOf_eq_ok.mpr ⟨by omega, rfl⟩
    simp only [century, size, Nat.reduceEqDiff, if_true, if_false, thousands, hundreds, fits, ok_bind]
    split
    next overflows =>
      have panics : mulUint8 (time.date.year / 100 % 10) 100 = .error .panic :=
        if_neg (by have := overflows.2; omega)
      rw [panics]
      rfl
    next inWidth =>
      have small : time.date.year / 100 % 10 ≤ 2 := by
        by_contra large
        exact inWidth ⟨rfl, Nat.lt_of_not_le large⟩
      have times : mulUint8 (time.date.year / 100 % 10) 100 = .ok (time.date.year / 100 % 10 * 100) :=
        mulUint8_eq_ok.mpr ⟨by omega, rfl⟩
      have plus : uintOf 16 (time.date.year / 100 / 10 * 1000 + time.date.year / 100 % 10 * 100) =
          .ok (time.date.year / 100 * 100) := uintOf_eq_ok.mpr ⟨by omega, by omega⟩
      rw [times, ok_bind, plus]
      rfl

/-- The fields of a text after its year, two digits each. -/
theorem twoDigitsAt_text {form : TimeForm} {time : DateTime} (zone : UInt8)
    (writes : form.Writes time.date.year) :
    let offset := (form.yearText time.date.year).length - 2
    let x509Time := form.text time zone
    twoDigitsAt x509Time offset = .ok (time.date.year % 100) ∧
      twoDigitsAt x509Time (offset + 2) = .ok time.date.month ∧
      twoDigitsAt x509Time (offset + 4) = .ok time.date.day ∧
      twoDigitsAt x509Time (offset + 6) = .ok time.hour ∧
      twoDigitsAt x509Time (offset + 8) = .ok time.minute ∧
      twoDigitsAt x509Time (offset + 10) = .ok time.second := by
  have isMonth := time.date.isMonth
  have isDay := time.date.day_le
  have isTime := time.isTime
  have year : time.date.year % 100 < 100 := Nat.mod_lt _ (by decide)
  have fields (offset n : Nat) (small : n < 100)
      (tens : (form.text time zone)[offset]? = some (digit (n / 10)))
      (ones : (form.text time zone)[offset + 1]? = some (digit (n % 10))) :
      twoDigitsAt (form.text time zone) offset = .ok n := twoDigitsAt_of_twoDigits small tens ones
  cases form <;> simp only [TimeForm.text, TimeForm.yearText, twoDigits, List.cons_append,
      List.nil_append, List.length_cons, List.length_nil] at fields ⊢ <;>
    exact ⟨fields _ _ year (by simp) (by simp), fields _ _ (by omega) (by simp) (by simp),
      fields _ _ (by omega) (by simp) (by simp), fields _ _ (by omega) (by simp) (by simp),
      fields _ _ (by omega) (by simp) (by simp), fields _ _ (by omega) (by simp) (by simp)⟩

/-- Behind the century, the text is read as the date library is given its fields. -/
theorem toTimestamp_fields {form : TimeForm} {time : DateTime} {zone : UInt8}
    (writes : form.Writes time.date.year) (inWidth : ¬form.Overflows time.date.year) :
    toTimestamp (form.text time zone) =
      BokkyPooBahsDateTimeLibrary.timestampFromDateTime time.date.year time.date.month time.date.day
        time.hour time.minute time.second := by
  have small := writes.lt
  obtain ⟨yrs, mnths, dys, hrs, mins, secs⟩ := twoDigitsAt_text zone writes
  have year : uintOf 16 (time.date.year / 100 * 100 + time.date.year % 100) = .ok time.date.year :=
    uintOf_eq_ok.mpr ⟨by omega, by omega⟩
  rw [toTimestamp, century_text zone writes, if_neg inWidth, ok_bind]
  dsimp only
  rw [yrs, ok_bind, year, ok_bind, mnths, ok_bind, dys, ok_bind, hrs, ok_bind, mins, ok_bind, secs,
    ok_bind]

theorem toTimestamp_inWidth {form : TimeForm} {time : DateTime} {zone : UInt8}
    (writes : form.Writes time.date.year) (inWidth : ¬form.Overflows time.date.year)
    (since : 1970 ≤ time.date.year) : toTimestamp (form.text time zone) = .ok (time.seconds 1970) := by
  have small := writes.lt
  rw [toTimestamp_fields writes inWidth]
  exact BokkyPooBahsDateTimeLibrary.timestampFromDateTime_eq time since (by omega)

theorem toTimestamp_before1970 {form : TimeForm} {time : DateTime} {zone : UInt8}
    (writes : form.Writes time.date.year) (inWidth : ¬form.Overflows time.date.year)
    (before : time.date.year < 1970) : toTimestamp (form.text time zone) = .error (.reason "") := by
  have refused : require (time.date.year ≥ 1970) "" = .error (.reason "") := if_neg (by omega)
  rw [toTimestamp_fields writes inWidth, BokkyPooBahsDateTimeLibrary.timestampFromDateTime,
    BokkyPooBahsDateTimeLibrary.daysFromDate, refused]
  rfl

theorem toTimestamp_overflows {form : TimeForm} {time : DateTime} {zone : UInt8}
    (writes : form.Writes time.date.year) (overflows : form.Overflows time.date.year) :
    toTimestamp (form.text time zone) = .error .panic := by
  rw [toTimestamp, century_text zone writes, if_pos overflows]
  rfl

/-- The seconds that `toTimestamp` counts are those of the calendar, for every time that a text can
    write.  Before 1970 the date library reverts, and where the hundreds of the year overflow the reading
    of them panics. -/
theorem toTimestamp_text (form : TimeForm) (time : DateTime) (zone : UInt8)
    (writes : form.Writes time.date.year) :
    toTimestamp (form.text time zone) =
      if form.Overflows time.date.year then .error .panic
      else if time.date.year < 1970 then .error (.reason "")
      else .ok (time.seconds 1970) := by
  split
  next overflows => exact toTimestamp_overflows writes overflows
  next inWidth =>
    split
    next before => exact toTimestamp_before1970 writes inWidth before
    next since => exact toTimestamp_inWidth writes inWidth (Nat.le_of_not_lt since)

/-- The last second of 2049 in the shorter form, a day before 1970 in both forms, and the end of
    February 2400, of which the hundreds overflow. -/
theorem toTimestamp_text_fourDates :
    toTimestamp (TimeForm.text .utcTime lastSecond2049 0x5A) = .ok 2524607999 ∧
      toTimestamp (TimeForm.text .utcTime newYear1960 0x5A) = .error (.reason "") ∧
      toTimestamp (TimeForm.text .generalizedTime newYear1960 0x5A) = .error .panic ∧
      toTimestamp (TimeForm.text .generalizedTime endOfFebruary2400 0x5A) = .error .panic := by
  have seconds : lastSecond2049.seconds 1970 = 2524607999 := by decide +kernel
  refine ⟨?_, toTimestamp_text .utcTime newYear1960 0x5A ⟨by decide, by decide⟩,
    toTimestamp_text .generalizedTime newYear1960 0x5A (by decide : 1960 < 10000),
    toTimestamp_text .generalizedTime endOfFebruary2400 0x5A (by decide : 2400 < 10000)⟩
  rw [← seconds]
  exact toTimestamp_text .utcTime lastSecond2049 0x5A ⟨by decide, by decide⟩

/-- Two texts that were read compare as the times they stand for, whatever their forms and zones. -/
theorem toTimestamp_lt_iff {form form' : TimeForm} {time time' : DateTime} {zone zone' : UInt8}
    {timestamp timestamp' : Nat} (writes : form.Writes time.date.year)
    (writes' : form'.Writes time'.date.year)
    (reads : toTimestamp (form.text time zone) = .ok timestamp)
    (reads' : toTimestamp (form'.text time' zone') = .ok timestamp') :
    timestamp < timestamp' ↔ time.Before time' := by
  have counted {form : TimeForm} {time : DateTime} {zone : UInt8} {timestamp : Nat}
      (writes : form.Writes time.date.year)
      (reads : toTimestamp (form.text time zone) = .ok timestamp) :
      timestamp = time.seconds 1970 ∧ 1970 ≤ time.date.year := by
    by_cases overflows : form.Overflows time.date.year
    · simp [toTimestamp_overflows writes overflows] at reads
    · by_cases before : time.date.year < 1970
      · simp [toTimestamp_before1970 writes overflows before] at reads
      · have since := Nat.le_of_not_lt before
        rw [toTimestamp_inWidth writes overflows since] at reads
        exact ⟨(Except.ok.inj reads).symm, since⟩
  obtain ⟨isTimestamp, since⟩ := counted writes reads
  obtain ⟨isTimestamp', since'⟩ := counted writes' reads'
  rw [isTimestamp, isTimestamp']
  exact DateTime.seconds_lt_iff since since'

theorem toTimestamp_lt_newYear2050 :
    lastSecond2049.seconds 1970 < newYear2050.seconds 1970 ↔ lastSecond2049.Before newYear2050 :=
  @toTimestamp_lt_iff .utcTime .generalizedTime _ _ 0x5A 0x5A _ _
    ⟨by decide, by decide⟩ (by decide : 2050 < 10000)
    (toTimestamp_inWidth ⟨by decide, by decide⟩ (by decide) (by decide))
    (toTimestamp_inWidth (by decide : 2050 < 10000) (by decide) (by decide))

end X509Parser

end Decentagram.RaOnchain
