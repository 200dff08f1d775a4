import ScratchDb.Catalog.SchemaText
import ScratchDb.Lib.PaddedDecimal

/-!
# Dates and times as texts

Model of `src/db_types/date_time.cpp`: the civil calendar, and the texts of
dates, times and both. A date is a number of days from the first of January
1970, a time the seconds since midnight.
-/

namespace ScratchDb

open PaddedDecimal

/-! ## Helpers -/

/-- `parse_number`: the digits at a place. -/
def parseDigits (text : List Char) (pos count : Nat) : Option Nat :=
  if pos + count > text.length then none
  else
    let digits := (text.drop pos).take count
    if digits.all Char.isDigit then some (Nat.ofDigitChars 10 digits 0) else none

def isLeapYear (year : Nat) : Bool := (year % 4 = 0 && year % 100 ≠ 0) || year % 400 = 0

/-- `DAYS`. -/
def daysOfMonths : List Nat := [31, 28, 31, 30, 31, 30, 31, 31, 30, 31, 30, 31]

def daysInMonth (year month : Nat) : Nat :=
  if month = 2 ∧ isLeapYear year then 29 else daysOfMonths.getD (month - 1) 0

def isValidDate (year month day : Nat) : Bool :=
  1 ≤ month && month ≤ 12 && 1 ≤ day && day ≤ daysInMonth year month

/-- The years of an era begin in March. -/
def daysFromCivil (year : Int) (month day : Nat) : Int :=
  let year := if month ≤ 2 then year - 1 else year
  let era := (if year ≥ 0 then year else year - 399).tdiv 400
  let yearOfEra := (year - era * 400).toNat
  let dayOfYear := (153 * (if month > 2 then month - 3 else month + 9) + 2) / 5 + day - 1
  let dayOfEra := yearOfEra * 365 + yearOfEra / 4 - yearOfEra / 100 + dayOfYear
  era * 146097 + dayOfEra - 719468

/-- Year, month and day. -/
def civilFromDays (days : Int) : Int × Nat × Nat :=
  let days := days + 719468
  let era := (if days ≥ 0 then days else days - 146096).tdiv 146097
  let dayOfEra := (days - era * 146097).toNat
  let yearOfEra := (dayOfEra - dayOfEra / 1460 + dayOfEra / 36524 - dayOfEra / 146096) / 365
  let year := yearOfEra + era * 400
  let dayOfYear := dayOfEra - (365 * yearOfEra + yearOfEra / 4 - yearOfEra / 100)
  let monthPrime := (5 * dayOfYear + 2) / 153
  let day := dayOfYear - (153 * monthPrime + 2) / 5 + 1
  let month := if monthPrime < 10 then monthPrime + 3 else monthPrime - 9
  (if month ≤ 2 then year + 1 else year, month, day)

def twoDigits (value : Nat) : List Char := padded 2 value

/-- `std::to_string` of a signed number. -/
def signedDecimal (n : Int) : List Char :=
  if n < 0 then '-' :: decimal n.natAbs else decimal n.natAbs

/-! ## Dates -/

namespace Date

/-- The zeros stand before the sign of a negative year. -/
def toString (daysSinceEpoch : Int) : List Char :=
  let (year, month, day) := civilFromDays daysSinceEpoch
  (signedDecimal year).leftpad 4 '0' ++ '-' :: (twoDigits month ++ '-' :: twoDigits day)

def fromString (text : List Char) : Option Int :=
  if text.length ≠ 10 ∨ text[4]? ≠ some '-' ∨ text[7]? ≠ some '-' then none
  else do
    let year ← parseDigits text 0 4
    let month ← parseDigits text 5 2
    let day ← parseDigits text 8 2
    if isValidDate year month day then some (daysFromCivil year month day) else none

end Date

/-! ## Times -/

namespace Time

def toString (secondsSinceMidnight : Nat) : List Char :=
  let hour := secondsSinceMidnight / 3600
  let minute := secondsSinceMidnight % 3600 / 60
  let second := secondsSinceMidnight % 60
  twoDigits hour ++ ':' :: (twoDigits minute ++ ':' :: twoDigits second)

def fromString (text : List Char) : Option Nat :=
  if text.length ≠ 8 ∨ text[2]? ≠ some ':' ∨ text[5]? ≠ some ':' then none
  else do
    let hour ← parseDigits text 0 2
    let minute ← parseDigits text 3 2
    let second ← parseDigits text 6 2
    if hour > 23 ∨ minute > 59 ∨ second > 59 then none
    else some (hour * 3600 + minute * 60 + second)

end Time

/-! ## Dates with times -/

namespace DateTime

def secondsPerDay : Nat := 86400

/-- The day is rounded towards 1970 and cast to `int32_t`. -/
def toString (secondsSinceEpoch : Int) : List Char :=
  let days := secondsSinceEpoch.tdiv secondsPerDay
  let seconds := secondsSinceEpoch.tmod secondsPerDay
  let seconds := if seconds < 0 then seconds + secondsPerDay else seconds
  Date.toString (days.bmod (2 ^ 32)) ++ ' ' :: Time.toString seconds.toNat

def fromString (text : List Char) : Option Int :=
  if text.length ≠ 19 ∨ text[10]? ≠ some ' ' then none
  else do
    let date ← Date.fromString (text.take 10)
    let time ← Time.fromString ((text.drop 11).take 8)
    some (date * secondsPerDay + time)

end DateTime

example : Date.toString 20694 = "2026-08-29".toList := by decide
example : DateTime.toString (-1) = "1970-01-01 23:59:59".toList := by decide

end ScratchDb
