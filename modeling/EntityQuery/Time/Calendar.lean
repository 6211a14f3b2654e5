/-!
# Dates

Dates of the proleptic Gregorian calendar, within the years that a timestamp can hold. A `Date` is
valid by construction; `Date.ofFields?` is the way to make one, and `Date.ofDays?` finds the date a
number of days away from the first of January 1970. A date is written with a year of at least four
digits, and a sign outside the years 0 to 9999.
-/

namespace EntityQuery

def minYear : Int := -262143

def maxYear : Int := 262142

def isLeapYear (year : Int) : Bool :=
  year % 4 == 0 && (year % 100 != 0 || year % 400 == 0)

def daysInMonth (year : Int) (month : Nat) : Nat :=
  if month = 2 then (if isLeapYear year then 29 else 28)
  else if month = 4 || month = 6 || month = 9 || month = 11 then 30
  else 31

def isDate (year : Int) (month day : Nat) : Bool :=
  minYear ≤ year && year ≤ maxYear && 1 ≤ month && month ≤ 12
    && 1 ≤ day && day ≤ daysInMonth year month

/-- A number with zeros in front, up to `width` digits. -/
def zeroPadded (width n : Nat) : String :=
  let digits := toString n
  "".pushn '0' (width - digits.length) ++ digits

structure Date where
  year : Int
  month : Nat
  day : Nat
  valid : isDate year month day = true
  deriving Repr, DecidableEq

namespace Date

def ofFields? (year : Int) (month day : Nat) : Option Date :=
  if h : isDate year month day = true then some ⟨year, month, day, h⟩ else none

/-- The date `days` days after the first of January 1970.

Years are counted from the first of March, so that the leap day is the last of its year, and in eras
of 400 years, all of which have the same number of days. -/
def ofDays? (days : Int) : Option Date :=
  let shifted := days + 719468
  let era := shifted / 146097
  let dayOfEra := shifted % 146097
  let yearOfEra := (dayOfEra - dayOfEra / 1460 + dayOfEra / 36524 - dayOfEra / 146096) / 365
  let dayOfYear := dayOfEra - (365 * yearOfEra + yearOfEra / 4 - yearOfEra / 100)
  let monthFromMarch := (5 * dayOfYear + 2) / 153
  let day := dayOfYear - (153 * monthFromMarch + 2) / 5 + 1
  let month := if monthFromMarch < 10 then monthFromMarch + 3 else monthFromMarch - 9
  let year := yearOfEra + 400 * era + (if month ≤ 2 then 1 else 0)
  ofFields? year month.toNat day.toNat

/-- The year: four digits or more, with a sign outside 0 to 9999. -/
def yearText (year : Int) : String :=
  let sign := if year < 0 then "-" else if 9999 < year then "+" else ""
  sign ++ zeroPadded 4 year.natAbs

def text (date : Date) : String :=
  yearText date.year ++ "-" ++ zeroPadded 2 date.month ++ "-" ++ zeroPadded 2 date.day

end Date

end EntityQuery
