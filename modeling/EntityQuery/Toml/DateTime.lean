import EntityQuery.Text.Reader
import EntityQuery.Time.TimeOfDay

/-!
# TOML dates and times

A date, a time of day, or both; a date with a time may also say how far its zone is from universal
time. The text of such a value (`DateTime.text`) has one form, whichever way it was written: `T`
between date and time, `Z` for universal time, and no zeros at the end of a fraction.
-/

namespace EntityQuery.Toml

/-- How far a zone is from universal time. -/
inductive Offset where
  /-- Universal time itself, marked by a letter. -/
  | universal
  /-- So many minutes ahead. -/
  | minutes (count : Int)
  deriving Repr, DecidableEq

inductive DateTime where
  | date (date : Date)
  | time (time : TimeOfDay)
  | both (date : Date) (time : TimeOfDay) (offset : Option Offset)
  deriving Repr, DecidableEq

/-! ## Writing -/

/-- Hours and minutes with a sign, which is never that of a negative zero. -/
def Offset.text : Offset → String
  | .universal => "Z"
  | .minutes count =>
    let sign := if count < 0 then "-" else "+"
    sign ++ zeroPadded 2 (count.natAbs / 60) ++ ":" ++ zeroPadded 2 (count.natAbs % 60)

/-- The fraction of a second, with the fewest digits that are exact. -/
def fractionText (nano : Nat) : String :=
  if nano = 0 then ""
  else
    let digits := (zeroPadded 9 nano).toList.reverse.dropWhile (· == '0')
    String.ofList ('.' :: digits.reverse)

def timeText (time : TimeOfDay) : String :=
  time.clockText ++ fractionText time.nano

def DateTime.text : DateTime → String
  | .date day => day.text
  | .time clock => timeText clock
  | .both day clock offset => day.text ++ "T" ++ timeText clock ++ (offset.map Offset.text).getD ""

/-! ## Reading -/

namespace Grammar

open Reader

def fixedDigits : Nat → Reader (List Char)
  | 0 => return []
  | count + 1 => do
    let first ← char Char.isDigit
    return first :: (← fixedDigits count)

def field (count : Nat) : Reader Nat := do
  return digitsValue (← fixedDigits count)

def date : Reader Date :=
  (do
    let year ← field 4
    exactly "-"
    let month ← field 2
    exactly "-"
    return (year, month, ← field 2) : Reader (Nat × Nat × Nat)).convert fun (year, month, day) =>
      Date.ofFields? year month day

/-- A time of day, with a fraction of any number of digits. -/
def timeOfDay : Reader TimeOfDay :=
  (do
    let hour ← field 2
    exactly ":"
    let minute ← field 2
    exactly ":"
    let second ← field 2
    let fraction ← optional do
      exactly "."
      digits
    return (hour, minute, second, fraction.getD []) :
      Reader (Nat × Nat × Nat × List Char)).convert fun (hour, minute, second, fraction) =>
        TimeOfDay.ofFields? hour minute second (TimeOfDay.nanosOfDigits fraction)

/-- A letter for universal time, or less than a day in either direction. -/
def offset : Reader Offset :=
  orElse
    (do
      let _ ← char fun c => c == 'Z' || c == 'z'
      return .universal)
    (do
      let sign ← char fun c => c == '+' || c == '-'
      let hour ← check (field 2) (· < 24)
      exactly ":"
      let minute ← check (field 2) (· < 60)
      let count : Int := hour * 60 + minute
      return .minutes (if sign == '-' then -count else count))

/-- A date, a time, or both with a letter or a blank between them. -/
def dateTime : Reader DateTime :=
  orElse
    (do
      let day ← date
      let rest ← optional do
        let _ ← char fun c => c == 'T' || c == 't' || c == ' '
        let clock ← timeOfDay
        return (clock, ← offset.optional)
      match rest with
      | some (clock, zone) => return .both day clock zone
      | none => return .date day)
    (do return .time (← timeOfDay))

end Grammar

end EntityQuery.Toml
