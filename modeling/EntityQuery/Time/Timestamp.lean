import EntityQuery.Text.Blank
import EntityQuery.Time.TimeOfDay

/-!
# Timestamps

A date with a time of day, down to nanoseconds and without a time zone.

Timestamps travel as text. They are written with a fraction of no, three, six or nine digits, the
fewest that are exact. Reading is more generous: fields may have fewer digits and white space in
front, the fraction any number of digits, and the time of day may be missing.
-/

namespace EntityQuery

structure Timestamp where
  date : Date
  time : TimeOfDay
  deriving Repr, DecidableEq

namespace Timestamp

def ofDate (date : Date) : Timestamp :=
  ⟨date, .midnight⟩

/-- The timestamp a number of seconds after the start of 1970. -/
def ofSeconds? (seconds : Int) : Option Timestamp := do
  let date ← Date.ofDays? (seconds / 86400)
  let inDay := (seconds % 86400).toNat
  return ⟨date, ← TimeOfDay.ofFields? (inDay / 3600) (inDay / 60 % 60) (inDay % 60) 0⟩

/-! ## Writing -/

/-- The fraction of a second, with the fewest groups of three digits that are exact. -/
def fractionText (nano : Nat) : String :=
  if nano = 0 then ""
  else if nano % Nat.pow 10 6 = 0 then "." ++ zeroPadded 3 (nano / Nat.pow 10 6)
  else if nano % Nat.pow 10 3 = 0 then "." ++ zeroPadded 6 (nano / Nat.pow 10 3)
  else "." ++ zeroPadded 9 nano

def textWith (separator : String) (t : Timestamp) : String :=
  t.date.text ++ separator ++ t.time.clockText ++ fractionText t.time.nano

/-- The form sent to a database and shown in tables. -/
def text (t : Timestamp) : String :=
  t.textWith " "

def jsonText (t : Timestamp) : String :=
  t.textWith "T"

/-! ## Reading -/

/-- One to `most` digits at the start of the text, any number when there is no bound. -/
def readDigits? (most : Option Nat) (text : List Char) : Option (Nat × List Char) :=
  let run := text.takeWhile Char.isDigit
  let digits := match most with
    | some n => run.take n
    | none => run
  if digits.isEmpty then none else some (digitsValue digits, text.drop digits.length)

/-- A field of one or two digits, after any white space. -/
def readField? (text : List Char) : Option (Nat × List Char) :=
  readDigits? (some 2) (Text.trimStart text)

/-- A year, after any white space: up to four digits, or a sign and any number of them. -/
def readYear? (text : List Char) : Option (Int × List Char) :=
  match Text.trimStart text with
  | '-' :: rest => (readDigits? none rest).map fun (n, rest) => (-n, rest)
  | '+' :: rest => (readDigits? none rest).map fun (n, rest) => (n, rest)
  | text => (readDigits? (some 4) text).map fun (n, rest) => (n, rest)

def after? (c : Char) : List Char → Option (List Char)
  | d :: rest => if d = c then some rest else none
  | [] => none

def readDate? (text : List Char) : Option (Date × List Char) := do
  let (year, text) ← readYear? text
  let (month, text) ← readField? (← after? '-' text)
  let (day, text) ← readField? (← after? '-' text)
  return (← Date.ofFields? year month day, text)

/-- An optional fraction of a second: a point needs a digit after it. -/
def readFraction? : List Char → Option (Nat × List Char)
  | '.' :: rest =>
    let run := rest.takeWhile Char.isDigit
    if run.isEmpty then none else some (TimeOfDay.nanosOfDigits run, rest.drop run.length)
  | text => some (0, text)

/-- A time of day that takes the rest of the text. -/
def readTime? (date : Date) (text : List Char) : Option Timestamp := do
  let (hour, text) ← readField? text
  let (minute, text) ← readField? (← after? ':' text)
  let (second, text) ← readField? (← after? ':' text)
  let (nano, text) ← readFraction? text
  if text.isEmpty then (TimeOfDay.ofFields? hour minute second nano).map (⟨date, ·⟩) else none

/-- A timestamp with white space, perhaps none, between date and time of day. -/
def readSpaced? (text : List Char) : Option Timestamp := do
  let (date, text) ← readDate? text
  readTime? date (Text.trimStart text)

/-- A timestamp with a `T` between date and time of day. -/
def readMarked? (text : List Char) : Option Timestamp := do
  let (date, text) ← readDate? text
  readTime? date (← after? 'T' text)

/-- A date alone, which stands for its first instant. -/
def readDay? (text : List Char) : Option Timestamp := do
  let (date, text) ← readDate? text
  if text.isEmpty then some (ofDate date) else none

def read? (text : String) : Option Timestamp :=
  let text := text.toList
  readSpaced? text <|> readMarked? text <|> readDay? text

end Timestamp

end EntityQuery
