import EntityQuery.Number.Reading
import EntityQuery.Time.Calendar

/-!
# Times of day

Hours, minutes, seconds and nanoseconds, without a date or a zone. A second may be 60, for a leap
second. The fraction of a second is digits after a point, of which those beyond the ninth are dropped
(`nanosOfDigits`).
-/

namespace EntityQuery

def isTimeOfDay (hour minute second nano : Nat) : Bool :=
  hour < 24 && minute < 60 && second ≤ 60 && nano < Nat.pow 10 9

structure TimeOfDay where
  hour : Nat
  minute : Nat
  second : Nat
  nano : Nat
  valid : isTimeOfDay hour minute second nano = true
  deriving Repr, DecidableEq

namespace TimeOfDay

def ofFields? (hour minute second nano : Nat) : Option TimeOfDay :=
  if h : isTimeOfDay hour minute second nano = true then some ⟨hour, minute, second, nano, h⟩ else none

def midnight : TimeOfDay :=
  ⟨0, 0, 0, 0, by decide⟩

/-- The nanoseconds that the digits of a fraction stand for. -/
def nanosOfDigits (digits : List Char) : Nat :=
  digitsValue (digits.take 9) * Nat.pow 10 (9 - (digits.take 9).length)

def clockText (time : TimeOfDay) : String :=
  zeroPadded 2 time.hour ++ ":" ++ zeroPadded 2 time.minute ++ ":" ++ zeroPadded 2 time.second

end TimeOfDay

end EntityQuery
