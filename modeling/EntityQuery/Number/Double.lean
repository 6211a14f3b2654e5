/-!
# Double precision numbers

Binary64 numbers as their 64 bits. Everything a query needs of them is exact arithmetic on naturals:
taking a number apart into `significand · 2 ^ exponent`, the number nearest to a given fraction, and
the comparison under which a NaN differs from itself and the two zeros are equal.

Keeping the bits, and not a machine float, makes equality of values decidable and lets every
statement about a number speak of its significand and exponent.
-/

namespace EntityQuery

/-- A binary64 number, given by its bits. -/
structure Double where
  bits : UInt64
  deriving Repr, DecidableEq

namespace Double

/-- The number with the given magnitude bits, negated when asked. -/
def ofMagnitude (negative : Bool) (magnitude : Nat) : Double :=
  ⟨UInt64.ofNat (magnitude + if negative then Nat.pow 2 63 else 0)⟩

def isNegative (x : Double) : Bool :=
  Nat.pow 2 63 ≤ x.bits.toNat

def magnitude (x : Double) : Nat :=
  x.bits.toNat % Nat.pow 2 63

def exponentField (x : Double) : Nat :=
  x.magnitude / Nat.pow 2 52

def fraction (x : Double) : Nat :=
  x.magnitude % Nat.pow 2 52

/-- The magnitude bits of infinity; anything above them is a NaN. -/
def infinityMagnitude : Nat :=
  0x7ff * Nat.pow 2 52

def isNaN (x : Double) : Bool :=
  infinityMagnitude < x.magnitude

def isInfinite (x : Double) : Bool :=
  x.magnitude == infinityMagnitude

def isFinite (x : Double) : Bool :=
  x.magnitude < infinityMagnitude

/-- The whole number that a finite number is a power of two times of. -/
def significand (x : Double) : Nat :=
  if x.exponentField = 0 then x.fraction else x.fraction + Nat.pow 2 52

/-- The power of two that goes with `significand`. -/
def exponent (x : Double) : Int :=
  (max x.exponentField 1 : Nat) - 1075

def neg (x : Double) : Double :=
  ofMagnitude (!x.isNegative) x.magnitude

/-- Equality of numbers: a NaN equals nothing, and the two zeros are equal. -/
def same (x y : Double) : Bool :=
  !x.isNaN && !y.isNaN && (x == y || (x.magnitude == 0 && y.magnitude == 0))

/-! ## Rounding -/

/-- The quotient rounded to the nearest whole number, a half going to the even neighbour. -/
def roundQuotient (num den : Nat) : Nat :=
  let quotient := num / den
  let twice := 2 * (num % den)
  if twice < den || (twice == den && quotient % 2 == 0) then quotient else quotient + 1

/-- Numerator and denominator of `num / den` times `base ^ power`. -/
def scaled (base : Nat) (power : Int) (num den : Nat) : Nat × Nat :=
  if 0 ≤ power then (num * Nat.pow base power.toNat, den)
  else (num, den * Nat.pow base (-power).toNat)

/-- The largest `k` with `base ^ k ≤ num / den`, when `guess` is that number or one more. -/
def floorLog (base : Nat) (guess : Int) (num den : Nat) : Int :=
  let (n, d) := scaled base (-guess) num den
  if d ≤ n then guess else guess - 1

/-- Magnitude bits of the number nearest to the positive fraction `num / den`, a half going to the
even neighbour; too large a fraction gives infinity.

The bits of consecutive magnitudes are consecutive numbers, so that a significand rounded up to the
next power of two carries into the exponent by itself. -/
def nearestMagnitude (num den : Nat) : Nat :=
  let log := floorLog 2 ((num.log2 : Int) - den.log2) num den
  let power : Int := max (log - 52) (-1074)
  let (n, d) := scaled 2 (-power) num den
  min ((power + 1074).toNat * Nat.pow 2 52 + roundQuotient n d) infinityMagnitude

def ofFraction (negative : Bool) (num den : Nat) : Double :=
  ofMagnitude negative (if num = 0 then 0 else nearestMagnitude num den)

def ofInt (n : Int) : Double :=
  ofFraction (n < 0) n.natAbs 1

def digitCount (n : Nat) : Nat :=
  (Nat.toDigits 10 n).length

/-- The number nearest to `digits · 10 ^ power`. Powers far beyond the range of the format are
settled without computing them. -/
def ofDecimal (negative : Bool) (digits : Nat) (power : Int) : Double :=
  if digits = 0 || power + digitCount digits < -400 then ofMagnitude negative 0
  else if 400 < power + digitCount digits then ofMagnitude negative infinityMagnitude
  else
    let (num, den) := scaled 10 power digits 1
    ofFraction negative num den

end Double

end EntityQuery
