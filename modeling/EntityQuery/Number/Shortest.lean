import EntityQuery.Number.Double

/-!
# Shortest decimals

The decimal with the fewest digits that still reads back as a given finite number, and of those the
one nearest to it. Two of them can be equally near, and then a `Tie` decides.

A number stands for all reals between the midpoints to its two neighbours, midpoints included when
its significand is even. `shortest` looks for a decimal with one digit in that interval, then with
two, and so on; on each grid only the two neighbours of the number itself need to be tried, and
seventeen digits always suffice.
-/

namespace EntityQuery

/-- A positive decimal `digits · 10 ^ power`. -/
structure Decimal where
  digits : Nat
  power : Int
  deriving Repr, DecidableEq

namespace Decimal

/-- The same decimal without trailing zeros; `fuel` bounds how many are taken away. -/
def dropZeros : Nat → Decimal → Decimal
  | 0, d => d
  | fuel + 1, d =>
    if d.digits % 10 = 0 ∧ d.digits ≠ 0 then dropZeros fuel ⟨d.digits / 10, d.power + 1⟩ else d

/-- The exponent of the first digit. -/
def leading (d : Decimal) : Int :=
  d.power + Double.digitCount d.digits - 1

end Decimal

/-- Which of its two neighbours a number halfway between them goes to. -/
inductive Tie where
  | up
  | toEven
  deriving Repr, DecidableEq

def Tie.takesLower (tie : Tie) (below : Nat) : Bool :=
  match tie with
  | .up => false
  | .toEven => below % 2 == 0

/-- The interval of reals that a number stands for, in quarters of its last place: numerators over
the common denominator `den`, and whether the ends belong to it. -/
structure Interval where
  low : Nat
  middle : Nat
  high : Nat
  den : Nat
  closed : Bool
  deriving Repr, DecidableEq

def Interval.contains (i : Interval) (num den : Nat) : Bool :=
  let value := num * i.den
  if i.closed then i.low * den ≤ value && value ≤ i.high * den
  else i.low * den < value && value < i.high * den

namespace Double

/-- The interval of a finite number. Below a power of two the neighbour is only half as far. -/
def interval (x : Double) : Interval :=
  let quarters := 4 * x.significand
  let below := if x.fraction = 0 && 1 < x.exponentField then 1 else 2
  let (one, den) := scaled 2 (x.exponent - 2) 1 1
  { low := (quarters - below) * one
    middle := quarters * one
    high := (quarters + 2) * one
    den
    closed := x.significand % 2 == 0 }

/-- The best decimal with `count` digits, if one lies in the interval: of the two neighbours of the
middle the nearer one. -/
def decimalOfCount? (tie : Tie) (i : Interval) (log : Int) (count : Nat) : Option Decimal :=
  let power := log - count + 1
  let (unitNum, unitDen) := scaled 10 power 1 1
  let grid := i.den * unitNum
  let floor := i.middle * unitDen / grid
  let rest := i.middle * unitDen % grid
  let inside := fun k => i.contains (k * unitNum) unitDen
  let lowerWins := 2 * rest < grid || (2 * rest == grid && tie.takesLower floor)
  if inside floor && (lowerWins || !inside (floor + 1)) then some ⟨floor, power⟩
  else if inside (floor + 1) then some ⟨floor + 1, power⟩
  else none

/-- The decimal that is the number itself, however many digits it takes. -/
def exact (x : Double) : Decimal :=
  if 0 ≤ x.exponent then ⟨x.significand * Nat.pow 2 x.exponent.toNat, 0⟩
  else ⟨x.significand * Nat.pow 5 (-x.exponent).toNat, x.exponent⟩

/-- The decimal of fewest digits that reads back as a finite number other than zero. -/
def shortest (x : Double) (tie : Tie) : Decimal :=
  let i := x.interval
  let log := floorLog 10 ((digitCount i.middle : Int) - digitCount i.den) i.middle i.den
  let best := (List.range 17).findSome? fun n => decimalOfCount? tie i log (n + 1)
  (best.getD x.exact).dropZeros 17

end Double

end EntityQuery
