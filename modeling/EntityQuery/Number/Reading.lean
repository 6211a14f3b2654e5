import EntityQuery.Number.Double

/-!
# Reading numbers

Whole numbers and decimals from text. The readers here take the whole text or nothing: no blanks, no
digit separators and no base marks.
-/

namespace EntityQuery

def digitsValue (digits : List Char) : Nat :=
  digits.foldl (fun value c => 10 * value + (c.toNat - '0'.toNat)) 0

def isDigits (text : List Char) : Bool :=
  !text.isEmpty && text.all Char.isDigit

/-- The sign a number starts with, true for a minus, and what comes after it. -/
def splitSign : List Char → Bool × List Char
  | '-' :: rest => (true, rest)
  | '+' :: rest => (false, rest)
  | text => (false, text)

def maxInt64 : Int := Int.pow 2 63 - 1

def minInt64 : Int := -Int.pow 2 63

/-- A 64-bit signed number, with an optional sign. -/
def readInt64? (text : List Char) : Option Int :=
  let (negative, digits) := splitSign text
  let value : Int := if negative then -digitsValue digits else digitsValue digits
  if isDigits digits && minInt64 ≤ value && value ≤ maxInt64 then some value else none

/-- An unsigned number below `bound`, with an optional plus sign. -/
def readBelow? (bound : Nat) (text : List Char) : Option Nat :=
  let digits := match text with
    | '+' :: rest => rest
    | _ => text
  if isDigits digits && digitsValue digits < bound then some (digitsValue digits) else none

namespace Double

/-- The exponent part of a decimal, `e` or `E` with a whole number; nothing counts as zero. -/
def readExponent? : List Char → Option Int
  | [] => some 0
  | c :: rest =>
    let (negative, digits) := splitSign rest
    if (c == 'e' || c == 'E') && isDigits digits then
      some (if negative then -digitsValue digits else digitsValue digits)
    else none

/-- A decimal without its sign: digits with an optional point and exponent, where digits may be
missing on one side of the point. -/
def readUnsigned? (negative : Bool) (text : List Char) : Option Double :=
  let whole := text.takeWhile Char.isDigit
  let afterWhole := text.dropWhile Char.isDigit
  let (fraction, rest) := match afterWhole with
    | '.' :: more => (more.takeWhile Char.isDigit, more.dropWhile Char.isDigit)
    | _ => ([], afterWhole)
  if whole.isEmpty && fraction.isEmpty then none
  else
    (readExponent? rest).map fun power =>
      ofDecimal negative (digitsValue (whole ++ fraction)) (power - fraction.length)

/-- A number in decimal, or one of the words `inf`, `infinity` and `nan` in any case, with an
optional sign. -/
def read? (text : List Char) : Option Double :=
  let (negative, rest) := splitSign text
  let word := rest.map Char.toLower
  if word == "inf".toList || word == "infinity".toList then
    some (ofMagnitude negative infinityMagnitude)
  else if word == "nan".toList then
    some (ofMagnitude negative (infinityMagnitude + Nat.pow 2 51))
  else
    readUnsigned? negative rest

end Double

end EntityQuery
