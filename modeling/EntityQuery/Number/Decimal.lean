import EntityQuery.Number.Shortest

/-!
# Decimal text

How numbers are written. All texts use the shortest digits of `Double.shortest`; they differ only in
when they switch to an exponent, whether a whole number keeps its `.0`, how the exponent looks, and
which of two equally near decimals they take.
Those decisions are the fields of `DecimalStyle`, and there is one value of it for each place that
writes numbers: query text and tables, SQL literals, and JSON.
-/

namespace EntityQuery

structure DecimalStyle where
  /-- Exponents of the first digit that are written without an exponent, from the first up to but
  not including the second; every exponent when there is none. -/
  positional : Option (Int × Int)
  /-- A whole number ends in `.0`. -/
  keepPoint : Bool
  /-- A positive exponent carries a plus sign. -/
  plusSign : Bool
  tie : Tie
  deriving Repr, DecidableEq

namespace DecimalStyle

/-- Query text and tables: never an exponent, and whole numbers look like integers. -/
def plain : DecimalStyle := ⟨none, false, false, .up⟩

/-- SQL literals: an exponent below `0.0001` and from `1e16` on. -/
def sql : DecimalStyle := ⟨some (-4, 16), true, false, .up⟩

/-- JSON: an exponent below `0.00001` and from `1e+16` on. -/
def json : DecimalStyle := ⟨some (-5, 16), true, true, .toEven⟩

/-- Digits with the decimal point after the first `point` of them. -/
def place (style : DecimalStyle) (digits : String) (point : Int) : String :=
  let count : Int := digits.length
  if point ≤ 0 then
    "0." ++ "".pushn '0' (-point).toNat ++ digits
  else if count ≤ point then
    digits.pushn '0' (point - count).toNat ++ (if style.keepPoint then ".0" else "")
  else
    String.ofList (digits.toList.take point.toNat) ++ "."
      ++ String.ofList (digits.toList.drop point.toNat)

/-- Digits with the point after the first and an exponent. -/
def scientific (style : DecimalStyle) (digits : String) (leading : Int) : String :=
  let tail := digits.toList.drop 1
  String.ofList (digits.toList.take 1)
    ++ (if tail.isEmpty then "" else "." ++ String.ofList tail)
    ++ "e" ++ (if style.plusSign && 0 ≤ leading then "+" else "") ++ toString leading

def decimal (style : DecimalStyle) (d : Decimal) : String :=
  let digits := toString d.digits
  match style.positional with
  | none => style.place digits (d.leading + 1)
  | some (low, high) =>
    if low ≤ d.leading && d.leading < high then style.place digits (d.leading + 1)
    else style.scientific digits d.leading

def text (style : DecimalStyle) (x : Double) : String :=
  let sign := if x.isNegative then "-" else ""
  if x.isNaN then "NaN"
  else if x.isInfinite then sign ++ "inf"
  else if x.magnitude = 0 then sign ++ (if style.keepPoint then "0.0" else "0")
  else sign ++ style.decimal (x.shortest style.tie)

end DecimalStyle

end EntityQuery
