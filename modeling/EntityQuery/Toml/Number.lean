import EntityQuery.Toml.Quoted
import EntityQuery.Toml.Value

/-!
# TOML numbers

Digits of a number can be parted by single underscores. A whole number has to fit into 64 bits; it is
decimal, or hexadecimal, octal or binary without a sign.
-/

namespace EntityQuery.Toml.Grammar

open Reader

/-- Digits of a class, with single underscores between them; the underscores are left out. -/
def digitRun (isOne : Char → Bool) : Reader (List Char) := do
  let first ← char isOne
  let rest ← many do
    let _ ← (exactly "_").optional
    char isOne
  return first :: rest

def signText : Reader (List Char) := do
  let sign ← optional (char fun c => c == '+' || c == '-')
  return sign.toList

/-- Decimal digits without a zero in front of others. -/
def wholeDigits : Reader (List Char) :=
  check (digitRun Char.isDigit) fun run => run.length == 1 || run.head? != some '0'

/-- A whole number in a base, after the letter that marks the base. -/
def based (mark : String) (base : Nat) (isOne : Char → Bool) : Reader Toml :=
  (do
    exactly mark
    digitRun isOne : Reader (List Char)).convert fun run =>
      let value := valueIn base run
      if value ≤ maxInt64 then some (.integer value) else none

def decimalInteger : Reader Toml :=
  (do
    let sign ← signText
    return sign ++ (← wholeDigits) : Reader (List Char)).convert fun text =>
      (readInt64? text).map .integer

def integer : Reader Toml :=
  oneOf decimalInteger
    [based "0x" 16 isHexDigit, based "0o" 8 fun c => '0' ≤ c && c ≤ '7',
      based "0b" 2 fun c => c == '0' || c == '1']

def fraction : Reader (List Char) := do
  exactly "."
  return '.' :: (← digitRun Char.isDigit)

def exponent : Reader (List Char) := do
  let _ ← char fun c => c == 'e' || c == 'E'
  let sign ← signText
  return 'e' :: sign ++ (← digitRun Char.isDigit)

/-- A number with a fraction or an exponent; one too large to write is refused. -/
def decimalFloat : Reader Toml :=
  (do
    let sign ← signText
    let whole ← wholeDigits
    let rest ← orElse exponent do
      let digits ← fraction
      return digits ++ (← exponent.optional).getD []
    return sign ++ whole ++ rest : Reader (List Char)).convert fun text =>
      (Double.read? text).bind fun value =>
        if value.isInfinite && !value.isNegative then none else some (.float value)

def specialFloat : Reader Toml :=
  (do
    let sign ← signText
    orElse (do
        exactly "inf"
        return sign ++ ['i', 'n', 'f'])
      (do
        exactly "nan"
        return sign ++ ['n', 'a', 'n']) : Reader (List Char)).convert fun text =>
      (Double.read? text).map .float

def number : Reader Toml :=
  oneOf integer [do return .dateTime (← dateTime), decimalFloat, specialFloat]

end EntityQuery.Toml.Grammar
