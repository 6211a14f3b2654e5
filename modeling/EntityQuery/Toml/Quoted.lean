import EntityQuery.Number.Reading
import EntityQuery.Text.Reader

/-!
# TOML strings

Strings come in four forms: between double quotes, with escapes, or between single quotes, without;
each on one line, or over many lines between three quotes. A line break in a string is a line feed
however it is written, and one right after the opening quotes does not count.
-/

namespace EntityQuery.Toml.Grammar

open Reader

def isSpace (c : Char) : Bool :=
  c == ' ' || c == '\t'

/-- A character that can be written as it is: a tab, or anything that is not a control character. -/
def isPlain (c : Char) : Bool :=
  c == '\t' || (0x20 ≤ c.toNat && c.toNat != 0x7f)

def spaces : Reader Unit := do
  let _ ← chars isSpace

def lineBreak : Reader Unit :=
  orElse (exactly "\n") (exactly "\r\n")

def isHexDigit (c : Char) : Bool :=
  c.isDigit || ('a' ≤ c && c ≤ 'f') || ('A' ≤ c && c ≤ 'F')

def hexValue (c : Char) : Nat :=
  if c.isDigit then c.toNat - '0'.toNat else c.toLower.toNat - 'a'.toNat + 10

def valueIn (base : Nat) (digits : List Char) : Nat :=
  digits.foldl (fun value c => base * value + hexValue c) 0

/-- The character with a code, given by its hexadecimal digits. -/
def charOfCode? (digits : List Char) : Option Char :=
  let code := valueIn 16 digits
  if h : code.isValidChar then some (Char.ofNatAux code h) else none

/-- So many hexadecimal digits as the code of a character. -/
def codeOf : Nat → Reader (List Char)
  | 0 => return []
  | count + 1 => do
    let first ← char isHexDigit
    return first :: (← codeOf count)

/-- A character of a class that stands for another. -/
def letter (written : String) (meant : Char) : Reader Char := do
  exactly written
  return meant

/-- An escape after its backslash. -/
def escaped : Reader Char :=
  oneOf (letter "\"" '"')
    [letter "b" '\x08', letter "t" '\t', letter "n" '\n', letter "f" '\x0c', letter "r" '\r',
      letter "\\" '\\',
      (do
        exactly "u"
        codeOf 4 : Reader (List Char)).convert charOfCode?,
      (do
        exactly "U"
        codeOf 8 : Reader (List Char)).convert charOfCode?]

def escape : Reader Char := do
  exactly "\\"
  escaped

def basicChar : Reader Char :=
  char fun c => isPlain c && c != '"' && c != '\\'

def literalChar : Reader Char :=
  char fun c => isPlain c && c != '\''

def basicString : Reader String := do
  exactly "\""
  let body ← many (orElse escape basicChar)
  exactly "\""
  return String.ofList body

def literalString : Reader String := do
  exactly "'"
  let body ← many literalChar
  exactly "'"
  return String.ofList body

/-- Quotes inside a string over many lines: one or two of them, not three. -/
def innerQuotes (quote : Char) : Reader (List Char) :=
  check (chars (· == quote)) fun run => run.length == 1 || run.length == 2

/-- The quotes that end a string over many lines. Up to two before the last three belong to the
string. -/
def closingQuotes (quote : Char) : Reader (List Char) := do
  let run ← check (chars (· == quote)) fun run => 3 ≤ run.length && run.length ≤ 5
  return run.drop 3

/-- A backslash at the end of a line takes away the line break and all blanks after it. -/
def continuedLine : Reader (List Char) := do
  exactly "\\"
  spaces
  lineBreak
  let _ ← many (orElse lineBreak (do let _ ← char isSpace))
  return []

def one (p : Reader Char) : Reader (List Char) := do
  return [← p]

def keptBreak : Reader (List Char) := do
  lineBreak
  return ['\n']

/-- A string over many lines, given its quote and its pieces besides quotes. -/
def multiline (quote : Char) (piece : Reader (List Char)) : Reader String := do
  exactly (String.ofList [quote, quote, quote])
  let _ ← lineBreak.optional
  let body ← many (orElse piece (innerQuotes quote))
  let last ← closingQuotes quote
  return String.ofList (body.flatten ++ last)

def multilineBasic : Reader String :=
  multiline '"' (oneOf keptBreak [one basicChar, continuedLine, one escape])

def multilineLiteral : Reader String :=
  multiline '\'' (orElse (one literalChar) keptBreak)

def quotedString : Reader String :=
  oneOf literalString [multilineBasic, basicString, multilineLiteral]

end EntityQuery.Toml.Grammar
