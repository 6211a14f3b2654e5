/-!
# White space

Two notions of white space meet here. *Blanks* separate the words of a query: space, tab, carriage
return and line feed. *White space* is the Unicode property, used where a text is trimmed: for the
excerpt of an error message, for list items given on the command line and for timestamps.
-/

namespace EntityQuery.Text

def isBlank (c : Char) : Bool :=
  c == ' ' || c == '\t' || c == '\r' || c == '\n'

def inRanges (ranges : List (Nat × Nat)) (code : Nat) : Bool :=
  ranges.any fun (low, high) => low ≤ code && code ≤ high

def whiteRanges : List (Nat × Nat) :=
  [(0x9, 0xd), (0x20, 0x20), (0x85, 0x85), (0xa0, 0xa0), (0x1680, 0x1680), (0x2000, 0x200a),
    (0x2028, 0x2029), (0x202f, 0x202f), (0x205f, 0x205f), (0x3000, 0x3000)]

/-- A character with the Unicode white space property. -/
def isWhite (c : Char) : Bool :=
  inRanges whiteRanges c.toNat

def skipBlanks (text : List Char) : List Char :=
  text.dropWhile isBlank

def trimStart (text : List Char) : List Char :=
  text.dropWhile isWhite

def trim (text : List Char) : List Char :=
  ((trimStart text).reverse.dropWhile isWhite).reverse

theorem skipBlanks_skipBlanks (text : List Char) :
    skipBlanks (skipBlanks text) = skipBlanks text := by
  induction text with
  | nil => rfl
  | cons c rest ih =>
    by_cases hc : isBlank c = true
    · simpa [skipBlanks, List.dropWhile_cons, hc] using ih
    · simp [skipBlanks, hc]

end EntityQuery.Text
