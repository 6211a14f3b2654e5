import EntityQuery.Text.Alphabet
import EntityQuery.Text.Blank
import EntityQuery.Text.Reader

/-!
# Tokens of the query language

Keywords, symbols and names. Blanks are skipped in front of a token, never after it.
-/

namespace EntityQuery.Query.Token

open Reader

def blanks : Reader Unit := fun text =>
  .ok ((), Text.skipBlanks text)

def symbol (word : String) : Reader Unit := do
  blanks
  exactly word

def isNameStart (c : Char) : Bool :=
  Text.isAlphabetic c || c == '_'

def isNameChar (c : Char) : Bool :=
  Text.isAlphanumeric c || c == '_'

/-- A keyword in either case, after any blanks, that is not the start of a longer name. -/
def keyword (word : String) : Reader Unit := do
  blanks
  inAnyCase word
  notNext isNameChar

/-- A name: a letter or underscore, then letters, numerals and underscores. -/
def name : Reader String := do
  let first ← char isNameStart
  let rest ← chars isNameChar
  return String.ofList (first :: rest)

/-! ## How much text is taken -/

theorem length_skipBlanks_le (text : List Char) : (Text.skipBlanks text).length ≤ text.length :=
  (List.dropWhile_suffix Text.isBlank).length_le

theorem length_of_symbol {word : String} {text rest : List Char}
    (h : symbol word text = .ok ((), rest)) : word.toList.length + rest.length ≤ text.length := by
  have hlen := length_of_exactly (show exactly word (Text.skipBlanks text) = .ok ((), rest) from h)
  have := length_skipBlanks_le text
  omega

theorem length_of_keyword {word : String} {text rest : List Char}
    (h : keyword word text = .ok ((), rest)) : word.toList.length + rest.length ≤ text.length := by
  have hbound := length_skipBlanks_le text
  simp only [keyword, bind, blanks, inAnyCase] at h
  cases hfound : afterWord? (fun c d => c == d.toLower) word.toList (Text.skipBlanks text) with
  | none => simp [hfound] at h
  | some found =>
    have hlen := length_of_afterWord? hfound
    have hrest : found = rest := by
      simp only [hfound, notNext] at h
      split at h
      · split at h
        · simp at h
        · cases h; rfl
      · cases h; rfl
    subst hrest
    omega

end EntityQuery.Query.Token
