import EntityQuery.Text.Word

/-!
# Substitution

Before it is read, the text of a query may hold marks `{name}`, each of which stands for a text given
with the query. The text is cut into pieces once, from left to right: quoted texts, marks, and single
characters of everything else. Marks are then replaced, and the texts put in their place are not
looked at again. A quote that is never closed, and a brace that does not enclose a name, are plain
characters.
-/

namespace EntityQuery.Query

inductive Piece where
  | plain (c : Char)
  | quoted (body : List Char)
  | mark (name : List Char)
  deriving Repr, DecidableEq

namespace Piece

/-- The text of a quotation up to its closing quote, and the text after it. -/
def closeQuote? (text : List Char) : Option (List Char × List Char) :=
  match text.dropWhile (· != '\'') with
  | _ :: rest => some (text.takeWhile (· != '\''), rest)
  | [] => none

/-- The name of a mark up to its closing brace, and the text after it. -/
def closeMark? (text : List Char) : Option (List Char × List Char) :=
  match Text.splitWord? text with
  | some (name, '}' :: rest) => some (name, rest)
  | _ => none

/-- The first piece of a text that starts with the given character, and the text after the piece. -/
def next (c : Char) (rest : List Char) : Piece × List Char :=
  if c = '\'' then
    match closeQuote? rest with
    | some (body, after) => (.quoted body, after)
    | none => (.plain c, rest)
  else if c = '{' then
    match closeMark? rest with
    | some (name, after) => (.mark name, after)
    | none => (.plain c, rest)
  else (.plain c, rest)

theorem length_of_closeQuote? {text body rest : List Char}
    (h : closeQuote? text = some (body, rest)) : rest.length < text.length := by
  unfold closeQuote? at h
  split at h
  · rename_i c found hfound
    cases h
    have := (List.dropWhile_suffix (l := text) (· != '\'')).length_le
    simp only [hfound, List.length_cons] at this
    omega
  · cases h

theorem length_of_closeMark? {text name rest : List Char}
    (h : closeMark? text = some (name, rest)) : rest.length < text.length := by
  unfold closeMark? at h
  split at h
  · rename_i word found hfound
    cases h
    have := Text.length_of_splitWord? hfound
    simp only [List.length_cons] at this
    omega
  · cases h

theorem length_next_le (c : Char) (rest : List Char) : (next c rest).2.length ≤ rest.length := by
  unfold next
  split
  · split
    · rename_i h
      exact Nat.le_of_lt (length_of_closeQuote? h)
    · exact Nat.le_refl _
  · split
    · split
      · rename_i h
        exact Nat.le_of_lt (length_of_closeMark? h)
      · exact Nat.le_refl _
    · exact Nat.le_refl _

def scan : List Char → List Piece
  | [] => []
  | c :: rest => (next c rest).1 :: scan (next c rest).2
termination_by text => text.length
decreasing_by
  have := length_next_le c rest
  simp only [List.length_cons]
  omega

def chars : Piece → List Char
  | .plain c => [c]
  | .quoted body => '\'' :: body ++ ['\'']
  | .mark name => '{' :: name ++ ['}']

/-- The text of a piece after substitution; a mark without a substitution is an error. -/
def replace (substitutions : List (String × String)) : Piece → Except String (List Char)
  | .mark name =>
    match substitutions.lookup (String.ofList name) with
    | some text => .ok text.toList
    | none => .error (String.ofList name)
  | piece => .ok piece.chars

end Piece

/-- The query text with its marks replaced, or the name of the first mark that has no
substitution. -/
def substitute (substitutions : List (String × String)) (query : String) : Except String String := do
  let parts ← (Piece.scan query.toList).mapM (Piece.replace substitutions)
  return String.ofList parts.flatten

end EntityQuery.Query
