/-!
# Words

A word is a letter or underscore followed by letters, digits and underscores, all of them ASCII. Words
name the marks of a query text and the parameters of a filter.
-/

namespace EntityQuery.Text

def isWordStart (c : Char) : Bool :=
  c.isAlpha || c == '_'

def isWordChar (c : Char) : Bool :=
  c.isAlphanum || c == '_'

/-- The word that a text starts with, as long as it can be, and the text after it. -/
def splitWord? (text : List Char) : Option (List Char × List Char) :=
  match text with
  | first :: rest =>
    if isWordStart first then
      some (first :: rest.takeWhile isWordChar, rest.dropWhile isWordChar)
    else none
  | [] => none

theorem length_of_splitWord? {text word rest : List Char}
    (h : splitWord? text = some (word, rest)) : rest.length < text.length := by
  unfold splitWord? at h
  split at h
  · rename_i first tail
    split at h
    · cases h
      have := (List.dropWhile_suffix (l := tail) isWordChar).length_le
      simp only [List.length_cons]
      omega
    · cases h
  · cases h

end EntityQuery.Text
