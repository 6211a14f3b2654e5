/-!
# Splitting text

Text cut at a character: at the first place where it stands, or at all of them.
-/

namespace EntityQuery.Text

/-- The parts before and after the first place of a character. -/
def splitFirst? (mark : Char) (text : String) : Option (String × String) :=
  match text.toList.dropWhile (· != mark) with
  | _ :: after => some (String.ofList (text.toList.takeWhile (· != mark)), String.ofList after)
  | [] => none

/-- The parts between the places of a character, given the part that has begun. -/
def splitParts (mark : Char) (part : List Char) : List Char → List (List Char)
  | [] => [part]
  | c :: rest =>
    if c = mark then part :: splitParts mark [] rest else splitParts mark (part ++ [c]) rest

/-- The parts between the places of a character; there is one more of them than there are places. -/
def splitAll (mark : Char) (text : String) : List String :=
  (splitParts mark [] text.toList).map String.ofList

end EntityQuery.Text
