import EntityQuery.Value

/-!
# Statement text with parameters

A template is SQL text in which the parameters still stand as themselves; they become placeholders
only when a whole statement is written. Templates are kept in normal form: no text in them is empty,
and no two texts stand side by side. Joining templates with `++` merges the texts that meet.
-/

namespace EntityQuery

inductive ParameterSource where
  | named (name : String)
  | ordinal (position : Nat)
  | filter (filter parameter : String)
  deriving Repr, DecidableEq

/-- The parameter as it is written in the query; for a filter's, the filter and the parameter. -/
def ParameterSource.text : ParameterSource → String
  | .named name => ":" ++ name
  | .ordinal position => "?" ++ toString position
  | .filter owner parameter => owner ++ "." ++ parameter

namespace Sql

structure Slot where
  source : ParameterSource
  type : SemanticType
  expandable : Bool
  deriving Repr, DecidableEq

inductive Piece where
  | text (text : String)
  | slot (slot : Slot)
  deriving Repr, DecidableEq

structure Template where
  pieces : List Piece := []
  deriving Repr, DecidableEq

namespace Template

/-- A piece in front of others; a text merges with the text after it, and an empty one is left
out. -/
def prepend : Piece → List Piece → List Piece
  | .text first, .text second :: rest => .text (first ++ second) :: rest
  | .text first, rest => if first = "" then rest else .text first :: rest
  | .slot slot, rest => .slot slot :: rest

def append (first second : Template) : Template :=
  ⟨first.pieces.foldr prepend second.pieces⟩

instance : Append Template := ⟨append⟩

def text (text : String) : Template :=
  ⟨prepend (.text text) []⟩

def slot (slot : Slot) : Template :=
  ⟨[.slot slot]⟩

def join (separator : String) : List Template → Template
  | [] => {}
  | [template] => template
  | template :: rest => template ++ text separator ++ join separator rest

def slots (template : Template) : List Slot :=
  template.pieces.filterMap fun
    | .slot slot => some slot
    | .text _ => none

end Template

end Sql

end EntityQuery
