import EntityQuery.Value

/-!
# The layout of a row

Which columns of a row make up which part of a result. Positions count from the first column of the
row; a part takes the columns from its first position on, as many as its width says.
-/

namespace EntityQuery

/-- A value that takes a fixed number of columns. -/
inductive ColumnShape where
  | scalar (type : SemanticType)
  | component (component : String) (fields : List (String × SemanticType))
  | reference (entity : String) (identifierType : SemanticType)
  deriving Repr, DecidableEq

def ColumnShape.width : ColumnShape → Nat
  | .component _ fields => fields.length
  | .scalar _ | .reference .. => 1

/-- The columns of an entity: the identifier, then each property. -/
structure EntityLayout where
  entity : String
  identifierType : SemanticType
  properties : List (String × ColumnShape)
  deriving Repr, DecidableEq

def EntityLayout.width (layout : EntityLayout) : Nat :=
  (layout.properties.map (·.2.width)).foldr (· + ·) 1

inductive ReturnShape where
  | columns (shape : ColumnShape)
  | entity (layout : EntityLayout)
  deriving Repr, DecidableEq

def ReturnShape.width : ReturnShape → Nat
  | .columns shape => shape.width
  | .entity layout => layout.width

structure Return where
  shape : ReturnShape
  first : Nat
  type : SemanticType
  alias? : Option String
  labels : List String
  deriving Repr, DecidableEq

/-- What a fetched entity belongs to: a selected entity, or one fetched before it. -/
inductive FetchOwner where
  | returned (index : Nat)
  | fetched (index : Nat)
  deriving Repr, DecidableEq

/-- An association that is loaded together with its owner. -/
structure Fetch where
  owner : FetchOwner
  property : String
  /-- Whether the property is a collection, to which the entity is added. -/
  collection : Bool
  layout : EntityLayout
  first : Nat
  deriving Repr, DecidableEq

end EntityQuery
