import EntityQuery.Value

/-!
# Mapped entities

An entity is a kind of object kept in a table. Its identifier is one column; a property is one column
(`basic`), several columns (`component`), or an association with another entity. An association is
`manyToOne` when the owner's table holds the key of the other entity, `oneToMany` when the other
table holds the key of the owner, and `manyToMany` when a table between them holds both.

A filter is a condition on the rows of an entity that can be switched on for a query.
-/

namespace EntityQuery

/-- One typed column under the name that queries use for it. -/
structure ColumnMapping where
  name : String
  column : String
  type : SemanticType
  deriving Repr, DecidableEq

inductive Association where
  /-- The column of the owner's table holds the identifier of the target. -/
  | manyToOne (target column : String)
  /-- The key column of the target's table holds the identifier of the owner. -/
  | oneToMany (target keyColumn : String)
  /-- The two columns of the table in between hold both identifiers. -/
  | manyToMany (target table keyColumn elementColumn : String)
  deriving Repr, DecidableEq

namespace Association

def target : Association → String
  | .manyToOne target _ | .oneToMany target _ | .manyToMany target .. => target

def isCollection : Association → Bool
  | .manyToOne .. => false
  | .oneToMany .. | .manyToMany .. => true

end Association

inductive PropertyKind where
  | basic (column : String) (type : SemanticType)
  | component (component : String) (fields : List ColumnMapping)
  | association (association : Association)
  deriving Repr, DecidableEq

namespace PropertyKind

def isCollection : PropertyKind → Bool
  | .association link => link.isCollection
  | _ => false

def target? : PropertyKind → Option String
  | .association link => some link.target
  | _ => none

end PropertyKind

structure Property where
  name : String
  kind : PropertyKind
  deriving Repr, DecidableEq

/-- A named condition. In its text, `{alias}` stands for the table of the entity and `:name` for one of
the parameters. -/
structure Filter where
  name : String
  condition : String
  parameters : List (String × SemanticType)
  deriving Repr, DecidableEq

structure Entity where
  name : String
  table : String
  identifier : ColumnMapping
  properties : List Property
  filters : List Filter
  deriving Repr, DecidableEq

def stemLength : Nat := 10

/-- The start of a table alias: the first characters of a name that pass a test, in lower case. -/
def aliasStem (keep : Char → Bool) (name : String) : String :=
  Text.lowerAscii (String.ofList ((name.toList.filter keep).take stemLength))

/-- The part of a qualified name after its last dot. -/
def simpleName (name : String) : String :=
  String.ofList (name.toList.reverse.takeWhile (· != '.')).reverse

namespace Entity

def property? (entity : Entity) (name : String) : Option Property :=
  entity.properties.find? (·.name == name)

/-- Whether a name is the identifier's or a property's. -/
def hasProperty (entity : Entity) (name : String) : Bool :=
  name == entity.identifier.name || entity.properties.any (·.name == name)

def filter? (entity : Entity) (name : String) : Option Filter :=
  entity.filters.find? (·.name == name)

def stem (entity : Entity) : String :=
  aliasStem Char.isAlphanum (simpleName entity.name)

end Entity

end EntityQuery
