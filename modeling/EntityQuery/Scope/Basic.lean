import EntityQuery.Model.Metamodel
import EntityQuery.Parameters
import EntityQuery.Sql.Statement

/-!
# The scope of a statement

While a statement is compiled, its scope holds the tables that take part in it, in the order in which
they came in. A table comes in as the root of a range, by a join written in the query, or by an
implicit join, when a path goes through an association that is not joined yet. An implicit join is
made once for each owner and property, and found again after that.

Each table gets an alias of its own: the start of a name and a number that is used only once in the
statement. Bulk statements have a single table without an alias and allow no joins.
-/

namespace EntityQuery

open Query (JoinKind)

/-- What stays the same while a statement is compiled. -/
structure Context where
  model : Metamodel
  filters : EnabledFilters
  query : String
  /-- Entities are selected by their identifiers alone. -/
  shallow : Bool
  deriving Repr

/-- A table that takes part in a statement, as paths and columns see it. -/
structure Element where
  /-- The position among the tables of the statement. -/
  index : Nat
  /-- The position of the root of the range that the table belongs to. -/
  range : Nat
  entity : Entity
  /-- The alias of the table; a bulk statement has none. -/
  tableAlias : Option String
  deriving Repr, DecidableEq

namespace Element

/-- A column of the table, as it is written in the statement. -/
def column (element : Element) (column : String) : Sql.ColumnRef :=
  ⟨element.tableAlias, column⟩

/-- A column of the table, as it is written inside a subquery. -/
def outerColumn (element : Element) (column : String) : Sql.ColumnRef :=
  ⟨some (element.tableAlias.getD element.entity.table), column⟩

def identifier (element : Element) : Sql.ColumnRef :=
  element.column element.entity.identifier.column

end Element

/-- How a table is joined: from which table, along which property, and by which SQL. A many-to-many
association goes through the table between the two. -/
structure JoinOrigin where
  parent : Nat
  property : String
  link : Option Sql.JoinedTable
  target : Sql.JoinedTable
  deriving Repr

/-- A table of the scope; without an origin it is the root of a range. -/
structure ScopeEntry where
  element : Element
  origin : Option JoinOrigin
  deriving Repr

/-- The table with more conditions on its join. A root has no join to put them on. -/
def ScopeEntry.restrict (entry : ScopeEntry) (conditions : List Sql.Condition) : ScopeEntry :=
  { entry with
    origin := entry.origin.map fun origin =>
      { origin with
        target := { origin.target with conditions := origin.target.conditions ++ conditions } } }

/-- The tables that a joined table brings into the from clause. -/
def ScopeEntry.joinedTables (entry : ScopeEntry) : List Sql.JoinedTable :=
  match entry.origin with
  | some origin => origin.link.toList ++ [origin.target]
  | none => []

structure Scope where
  entries : List ScopeEntry := []
  aliases : List (String × Element) := []
  /-- The implicit joins, by owner and property. -/
  implicit : List ((Nat × String) × Element) := []
  counter : Nat := 0
  tables : List String := []
  bulk : Bool := false
  deriving Repr

namespace Scope

def roots (scope : Scope) : List Element :=
  (scope.entries.filter (·.origin.isNone)).map (·.element)

def countAlias (scope : Scope) : Scope :=
  { scope with counter := scope.counter + 1 }

def addTable (scope : Scope) (table : String) : Scope :=
  { scope with tables := Keyed.insertKey table scope.tables }

def addCondition (scope : Scope) (index : Nat) (condition : Sql.Condition) : Scope :=
  { scope with entries := scope.entries.modify index (·.restrict [condition]) }

/-- The from clause: each root, followed by the tables of its range in the order they came in. -/
def ranges (scope : Scope) : List Sql.TableRange :=
  scope.roots.map fun root =>
    { table := root.entity.table
      tableAlias := root.tableAlias
      joins := (scope.entries.filter (·.element.range == root.index)).flatMap ScopeEntry.joinedTables }

end Scope

/-- A step of the compilation: it may bring tables into the scope, and it may fail. -/
abbrev Scoped : Type → Type :=
  StateT Scope (Except Error)

namespace Scoped

def fail {α : Type} (fault : QueryFault) : Scoped α :=
  throw (.query fault)

def misuse {α : Type} (context : Context) (misuse : Misuse) : Scoped α :=
  fail (.misuse misuse context.query)

/-- A result that depends on the mapping alone. -/
def ofMapping {α : Type} (result : Except MappingFault α) : Scoped α :=
  match result with
  | .ok a => pure a
  | .error fault => throw (.mapping fault)

end Scoped

namespace Scope

open Scoped

def nextAlias (stem : String) : Scoped String := do
  let scope ← get
  set scope.countAlias
  return stem ++ toString scope.counter ++ "_"

/-- Brings a table into the scope, under the alias that the query gives it. -/
def push (context : Context) (entry : ScopeEntry) (alias? : Option String) : Scoped Element := do
  let scope ← get
  match alias? with
  | some name =>
    if (scope.aliases.lookup name).isSome then misuse context (.aliasTaken name)
    else
      set { scope with
        entries := scope.entries ++ [entry], aliases := scope.aliases ++ [(name, entry.element)] }
  | none => set { scope with entries := scope.entries ++ [entry] }
  return entry.element

def addRoot (context : Context) (entityName : String) (alias? : Option String) :
    Scoped Element := do
  let entity ← ofMapping (context.model.entity entityName)
  let tableAlias ← if (← get).bulk then pure none else some <$> nextAlias entity.stem
  modify (·.addTable entity.table)
  let index := (← get).entries.length
  push context ⟨⟨index, index, entity, tableAlias⟩, none⟩ alias?

/-- A character that goes into the alias of a table between two entities. -/
def isLinkAliasChar (c : Char) : Bool :=
  c.isAlphanum || c == '_'

/-- The alias of the table that an association leads to, and the join that leads there. The table
between the two, if there is one, gets its alias first. -/
def joinOrigin (kind : JoinKind) (parent : Element) (property : String) (association : Association)
    (target : Entity) : Scoped (String × JoinOrigin) := do
  match association with
  | .manyToOne _ column =>
    let tableAlias ← nextAlias target.stem
    return (tableAlias, ⟨parent.index, property, none,
      ⟨kind, target.table, tableAlias, parent.column column,
        ⟨some tableAlias, target.identifier.column⟩, []⟩⟩)
  | .oneToMany _ keyColumn =>
    let tableAlias ← nextAlias target.stem
    return (tableAlias, ⟨parent.index, property, none,
      ⟨kind, target.table, tableAlias, parent.identifier, ⟨some tableAlias, keyColumn⟩, []⟩⟩)
  | .manyToMany _ table keyColumn elementColumn =>
    modify (·.addTable table)
    let linkAlias ← nextAlias (aliasStem isLinkAliasChar table)
    let tableAlias ← nextAlias target.stem
    let link : Sql.JoinedTable :=
      ⟨kind, table, linkAlias, parent.identifier, ⟨some linkAlias, keyColumn⟩, []⟩
    return (tableAlias, ⟨parent.index, property, some link,
      ⟨kind, target.table, tableAlias, ⟨some linkAlias, elementColumn⟩,
        ⟨some tableAlias, target.identifier.column⟩, []⟩⟩)

/-- Joins an association of a table that is in the scope. -/
def addJoin (context : Context) (parent : Element) (propertyName : String) (kind : JoinKind)
    (alias? : Option String) : Scoped Element := do
  let property ← ofMapping (parent.entity.property propertyName)
  match property.kind with
  | .association association =>
    let target ← ofMapping (context.model.entity association.target)
    let (tableAlias, origin) ← joinOrigin kind parent propertyName association target
    modify (·.addTable target.table)
    let index := (← get).entries.length
    push context ⟨⟨index, parent.range, target, some tableAlias⟩, some origin⟩ alias?
  | _ => ofMapping (.error (.notAssociation parent.entity.name propertyName))

/-- The table that an association of an owner leads to, joined now if it is not joined yet. -/
def implicitJoin (context : Context) (owner : Element) (property : String) (path : List String) :
    Scoped Element := do
  let scope ← get
  if scope.bulk then misuse context (.implicitJoinInBulk path)
  else
    match scope.implicit.lookup (owner.index, property) with
    | some element => return element
    | none =>
      let element ← addJoin context owner property .inner none
      modify fun scope =>
        { scope with implicit := scope.implicit ++ [((owner.index, property), element)] }
      return element

end Scope

end EntityQuery
