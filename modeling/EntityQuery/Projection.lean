import EntityQuery.Layout
import EntityQuery.Typing

/-!
# The select list

What a query selects, as columns of the statement and as the layout of its rows. An entity is
selected with all its columns; in a shallow query only by its identifier. The columns of fetched
associations come after those of the selected values.
-/

namespace EntityQuery

open Scoped (misuse ofMapping)

/-- What one item of the select clause stands for. -/
inductive Target where
  | element (element : Element)
  | expr (expr : Query.Expr)
  deriving Repr

structure Selected where
  columns : List Sql.Term
  shape : ReturnShape
  type : SemanticType
  /-- The table whose entity is selected with all its columns. -/
  element : Option Nat
  deriving Repr

namespace Selected

def scalar (term : Sql.Term) (type : SemanticType) : Selected :=
  ⟨[term], .columns (.scalar type), type, none⟩

/-- An entity of which only the identifier is selected. -/
def reference (column : Sql.ColumnRef) (entity : String) (identifierType : SemanticType) : Selected :=
  ⟨[.column column], .columns (.reference entity identifierType), .entity entity, none⟩

/-- The columns of a property and what they hold. A collection has none. -/
def propertyColumns (model : Metamodel) (element : Element) (property : Property) :
    Except MappingFault (List Sql.ColumnRef × Option (String × ColumnShape)) :=
  match property.kind with
  | .basic column type => .ok ([element.column column], some (property.name, .scalar type))
  | .component component fields =>
    .ok (fields.map fun field => element.column field.column,
      some (property.name, .component component (fields.map fun field => (field.name, field.type))))
  | .association (.manyToOne target column) => do
    let entity ← model.entity target
    return ([element.column column], some (property.name, .reference target entity.identifier.type))
  | .association _ => .ok ([], none)

def entityColumns (model : Metamodel) (element : Element) :
    Except MappingFault (List Sql.ColumnRef × EntityLayout) := do
  let entity := element.entity
  let parts ← entity.properties.mapM (propertyColumns model element)
  return (element.identifier :: parts.flatMap (·.1),
    ⟨entity.name, entity.identifier.type, parts.filterMap (·.2)⟩)

section

variable (context : Context)

def ofElement (element : Element) : Scoped Selected := do
  let entity := element.entity
  if context.shallow then return reference element.identifier entity.name entity.identifier.type
  else
    let (columns, layout) ← ofMapping (entityColumns context.model element)
    return ⟨columns.map .column, .entity layout, .entity entity.name, some element.index⟩

/-- The value that a selected path stands for. A many-to-one association is joined, unless its key
is all that is asked for. -/
def ofMeaning (path : List String) : Meaning → Scoped Selected
  | .column owner column type => return scalar (.column (owner.column column)) type
  | .entity element => ofElement context element
  | .reference owner property targetName column => do
    if context.shallow then
      let target ← ofMapping (context.model.entity targetName)
      return reference (owner.column column) targetName target.identifier.type
    else ofElement context (← Scope.implicitJoin context owner property path)
  | .component owner component fields =>
    return ⟨fields.map fun field => .column (owner.column field.column),
      .columns (.component component (fields.map fun field => (field.name, field.type))),
      .component component, none⟩
  | .collection .. => misuse context (.collectionDereference path)

def ofTarget : Target → Scoped Selected
  | .element element => ofElement context element
  | .expr (.path path) => do ofMeaning context path (← Scope.resolve context path)
  | .expr expr => do
    let (term, type) ← Typed.determined context expr
    return scalar term type

end

end Selected

structure FetchJoin where
  element : Element
  owner : Element
  property : String
  deriving Repr

structure Projection where
  columns : List Sql.SelectColumn := []
  returns : List Return := []
  /-- The selected entities: each table with the number of the first value it is selected for. -/
  selected : List (Nat × Nat) := []
  fetches : List Fetch := []
  /-- The fetched entities: each table with the number of its fetch. -/
  fetched : List (Nat × Nat) := []
  deriving Repr

namespace Projection

def labels (part : String) (number width : Nat) : List String :=
  (List.range width).map fun column => s!"{part}_{number}_{column}_"

def labelled (terms : List Sql.Term) (labels : List String) : List Sql.SelectColumn :=
  (terms.zip labels).map fun (term, label) => ⟨term, label⟩

def addReturn (projection : Projection) (selected : Selected) (alias? : Option String) : Projection :=
  let number := projection.returns.length
  let names := labels "col" number selected.columns.length
  let value : Return :=
    ⟨selected.shape, projection.columns.length, selected.type, alias?, names⟩
  { projection with
    columns := projection.columns ++ labelled selected.columns names
    returns := projection.returns ++ [value]
    selected := projection.selected ++ selected.element.toList.map fun element => (element, number) }

/-- What a table belongs to when it is the owner of a fetch. -/
def owner? (projection : Projection) (element : Element) : Option FetchOwner :=
  ((projection.selected.lookup element.index).map .returned).or
    ((projection.fetched.lookup element.index).map .fetched)

def addFetch (projection : Projection) (owner : FetchOwner) (join : FetchJoin)
    (columns : List Sql.ColumnRef) (layout : EntityLayout) : Projection :=
  let number := projection.fetches.length
  let collection := (join.owner.entity.property? join.property).any (·.kind.isCollection)
  let fetch : Fetch := ⟨owner, join.property, collection, layout, projection.columns.length⟩
  { projection with
    columns := projection.columns
      ++ labelled (columns.map .column) (labels "fetch" number columns.length)
    fetches := projection.fetches ++ [fetch]
    fetched := projection.fetched ++ [(join.element.index, number)] }

section

variable (context : Context)

def selectTarget (projection : Projection) (item : Target × Option String) : Scoped Projection := do
  return projection.addReturn (← Selected.ofTarget context item.1) item.2

/-- Adds a fetched association; its owner has to be there already. -/
def selectFetch (projection : Projection) (join : FetchJoin) : Scoped Projection := do
  match projection.owner? join.owner with
  | none => misuse context .fetchWithoutOwner
  | some owner =>
    let (columns, layout) ← ofMapping (Selected.entityColumns context.model join.element)
    return projection.addFetch owner join columns layout

def select (items : List (Target × Option String)) (fetches : List FetchJoin) : Scoped Projection := do
  let projection ← items.foldlM (selectTarget context) {}
  fetches.foldlM (selectFetch context) projection

end

/-- Whether a collection is fetched, so that several rows make up one result. -/
def fetchesCollection (projection : Projection) : Bool :=
  projection.fetches.any (·.collection)

end Projection

end EntityQuery
