import EntityQuery.Scope.Basic

/-!
# Paths

What a path of names denotes in a scope. A path starts at the table of its first name, if that is a
declared alias, and at the only root otherwise. Each further name is a property of what the names
before it denote. The identifier behind a many-to-one association is the key column of the owner, so
it needs no join; any other property of the target needs one.
-/

namespace EntityQuery

inductive Meaning where
  | column (owner : Element) (column : String) (type : SemanticType)
  | component (owner : Element) (component : String) (fields : List ColumnMapping)
  | entity (element : Element)
  /-- A many-to-one association that is not joined: only the key is at hand. -/
  | reference (owner : Element) (property target column : String)
  | collection (owner : Element) (association : Association)
  deriving Repr

namespace Scope

open Scoped

def property (owner : Element) (name : String) : Except MappingFault Meaning :=
  let identifier := owner.entity.identifier
  if name = identifier.name then .ok (.column owner identifier.column identifier.type)
  else
    match owner.entity.property name with
    | .error fault => .error fault
    | .ok property =>
      match property.kind with
      | .basic column type => .ok (.column owner column type)
      | .component component fields => .ok (.component owner component fields)
      | .association (.manyToOne target column) => .ok (.reference owner name target column)
      | .association association => .ok (.collection owner association)

/-- The only root; a path that names no table has to start there. -/
def soleRoot (context : Context) (path : List String) : Scoped Element := do
  match (← get).roots with
  | [root] => return root
  | _ => misuse context (.unresolvedPath path)

/-- Where a path starts, and the names left after that. -/
def start (context : Context) (path : List String) : Scoped (Element × List String) := do
  match path with
  | first :: rest =>
    match (← get).aliases.lookup first with
    | some element => return (element, rest)
    | none => return (← soleRoot context path, path)
  | [] => return (← soleRoot context path, path)

def step (context : Context) (path : List String) (meaning : Meaning) (name : String) :
    Scoped Meaning := do
  match meaning with
  | .entity element => ofMapping (property element name)
  | .reference owner association targetName column =>
    let target ← ofMapping (context.model.entity targetName)
    if name = target.identifier.name then return .column owner column target.identifier.type
    else ofMapping (property (← implicitJoin context owner association path) name)
  | .component owner component fields =>
    match fields.find? (·.name == name) with
    | some field => return .column owner field.column field.type
    | none => ofMapping (.error (.unknownProperty component name))
  | .collection .. => misuse context (.collectionDereference path)
  | .column .. => misuse context (.scalarDereference path)

def resolve (context : Context) (path : List String) : Scoped Meaning := do
  let (element, rest) ← start context path
  rest.foldlM (step context path) (.entity element)

/-- The owner and the property of a join path: its last name is the property. -/
def joinOwner (context : Context) (path : List String) : Scoped (Element × String) := do
  match path.dropLast, path.getLast? with
  | _, none => misuse context .emptyJoinPath
  | [], some property => return (← soleRoot context path, property)
  | ownerPath, some property =>
    match ← resolve context ownerPath with
    | .entity element => return (element, property)
    | .reference owner association _ _ =>
      return (← implicitJoin context owner association ownerPath, property)
    | _ => misuse context (.joinNotFromEntity path)

end Scope

end EntityQuery
