import EntityQuery.Database.Row
import EntityQuery.Layout
import EntityQuery.Result.Basic

/-!
# Reading rows

How a row becomes the values of a result, by the layout of the plan. An entity whose identifier is
null is not there, as after an outer join that found nothing; a component all of whose fields are null
is null. Fetched entities are attached to their owners from the last to the first, so that each one
already holds what was fetched for it.
-/

namespace EntityQuery

namespace Row

def readFields (row : Row) (first : Nat) (fields : List (String × SemanticType)) :
    Except ExecutionFault (List (String × Value)) := do
  let values ← fields.zipIdx.mapM fun ((name, type), offset) => do
    return (name, ← row.read (first + offset) type)
  return Keyed.ofList values

/-- A value that takes a fixed number of columns, from a position on. -/
def readColumns (row : Row) (first : Nat) : ColumnShape → Except ExecutionFault ResultValue
  | .scalar type => do return .scalar (← row.read first type)
  | .component component fields => do
    let values ← row.readFields first fields
    return if values.all (·.2.isNull) then .scalar .null else .component component values
  | .reference entity identifierType => do
    let id ← row.read first identifierType
    return if id.isNull then .scalar .null else .reference entity id

def readProperties (row : Row) (first : Nat) :
    List (String × ColumnShape) → Except ExecutionFault (List (String × ResultValue))
  | [] => return []
  | (name, shape) :: rest => do
    let value ← row.readColumns first shape
    return (name, value) :: (← row.readProperties (first + shape.width) rest)

def readEntity? (row : Row) (first : Nat) (layout : EntityLayout) :
    Except ExecutionFault (Option Instance) := do
  let id ← row.read first layout.identifierType
  if id.isNull then return none
  else
    let properties ← row.readProperties (first + 1) layout.properties
    return some (.mk layout.entity id (Keyed.ofList properties) [])

def readReturn (row : Row) (value : Return) : Except ExecutionFault ResultValue :=
  match value.shape with
  | .columns shape => row.readColumns value.first shape
  | .entity layout => do
    match ← row.readEntity? value.first layout with
    | some found => return .entity found
    | none => return .scalar .null

end Row

namespace Fetch

/-- The owner with a fetched entity. A collection is there even if nothing was found for it. -/
def attach (fetch : Fetch) (fetched : Option Instance) (owner : Instance) : Instance :=
  if fetch.collection then
    owner.withCollection fetch.property (owner.elements fetch.property ++ fetched.toList)
  else
    match fetched with
    | some found => owner.withProperty fetch.property (.entity found)
    | none => owner

structure Loaded where
  values : List ResultValue
  fetched : List (Option Instance)
  deriving Repr

/-- A selected value with a change to the entity that it is. -/
def onEntity (change : Instance → Instance) : ResultValue → ResultValue
  | .entity found => .entity (change found)
  | value => value

def attachTo (fetch : Fetch) (number : Nat) (loaded : Loaded) : Loaded :=
  let fetched := (loaded.fetched[number]?).join
  match fetch.owner with
  | .fetched owner =>
    { loaded with fetched := loaded.fetched.modify owner (·.map (fetch.attach fetched)) }
  | .returned owner =>
    { loaded with values := loaded.values.modify owner (onEntity (fetch.attach fetched)) }

end Fetch

def Row.values (row : Row) (returns : List Return) (fetches : List Fetch) :
    Except ExecutionFault (List ResultValue) := do
  let values ← returns.mapM row.readReturn
  let fetched ← fetches.mapM fun fetch => row.readEntity? fetch.first fetch.layout
  let loaded := fetches.zipIdx.foldr (fun (fetch, number) loaded => fetch.attachTo number loaded)
    (⟨values, fetched⟩ : Fetch.Loaded)
  return loaded.values

end EntityQuery
