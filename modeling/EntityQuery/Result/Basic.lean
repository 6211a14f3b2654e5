import EntityQuery.Keyed
import EntityQuery.Query.Statement
import EntityQuery.Value

/-!
# Results

What a select gives back. A result is one value, several values, or what `select new` asks for. A
value is a scalar, a component, a reference (an entity known by its identifier alone), or an instance
of an entity with its properties and the collections that were fetched with it.
-/

namespace EntityQuery

/-- A part of a result, where `ι` is the type of instances. -/
inductive Outcome (ι : Type) where
  | scalar (value : Value)
  | component (component : String) (fields : List (String × Value))
  | reference (entity : String) (id : Value)
  | entity (found : ι)
  deriving Repr

/-- A loaded entity. Properties and collections are sorted by name. -/
inductive Instance where
  | mk (entity : String) (id : Value) (properties : List (String × Outcome Instance))
    (collections : List (String × List Instance))
  deriving Repr

namespace Instance

def entity : Instance → String
  | .mk entity _ _ _ => entity

def id : Instance → Value
  | .mk _ id _ _ => id

def properties : Instance → List (String × Outcome Instance)
  | .mk _ _ properties _ => properties

def collections : Instance → List (String × List Instance)
  | .mk _ _ _ collections => collections

def withProperty (owner : Instance) (name : String) (value : Outcome Instance) : Instance :=
  .mk owner.entity owner.id (Keyed.insert name value owner.properties) owner.collections

def withCollection (owner : Instance) (name : String) (elements : List Instance) : Instance :=
  .mk owner.entity owner.id owner.properties (Keyed.insert name elements owner.collections)

/-- The elements of a collection; none if it is not there. -/
def elements (owner : Instance) (name : String) : List Instance :=
  (owner.collections.lookup name).getD []

end Instance

abbrev ResultValue : Type :=
  Outcome Instance

namespace Outcome

def scalar? {ι : Type} : Outcome ι → Option Value
  | .scalar value => some value
  | _ => none

def entity? {ι : Type} : Outcome ι → Option ι
  | .entity found => some found
  | _ => none

def id? : ResultValue → Option Value
  | .entity found => some found.id
  | .reference _ id => some id
  | _ => none

end Outcome

inductive QueryResult where
  | single (value : ResultValue)
  | tuple (values : List ResultValue)
  /-- What `select new` makes: each value with its alias. -/
  | dynamic (shape : Query.Shape) (values : List (Option String × ResultValue))
  deriving Repr

namespace QueryResult

/-- The key of a value that `select new` makes: its alias, or else its position. -/
def key (position : Nat) (alias? : Option String) : String :=
  alias?.getD (toString position)

def get? (result : QueryResult) (position : Nat) : Option ResultValue :=
  match result with
  | .single value => if position = 0 then some value else none
  | .tuple values => values[position]?
  | .dynamic _ values => values[position]?.map (·.2)

def lookup? (values : List (Option String × ResultValue)) (name : String) : Option ResultValue :=
  (values.zipIdx.find? fun ((alias?, _), position) => key position alias? == name).map (·.1.2)

end QueryResult

end EntityQuery
