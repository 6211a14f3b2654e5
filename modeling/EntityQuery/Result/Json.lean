import EntityQuery.Json
import EntityQuery.Result.Basic

/-!
# Results as JSON
-/

namespace EntityQuery

def Value.json : Value → Json
  | .null => .null
  | .bool value => .bool value
  | .int value => .int value
  | .double value => .double value
  | .string value => .string value
  | .timestamp value => .string value.jsonText

mutual
/-- An instance: the entity, the identifier and the properties, and the collections if there are
any. -/
def Instance.json : Instance → Json
  | .mk entity id properties collections =>
    let shown : List (String × Json) :=
      [("entity", .string entity), ("id", id.json),
        ("properties", .object (Instance.propertiesJson properties))]
    .object (shown ++
      if collections.isEmpty then []
      else [("collections", .object (Instance.collectionsJson collections))])

def Instance.valueJson : Outcome Instance → Json
  | .scalar value => value.json
  | .component component fields =>
    .object [("component", .string component),
      ("fields", .object (fields.map fun (name, value) => (name, value.json)))]
  | .reference entity id => .object [("entity", .string entity), ("id", id.json)]
  | .entity found => found.json

def Instance.propertiesJson : List (String × Outcome Instance) → List (String × Json)
  | [] => []
  | (name, value) :: rest => (name, Instance.valueJson value) :: Instance.propertiesJson rest

def Instance.collectionsJson : List (String × List Instance) → List (String × Json)
  | [] => []
  | (name, elements) :: rest =>
    (name, .array (Instance.listJson elements)) :: Instance.collectionsJson rest

def Instance.listJson : List Instance → List Json
  | [] => []
  | element :: rest => element.json :: Instance.listJson rest
end

namespace QueryResult

/-- A result: a single value by itself, several as a list, and those of `select new` as a list or
under their keys. -/
def json : QueryResult → Json
  | .single value => Instance.valueJson value
  | .tuple values => .array (values.map Instance.valueJson)
  | .dynamic .list values => .array (values.map fun (_, value) => Instance.valueJson value)
  | .dynamic _ values =>
    .object (values.zipIdx.map fun ((alias?, value), position) =>
      (key position alias?, Instance.valueJson value))

end QueryResult

end EntityQuery
