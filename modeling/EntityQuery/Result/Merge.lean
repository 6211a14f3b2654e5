import EntityQuery.Result.Basic

/-!
# Merging rows

Where a collection is fetched, several rows make up one result. Rows belong together when they have
the same key, a text made of what identifies their values; the first of them keeps its place, and what
later ones bring is merged into it: elements of collections that are not there yet, told apart by
their identifiers.
-/

namespace EntityQuery

/-! ## Keys -/

/-- A text in quotes, with a backslash before each quote and each backslash in it. -/
def quoted (text : String) : String :=
  let escaped := text.toList.flatMap fun c => if c = '"' ∨ c = '\\' then ['\\', c] else [c]
  "\"" ++ String.ofList escaped ++ "\""

/-- A value in a key: its kind, and its text in parentheses. -/
def Value.keyText : Value → String
  | .null => "Null"
  | .bool value => "Bool(" ++ toString value ++ ")"
  | .int value => "Int(" ++ toString value ++ ")"
  | .double value => "Float(" ++ DecimalStyle.sql.text value ++ ")"
  | .string value => "String(" ++ quoted value ++ ")"
  | .timestamp value => "Timestamp(" ++ value.jsonText ++ ")"

def componentKeyText (component : String) (fields : List String) : String :=
  "Component \x7b " ++ "component: " ++ quoted component
    ++ ", fields: \x7b" ++ ", ".intercalate fields ++ "\x7d \x7d"

/-- The part of a key that a value makes: entity and identifier, or else the value itself. -/
def ResultValue.keyText : ResultValue → String
  | .scalar value => "Scalar(" ++ value.keyText ++ ")"
  | .component component fields =>
    componentKeyText component
      (fields.map fun (field, value) => quoted field ++ ": " ++ value.keyText)
  | .reference owner id => owner ++ "#" ++ id.keyText
  | .entity found => found.entity ++ "#" ++ found.id.keyText

def rowKey (values : List ResultValue) : String :=
  "|".intercalate (values.map ResultValue.keyText)

/-! ## Merging -/

def changeFirst {α : Type} (test : α → Bool) (change : α → α) : List α → List α
  | [] => []
  | a :: rest => if test a then change a :: rest else a :: changeFirst test change rest

mutual
/-- An instance with what another row brings for the same entity. -/
def Instance.merge (owner : Instance) : Instance → Instance
  | .mk _ _ properties collections =>
    .mk owner.entity owner.id (Instance.mergeProperties owner.properties properties)
      (Instance.mergeCollections owner.collections collections)

def Instance.mergeCollections (current : List (String × List Instance)) :
    List (String × List Instance) → List (String × List Instance)
  | [] => current
  | (name, elements) :: rest =>
    let merged := Instance.mergeElements ((current.lookup name).getD []) elements
    Instance.mergeCollections (Keyed.insert name merged current) rest

def Instance.mergeElements (current : List Instance) : List Instance → List Instance
  | [] => current
  | element :: rest =>
    let isSame := fun (other : Instance) => other.id.same element.id
    let merged :=
      if current.any isSame then changeFirst isSame (fun other => other.merge element) current
      else current ++ [element]
    Instance.mergeElements merged rest

/-- Properties that are loaded entities take in what another row brings for them; all others stay. -/
def Instance.mergeProperties (current : List (String × ResultValue)) :
    List (String × ResultValue) → List (String × ResultValue)
  | [] => current
  | (name, .entity found) :: rest =>
    let merged :=
      match current.lookup name with
      | some (.entity old) =>
        if old.id.same found.id then Keyed.insert name (.entity (old.merge found)) current
        else current
      | _ => current
    Instance.mergeProperties merged rest
  | _ :: rest => Instance.mergeProperties current rest
end

def ResultValue.merge : ResultValue → ResultValue → ResultValue
  | .entity owner, .entity found => .entity (owner.merge found)
  | value, _ => value

/-- The rows merged so far: the key of each result, and its values. -/
abbrev MergedRows : Type :=
  List (String × List ResultValue)

def MergedRows.add (merged : MergedRows) (values : List ResultValue) : MergedRows :=
  let isSame := fun (entry : String × List ResultValue) => entry.1 == rowKey values
  if merged.any isSame then
    changeFirst isSame (fun (key, current) => (key, current.zipWith ResultValue.merge values)) merged
  else merged ++ [(rowKey values, values)]

/-- The values of each result, in the order of their first rows. -/
def mergeRows (rows : List (List ResultValue)) : List (List ResultValue) :=
  (rows.foldl MergedRows.add []).map (·.2)

end EntityQuery
