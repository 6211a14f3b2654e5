import EntityQuery.Model.Metamodel
import EntityQuery.Toml.Document
import EntityQuery.Toml.Record

/-!
# Mapping files

A mapping model is kept in a TOML file with one table `[[entity]]` for each entity. What the file says
is first read as it stands, into the records below. It becomes a model in a second step, which gives
names to columns and tables that have none, looks up the types, and settles which kind of property is
meant.
-/

namespace EntityQuery

namespace MappingFile

/-- A column as a mapping file describes it: the identifier, or a field of a component. -/
structure ColumnRecord where
  name : String
  column : Option String
  type : String
  deriving Repr, DecidableEq

structure PropertyRecord where
  name : String
  column : Option String
  type : Option String
  component : Option String
  fields : Option (List ColumnRecord)
  manyToOne : Option String
  oneToMany : Option String
  manyToMany : Option String
  table : Option String
  keyColumn : Option String
  elementColumn : Option String
  deriving Repr, DecidableEq

structure FilterRecord where
  name : String
  condition : String
  parameters : List (String × String)
  deriving Repr, DecidableEq

structure EntityRecord where
  name : String
  table : Option String
  identifier : ColumnRecord
  properties : List PropertyRecord
  filters : List FilterRecord
  deriving Repr, DecidableEq

/-! ## From TOML -/

open Toml

def ColumnRecord.ofToml? (toml : Toml) : Option ColumnRecord := do
  let record ← toml.record?
  return {
    name := ← record.required? ⟨0, "name"⟩ string?
    column := ← record.optional? ⟨1, "column"⟩ string?
    type := ← record.required? ⟨2, "type"⟩ string? }

def PropertyRecord.ofToml? (toml : Toml) : Option PropertyRecord := do
  let record ← toml.record?
  return {
    name := ← record.required? ⟨0, "name"⟩ string?
    column := ← record.optional? ⟨1, "column"⟩ string?
    type := ← record.optional? ⟨2, "type"⟩ string?
    component := ← record.optional? ⟨3, "component"⟩ string?
    fields := ← record.optional? ⟨4, "fields"⟩ (list? ColumnRecord.ofToml?)
    manyToOne := ← record.optional? ⟨5, "many_to_one"⟩ string?
    oneToMany := ← record.optional? ⟨6, "one_to_many"⟩ string?
    manyToMany := ← record.optional? ⟨7, "many_to_many"⟩ string?
    table := ← record.optional? ⟨8, "table"⟩ string?
    keyColumn := ← record.optional? ⟨9, "key_column"⟩ string?
    elementColumn := ← record.optional? ⟨10, "element_column"⟩ string? }

def FilterRecord.ofToml? (toml : Toml) : Option FilterRecord := do
  let record ← toml.record?
  return {
    name := ← record.required? ⟨0, "name"⟩ string?
    condition := ← record.required? ⟨1, "condition"⟩ string?
    parameters := ← record.withDefault? ⟨2, "parameters"⟩ [] (entries? string?) }

def EntityRecord.ofToml? (toml : Toml) : Option EntityRecord := do
  let record ← toml.record?
  return {
    name := ← record.required? ⟨0, "name"⟩ string?
    table := ← record.optional? ⟨1, "table"⟩ string?
    identifier := ← record.required? ⟨2, "id"⟩ ColumnRecord.ofToml?
    properties := ← record.withDefault? ⟨3, "property"⟩ [] (list? PropertyRecord.ofToml?)
    filters := ← record.withDefault? ⟨4, "filter"⟩ [] (list? FilterRecord.ofToml?) }

def records? (text : String) : Option (List EntityRecord) := do
  let document ← Toml.read? text
  (Record.named document).withDefault? ⟨0, "entity"⟩ [] (list? EntityRecord.ofToml?)

/-! ## To the model -/

def semanticType (name : String) : Except MappingDefect SemanticType :=
  match SemanticType.ofName? name with
  | some type => .ok type
  | none => .error (.unknownType name)

/-- The value of a key that a property cannot do without. -/
def needed (property key : String) : Option String → Except MappingDefect String
  | some value => .ok value
  | none => .error (.missingKey property key)

/-- The column has the name of what it maps, unless the file gives another. -/
def ColumnRecord.mapping (record : ColumnRecord) : Except MappingDefect ColumnMapping := do
  return ⟨record.name, record.column.getD record.name, ← semanticType record.type⟩

/-- The kind of a property. A target makes it an association, before a component's name is looked at;
a property with neither is a column. -/
def PropertyRecord.kind (record : PropertyRecord) : Except MappingDefect PropertyKind := do
  let column := record.column.getD record.name
  let need := needed record.name
  match record.manyToOne, record.oneToMany, record.manyToMany, record.component with
  | some target, _, _, _ => return .association (.manyToOne target column)
  | none, some target, _, _ =>
    return .association (.oneToMany target (← need "key_column" record.keyColumn))
  | none, none, some target, _ =>
    let table ← need "table" record.table
    let keyColumn ← need "key_column" record.keyColumn
    let elementColumn ← need "element_column" record.elementColumn
    return .association (.manyToMany target table keyColumn elementColumn)
  | none, none, none, some component =>
    return .component component (← (record.fields.getD []).mapM ColumnRecord.mapping)
  | none, none, none, none =>
    let type ← need "type" record.type
    return .basic column (← semanticType type)

def PropertyRecord.mapping (record : PropertyRecord) : Except MappingDefect Property := do
  return ⟨record.name, ← record.kind⟩

def FilterRecord.mapping (record : FilterRecord) : Except MappingDefect Filter := do
  let parameters ← record.parameters.mapM fun (name, type) => do
    return (name, ← semanticType type)
  return ⟨record.name, record.condition, parameters⟩

/-- The table has the name of the entity in lower case, unless the file gives another. -/
def EntityRecord.mapping (record : EntityRecord) : Except MappingDefect Entity := do
  return {
    name := record.name
    table := record.table.getD (Text.lowercase record.name)
    identifier := ← record.identifier.mapping
    properties := ← record.properties.mapM PropertyRecord.mapping
    filters := ← record.filters.mapM FilterRecord.mapping }

def EntityRecord.entity (record : EntityRecord) : Except MappingFault Entity :=
  record.mapping.mapError (.defect record.name)

end MappingFile

def Metamodel.ofFile (text : String) : Except Error Metamodel :=
  match MappingFile.records? text with
  | none => .error (.config .mappingFile)
  | some records =>
    Except.mapError Error.mapping do
      let model := Metamodel.ofEntities (← records.mapM MappingFile.EntityRecord.entity)
      model.validate
      return model

end EntityQuery
