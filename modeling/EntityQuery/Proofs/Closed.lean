import EntityQuery.Proofs.Model

/-!
# Closed models

A model that is accepted is closed: the entities of its tables and the targets of
their associations are all found in it (`Metamodel.Closed`). The type of a column is
not looked at when a model is checked, so it may name an entity that is not there.
-/

namespace EntityQuery

open Keyed

/-- The columns of the property, each with the name that a path to it ends in. -/
def Property.columns (property : Property) : List (String × SemanticType) :=
  match property.kind with
  | .basic _ type => [(property.name, type)]
  | .component _ fields => fields.map fun field => (field.name, field.type)
  | .association _ => []

def Entity.columns (entity : Entity) : List (String × SemanticType) :=
  (entity.identifier.name, entity.identifier.type) :: entity.properties.flatMap Property.columns

theorem Entity.property_ne_unknownEntity (entity : Entity) (name missing : String) :
    entity.property name ≠ .error (.unknownEntity missing) := by
  intro h
  unfold Entity.property at h
  split at h <;> cases h

namespace Metamodel

variable {model : Metamodel}

def columns (model : Metamodel) : List (String × SemanticType) :=
  model.entities.flatMap Entity.columns

theorem identifier_mem_columns {entity : Entity} (h : entity ∈ model.entities) :
    (entity.identifier.name, entity.identifier.type) ∈ model.columns :=
  List.mem_flatMap.mpr ⟨entity, h, .head _⟩

theorem mem_columns {entity : Entity} (h : entity ∈ model.entities) {property : Property}
    (hproperty : property ∈ entity.properties) {column : String × SemanticType}
    (hcolumn : column ∈ property.columns) : column ∈ model.columns :=
  List.mem_flatMap.mpr ⟨entity, h, .tail _ (List.mem_flatMap.mpr ⟨property, hproperty, hcolumn⟩)⟩

/-- Each entity is found under its own name, and the target of each association is
found under the name that the association gives. -/
structure Closed (model : Metamodel) : Prop where
  own : ∀ entity ∈ model.entities, model.entity entity.name = .ok entity
  targets : ∀ entity ∈ model.entities, ∀ property ∈ entity.properties, ∀ association,
    property.kind = .association association →
      ∃ target, model.entity association.target = .ok target ∧ target.name = association.target

theorem entity_eq_error {name missing : String}
    (h : model.entity name = .error (.unknownEntity missing)) :
    name = missing ∧ model.entity? name = none := by
  unfold Metamodel.entity at h
  split at h
  · cases h
  · rename_i hnone
    exact ⟨MappingFault.unknownEntity.inj (Except.error.inj h), hnone⟩

end Metamodel

end EntityQuery
