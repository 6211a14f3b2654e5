import EntityQuery.Error
import EntityQuery.Keyed
import EntityQuery.Model.Entity

/-!
# The mapping model

All mapped entities, by name. A model can be put together from any entities; `Metamodel.validate`
checks that its associations lead to entities of the model and that no name is used twice, and
reports the first defect in the order of the entities' names and of their properties.
-/

namespace EntityQuery

/-- The mapped entities, sorted by name. -/
structure Metamodel where
  entries : List (String × Entity) := []
  deriving Repr, DecidableEq

namespace Metamodel

/-- The model with an entity; it takes the place of one with the same name. -/
def add (model : Metamodel) (entity : Entity) : Metamodel :=
  ⟨Keyed.insert entity.name entity model.entries⟩

def ofEntities (entities : List Entity) : Metamodel :=
  entities.foldl add {}

def entities (model : Metamodel) : List Entity :=
  model.entries.map (·.2)

def names (model : Metamodel) : List String :=
  model.entries.map (·.1)

/-- The entity that a name means: the one with this name, or else the one whose name is its last
segment. -/
def entity? (model : Metamodel) (name : String) : Option Entity :=
  (model.entries.lookup name).or (model.entries.lookup (simpleName name))

def entity (model : Metamodel) (name : String) : Except MappingFault Entity :=
  match model.entity? name with
  | some entity => .ok entity
  | none => .error (.unknownEntity name)

def propertyDefect? (model : Metamodel) (seen : List String) (property : Property) :
    Option MappingDefect :=
  if seen.contains property.name then some (.duplicateProperty property.name)
  else
    match property.kind with
    | .component _ [] => some (.emptyComponent property.name)
    | kind =>
      match kind.target? with
      | some target =>
        if model.names.contains target then none
        else some (.unknownTarget property.name target)
      | none => none

def propertiesDefect? (model : Metamodel) (seen : List String) : List Property → Option MappingDefect
  | [] => none
  | property :: rest =>
    (model.propertyDefect? seen property).or (model.propertiesDefect? (property.name :: seen) rest)

def entityFault? (model : Metamodel) (entity : Entity) : Option MappingFault :=
  (model.propertiesDefect? [entity.identifier.name] entity.properties).map (.defect entity.name)

/-- Accepts a model whose associations lead to its entities, whose components have fields, and whose
names are all different. -/
def validate (model : Metamodel) : Except MappingFault Unit :=
  match model.entities.findSome? model.entityFault? with
  | some fault => .error fault
  | none => .ok ()

end Metamodel

def Entity.property (entity : Entity) (name : String) : Except MappingFault Property :=
  match entity.property? name with
  | some property => .ok property
  | none => .error (.unknownProperty entity.name name)

end EntityQuery
