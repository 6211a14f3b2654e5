import EntityQuery.Model.Metamodel
import EntityQuery.Proofs.Keyed

/-!
# What is known of the entities of a model

A model finds its entities under their own names (`Metamodel.Named`). A name that
it does not know may still mean an entity, by its last segment. In a model that
is accepted this never happens to the target of an association
(`Metamodel.Exact`).
-/

namespace EntityQuery

open List Option Keyed

variable {property : Property} {target : String}

theorem Entity.mem_of_property {entity : Entity} {name : String}
    (h : entity.property name = .ok property) : property ∈ entity.properties := by
  unfold Entity.property at h
  split at h
  · rename_i hfound
    obtain rfl := Except.ok.inj h
    exact mem_of_find?_eq_some hfound
  · cases h

theorem Entity.name_of_property {entity : Entity} {name : String}
    (h : entity.property name = .ok property) : property.name = name := by
  unfold Entity.property at h
  split at h
  · rename_i hfound
    obtain rfl := Except.ok.inj h
    simpa using find?_some hfound
  · cases h

namespace Metamodel

variable {model : Metamodel} {entity : Entity} {name : String}

theorem entity_eq_ok_iff : model.entity name = .ok entity ↔ model.entity? name = some entity := by
  unfold Metamodel.entity
  cases model.entity? name <;> simp

theorem exists_lookup (h : model.entity name = .ok entity) :
    ∃ key, model.entries.lookup key = some entity := by
  rcases or_eq_some_iff.mp (entity_eq_ok_iff.mp h) with hname | ⟨-, hname⟩ <;>
    exact ⟨_, hname⟩

theorem mem_entities (h : model.entity name = .ok entity) : entity ∈ model.entities := by
  obtain ⟨key, hkey⟩ := exists_lookup h
  exact mem_map_of_mem (lookup_mem hkey)

/-- Each entity is found under its own name. -/
def Named (model : Metamodel) : Prop :=
  ∀ entry ∈ model.entries, entry.2.name = entry.1

theorem ofEntities_induction {P : Metamodel → Prop} (hempty : P {})
    (hadd : ∀ model entity, P model → P (model.add entity)) (entities : List Entity) :
    P (ofEntities entities) :=
  foldlRecOn entities add hempty fun model h entity _ => hadd model entity h

theorem named_ofEntities (entities : List Entity) : (ofEntities entities).Named := by
  refine ofEntities_induction (forall_mem_nil _) (fun model entity h entry hentry => ?_) entities
  rcases mem_insert hentry with rfl | hold
  · rfl
  · exact h entry hold

/-- Associations name the entities they lead to by their own names. -/
def Exact (model : Metamodel) : Prop :=
  ∀ entity ∈ model.entities, ∀ property ∈ entity.properties, ∀ association target,
    property.kind = .association association → model.entity association.target = .ok target →
      target.name = association.target

theorem mem_names_of_propertyDefect? {seen : List String}
    (h : model.propertyDefect? seen property = none)
    (htarget : property.kind.target? = some target) : target ∈ model.names := by
  unfold propertyDefect? at h
  split at h
  · cases h
  · split at h
    · cases h
    · rw [htarget] at h
      simp only at h
      split at h
      · rename_i hknown
        exact contains_iff_mem.mp hknown
      · cases h

theorem mem_names_of_propertiesDefect? {properties : List Property} (hmem : property ∈ properties)
    (htarget : property.kind.target? = some target) {seen : List String}
    (h : model.propertiesDefect? seen properties = none) : target ∈ model.names := by
  induction properties generalizing seen with
  | nil => cases hmem
  | cons first rest ih =>
    rw [propertiesDefect?, or_eq_none_iff] at h
    rcases mem_cons.mp hmem with rfl | hrest
    · exact mem_names_of_propertyDefect? h.1 htarget
    · exact ih hrest h.2

theorem lookup_of_mem_names (h : name ∈ model.names) :
    ∃ found, model.entries.lookup name = some found := by
  obtain ⟨entry, hentry, rfl⟩ := mem_map.mp h
  have hsome : (model.entries.lookup entry.1).isSome := by
    rw [lookup_isSome_iff]
    exact ⟨entry, hentry, beq_self_eq_true _⟩
  exact isSome_iff_exists.mp hsome

theorem Named.name_eq (hnamed : model.Named) (hmem : name ∈ model.names)
    (h : model.entity name = .ok entity) : entity.name = name := by
  obtain ⟨found, hfound⟩ := lookup_of_mem_names hmem
  rw [Metamodel.entity, entity?, hfound] at h
  obtain rfl := Except.ok.inj h
  exact hnamed _ (lookup_mem hfound)

theorem mem_names_of_validate (h : model.validate = .ok ()) (hentity : entity ∈ model.entities)
    (hproperty : property ∈ entity.properties) (htarget : property.kind.target? = some target) :
    target ∈ model.names := by
  have hfaults : model.entities.findSome? model.entityFault? = none := by
    unfold validate at h
    split at h
    · cases h
    · assumption
  have hnone := findSome?_eq_none_iff.mp hfaults entity hentity
  exact mem_names_of_propertiesDefect? hproperty htarget (map_eq_none_iff.mp hnone)

theorem exact_of_validate (hnamed : model.Named) (h : model.validate = .ok ()) : model.Exact := by
  intro entity hentity property hproperty association target hkind htarget
  refine hnamed.name_eq (mem_names_of_validate h hentity hproperty ?_) htarget
  rw [hkind]
  rfl

end Metamodel

end EntityQuery
