import EntityQuery.Projection
import EntityQuery.Proofs.Model
import EntityQuery.Proofs.Scoped
import EntityQuery.Result.Reading

/-!
# Reading by layout is loading by mapping

A row is read by position: the reader walks over the columns and counts. An
entity is mapped by name: its identifier, its properties and the fields of
its components each have a column. `Entity.load` says what an entity is in
terms of the mapping alone, and `readEntity?_eq_load` shows that the reader
gets just that, wherever the columns that were selected for the entity stand
in the row. No position drifts, whatever the kinds of the properties.
-/

namespace EntityQuery

open List Except ColumnMapping Row

variable {cell : Cell} {property : Property} {columns : List Sql.ColumnRef}
  {found : Option (String × ColumnShape)} {layout : EntityLayout}

/-! ## Entities by their mapping -/

/-- The fields of a component as a value; it is null if they all are. -/
def Outcome.ofFields (component : String) (fields : List (String × Value)) : ResultValue :=
  if fields.all (·.2.isNull) then .scalar .null else .component component fields

/-- The entity with an identifier, as far as that is known. -/
def Outcome.ofKey (entity : String) (id : Value) : ResultValue :=
  if id.isNull then .scalar .null else .reference entity id

section

variable (model : Metamodel) (read : String → SemanticType → Option Value)

/-- A field of a component with its name, by the column it is mapped to. -/
def ColumnMapping.load (field : ColumnMapping) : Option (String × Value) :=
  (read field.column field.type).map (field.name, ·)

/-- A property with its name, by the columns it is mapped to. A collection has
none and is not loaded with its owner. -/
def Property.load (property : Property) : Option (Option (String × ResultValue)) :=
  match property.kind with
  | .basic column type => do
    return some (property.name, .scalar (← read column type))
  | .component component fields => do
    let values ← fields.mapM (ColumnMapping.load read)
    return some (property.name, .ofFields component (Keyed.ofList values))
  | .association (.manyToOne target column) => do
    let entity ← model.entity? target
    return some (property.name, .ofKey target (← read column entity.identifier.type))
  | .association _ => return none

/-- An entity by the columns it is mapped to; it is not there if its identifier
is null. -/
def Entity.load (entity : Entity) : Option (Option Instance) := do
  let key ← read entity.identifier.column entity.identifier.type
  if key.isNull then return none
  else
    let properties ← entity.properties.mapM (Property.load model read)
    return some (.mk entity.name key (Keyed.ofList (properties.filterMap id)) [])

end

/-! ## Rows by position -/

namespace Row

/-- The cells stand in the row one after the other, from a position on. -/
def Shows (row : Row) (first : Nat) (cells : List Cell) : Prop :=
  ∀ ⦃offset cell⦄, cells[offset]? = some cell → row.cell? (first + offset) = some cell

variable {row : Row} {first : Nat}

theorem Shows.head {rest : List Cell} (h : row.Shows first (cell :: rest)) :
    row.cell? first = some cell :=
  @h 0 cell rfl

theorem Shows.tail {rest : List Cell} (h : row.Shows first (cell :: rest)) :
    row.Shows (first + 1) rest := by
  intro offset found hfound
  rw [Nat.add_assoc, Nat.add_comm 1]
  exact h hfound

theorem Shows.left {before after : List Cell} (h : row.Shows first (before ++ after)) :
    row.Shows first before := by
  intro offset cell hcell
  apply h
  rw [List.getElem?_append_left (List.getElem?_eq_some_iff.mp hcell).1]
  exact hcell

theorem Shows.right {before after : List Cell} (h : row.Shows first (before ++ after)) :
    row.Shows (first + before.length) after := by
  intro offset cell hcell
  rw [Nat.add_assoc]
  apply h
  rw [List.getElem?_append_right (Nat.le_add_right ..), Nat.add_sub_cancel_left]
  exact hcell

/-- A cell is read the same wherever it stands. -/
theorem read_toOption (type : SemanticType) (h : row.cell? first = some cell) :
    (row.read first type).toOption = (cell.read type).toOption := by
  simp only [read, h]
  cases cell.read type with
  | ok value => rfl
  | error fault => cases fault <;> rfl

/-- The value that a table gives for a column, where `cell` holds the cells of
the columns by their names. -/
abbrev reader (cell : String → Cell) (column : String) (type : SemanticType) : Option Value :=
  ((cell column).read type).toOption

variable {cell : String → Cell}

def readField (row : Row) (first : Nat) (field : (String × SemanticType) × Nat) :
    Except ExecutionFault (String × Value) := do
  return (field.1.1, ← row.read (first + field.2) field.1.2)

theorem mapM_readField : ∀ (fields : List ColumnMapping) (start : Nat),
    row.Shows (first + start) (fields.map fun field => cell field.column) →
    (((fields.map fun field => (field.name, field.type)).zipIdx start).mapM
        (row.readField first)).toOption
      = fields.mapM (load (reader cell))
  | [], _, _ => rfl
  | field :: rest, start, h => by
    have hrest := mapM_readField rest (start + 1) h.tail
    simp only [map_cons, zipIdx_cons, mapM_cons, toOption_bind, readField,
      hrest, read_toOption field.type h.head, load, reader]
    cases (Cell.read field.type (cell field.column)).toOption with
    | none | some value => rfl

theorem readFields_toOption (cell : String → Cell) {fields : List ColumnMapping}
    (h : row.Shows first (fields.map fun field => cell field.column)) :
    (row.readFields first (fields.map fun field => (field.name, field.type))).toOption
      = (fields.mapM (load (reader cell))).map Keyed.ofList := by
  have hfields := mapM_readField fields 0 h
  have heq : row.readFields first (fields.map fun field => (field.name, field.type))
      = ((fields.map fun field => (field.name, field.type)).zipIdx.mapM (row.readField first))
        >>= fun values => pure (Keyed.ofList values) := rfl
  rw [heq, toOption_bind, hfields]
  cases fields.mapM (load (reader cell)) with
  | none | some values => rfl

end Row

/-! ## The columns of an entity -/

namespace Selected

variable {model : Metamodel} {element : Element} {row : Row} {first : Nat}
  {cell : Sql.ColumnRef → Cell}

variable {parts : List (List Sql.ColumnRef × Option (String × ColumnShape))}
  {properties : List Property}

theorem propertyColumns_length (h : propertyColumns model element property = .ok (columns, found)) :
    columns.length = (found.map (·.2.width)).getD 0 := by
  unfold propertyColumns at h
  split at h
  · obtain ⟨rfl, rfl⟩ := Prod.mk.inj (ok.inj h)
    rfl
  · obtain ⟨rfl, rfl⟩ := Prod.mk.inj (ok.inj h)
    simp [ColumnShape.width]
  · obtain ⟨entity, -, h⟩ := bind_eq_ok.mp h
    obtain ⟨rfl, rfl⟩ := Prod.mk.inj (ok.inj h)
    rfl
  · obtain ⟨rfl, rfl⟩ := Prod.mk.inj (ok.inj h)
    rfl

/-- What the reader gets for a property from the columns that were selected for
it. A collection has no columns and is passed over. -/
theorem propertyColumns_load (h : propertyColumns model element property = .ok (columns, found))
    (hshows : row.Shows first (columns.map cell)) :
    (found = none ∧ property.load model (reader (cell ∘ element.column)) = some none)
    ∨ ∃ shape, found = some (property.name, shape)
      ∧ property.load model (reader (cell ∘ element.column))
        = (row.readColumns first shape).toOption.map fun value => some (property.name, value) := by
  obtain ⟨name, kind⟩ := property
  cases kind with
  | basic column type =>
    cases h
    refine .inr ⟨.scalar type, rfl, ?_⟩
    simp only [Property.load, readColumns, toOption_bind, read_toOption type hshows.head,
      reader, Function.comp_apply]
    cases (Cell.read type (cell (element.column column))).toOption <;> rfl
  | component component fields =>
    cases h
    refine .inr ⟨.component component (fields.map fun field => (field.name, field.type)), rfl, ?_⟩
    rw [map_map] at hshows
    have hfields := readFields_toOption (cell ∘ element.column) hshows
    simp only [Property.load, readColumns, toOption_bind, hfields]
    cases fields.mapM (ColumnMapping.load (reader (cell ∘ element.column))) with
    | none => rfl
    | some values => simp [Outcome.ofFields, pure, Except.pure, Except.toOption]
  | association association =>
    cases association with
    | manyToOne target column =>
      obtain ⟨entity, htarget, h⟩ := bind_eq_ok.mp h
      cases h
      refine .inr ⟨.reference target entity.identifier.type, rfl, ?_⟩
      simp only [Property.load, Metamodel.entity_eq_ok_iff.mp htarget, readColumns,
        toOption_bind, read_toOption entity.identifier.type hshows.head, reader,
        Function.comp_apply, Option.bind_eq_bind, Option.bind_some]
      cases (Cell.read entity.identifier.type (cell (element.column column))).toOption with
      | none => rfl
      | some key => simp [Outcome.ofKey, pure, Except.pure, Except.toOption]
    | oneToMany target keyColumn | manyToMany target table keyColumn elementColumn =>
      cases h
      exact .inl ⟨rfl, rfl⟩

/-- Over all properties: the reader and the columns stay in step. -/
theorem readProperties_load
    (h : List.Forall₂ (fun property part => propertyColumns model element property = .ok part)
      properties parts) :
    ∀ first : Nat, row.Shows first ((parts.flatMap (·.1)).map cell) →
      (row.readProperties first (parts.filterMap (·.2))).toOption
        = (properties.mapM (Property.load model (reader (cell ∘ element.column)))).map
          (·.filterMap id) := by
  induction h with
  | nil => exact fun _ _ => rfl
  | @cons property part properties parts hproperty hrest ih =>
    intro first hshows
    obtain ⟨columns, found⟩ := part
    have hlength := propertyColumns_length hproperty
    rw [flatMap_cons, map_append] at hshows
    have hafter := hshows.right
    rw [length_map] at hafter
    rcases propertyColumns_load hproperty hshows.left with ⟨rfl, hload⟩ | ⟨shape, rfl, hload⟩
    · have hrest := ih first (by simpa [hlength] using hafter)
      rw [mapM_cons, hload]
      simp only [filterMap_cons, hrest]
      cases properties.mapM (Property.load model (reader (cell ∘ element.column))) <;> rfl
    · have hrest := ih (first + shape.width) (by simpa [hlength] using hafter)
      rw [mapM_cons, hload]
      simp only [filterMap_cons, readProperties, toOption_bind, hrest]
      cases (row.readColumns first shape).toOption with
      | none => rfl
      | some value =>
        cases properties.mapM (Property.load model (reader (cell ∘ element.column))) <;>
          rfl

theorem sum_width
    (h : List.Forall₂ (fun property part => propertyColumns model element property = .ok part)
      properties parts) :
    ((parts.filterMap (·.2)).map (·.2.width)).foldr (· + ·) 1
      = (parts.flatMap (·.1)).length + 1 := by
  induction h with
  | nil => rfl
  | @cons property part properties parts hproperty hrest ih =>
    obtain ⟨columns, found⟩ := part
    have hlength := propertyColumns_length hproperty
    rw [flatMap_cons, length_append, Nat.add_assoc, ← ih, hlength]
    cases found <;> simp

/-- The columns of an entity are its identifier's and those of its properties. -/
theorem entityColumns_eq_ok (h : entityColumns model element = .ok (columns, layout)) :
    ∃ parts, List.Forall₂ (fun property part => propertyColumns model element property = .ok part)
        element.entity.properties parts
      ∧ columns = element.identifier :: parts.flatMap (·.1)
      ∧ layout = ⟨element.entity.name, element.entity.identifier.type, parts.filterMap (·.2)⟩ := by
  obtain ⟨parts, hparts, h⟩ := bind_eq_ok.mp h
  obtain ⟨rfl, rfl⟩ := Prod.mk.inj (ok.inj h)
  exact ⟨parts, mapM_eq_ok_iff.mp hparts, rfl, rfl⟩

theorem propertyColumns_own (h : propertyColumns model element property = .ok (columns, found)) :
    ∀ ref ∈ columns, ∃ column, ref = element.column column := by
  unfold propertyColumns at h
  split at h
  · obtain ⟨rfl, -⟩ := Prod.mk.inj (ok.inj h)
    exact forall_mem_singleton.mpr ⟨_, rfl⟩
  · obtain ⟨rfl, -⟩ := Prod.mk.inj (ok.inj h)
    exact forall_mem_map.mpr fun field _ => ⟨_, rfl⟩
  · obtain ⟨target, -, h⟩ := bind_eq_ok.mp h
    obtain ⟨rfl, -⟩ := Prod.mk.inj (ok.inj h)
    exact forall_mem_singleton.mpr ⟨_, rfl⟩
  · obtain ⟨rfl, -⟩ := Prod.mk.inj (ok.inj h)
    exact forall_mem_nil _

/-- The columns of an entity are columns of its table. -/
theorem entityColumns_own (h : entityColumns model element = .ok (columns, layout)) :
    ∀ ref ∈ columns, ∃ column, ref = element.column column := by
  obtain ⟨parts, hparts, rfl, rfl⟩ := entityColumns_eq_ok h
  refine forall_mem_cons.mpr ⟨⟨_, rfl⟩, fun ref href => ?_⟩
  obtain ⟨part, hpart, hmem⟩ := mem_flatMap.mp href
  obtain ⟨property, -, hproperty⟩ := exists_left_of_forall₂ hparts hpart
  exact propertyColumns_own hproperty ref hmem

theorem entityColumns_length (h : entityColumns model element = .ok (columns, layout)) :
    columns.length = layout.width := by
  obtain ⟨parts, hparts, rfl, rfl⟩ := entityColumns_eq_ok h
  rw [length_cons, ← sum_width hparts, EntityLayout.width]

/-- Reading an entity from the columns that were selected for it is loading it
by its mapping. -/
theorem readEntity?_eq_load (h : entityColumns model element = .ok (columns, layout))
    (hshows : row.Shows first (columns.map cell)) :
    (row.readEntity? first layout).toOption
      = element.entity.load model (reader (cell ∘ element.column)) := by
  obtain ⟨parts, hparts, rfl, rfl⟩ := entityColumns_eq_ok h
  have hproperties := readProperties_load hparts _ hshows.tail
  simp only [readEntity?, toOption_bind, read_toOption _ hshows.head, Entity.load]
  have hkey : reader (cell ∘ element.column) element.entity.identifier.column
      element.entity.identifier.type
      = ((cell element.identifier).read element.entity.identifier.type).toOption := rfl
  rw [hkey]
  cases ((cell element.identifier).read element.entity.identifier.type).toOption with
  | none => rfl
  | some key =>
    simp only [Option.bind_some, Option.bind_eq_bind]
    split
    · rfl
    · rw [toOption_bind, hproperties]
      cases element.entity.properties.mapM
        (Property.load model (reader (cell ∘ element.column))) <;> rfl

end Selected

end EntityQuery
