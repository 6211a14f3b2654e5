import EntityQuery.Proofs.Result.Attaching
import EntityQuery.Proofs.Sample

/-!
# Values of a type

A value that is sent for a type and comes back in a cell is read as the value it
was (`Row.read_sent`). A cell may also hold something else that a type can be
read from. What is read then can be sent for the type again, with one exception:
a text in a column of whole numbers is handed on as a text
(`Cell.read_accepts_iff`). This holds for every value in a result, since fetched
entities are attached to their owners as they were read (`Row.attachKeeps_holds`).
-/

namespace EntityQuery

open List Keyed Except

variable {type : SemanticType} {value : Value} {row : Row} {first column : Nat}

/-! ## One cell -/

/-- The value is null, or of the kind that the type is named after. -/
def SemanticType.names : SemanticType → Value → Bool
  | _, .null | .boolean, .bool _ | .integer, .int _ | .double, .double _ | .string, .string _
  | .timestamp, .timestamp _ => true
  | _, _ => false

def SemanticType.isBasic : SemanticType → Bool
  | .entity _ | .component _ => false
  | _ => true

namespace Cell

theorem read_timestamp (cell : Cell) : cell.read .timestamp = cell.timestamp := by
  cases cell <;> rfl

theorem read_ofValue (h : type.names value) : (ofValue value type).read type = .ok value := by
  cases value with
  | null => rfl
  | timestamp t =>
    cases type with
    | timestamp =>
      rw [read_timestamp]
      unfold timestamp ofValue
      simp only [Timestamp.read?_text]
    | _ => cases h
  | _ => cases type <;> first | rfl | cases h

theorem timestamp_accepts {cell : Cell} (h : cell.timestamp = .ok value) :
    SemanticType.timestamp.accepts value = true := by
  unfold timestamp at h
  split at h
  · split at h <;> cases h
    rfl
  · split at h <;> cases h
    rfl
  · cases h
    rfl
  · cases h

theorem read_accepts_iff {cell : Cell} (htype : type.isBasic)
    (h : cell.read type = .ok value) :
    type.accepts value = true ↔ ¬(type = .integer ∧ ∃ written, cell = .text written) := by
  cases type with
  | timestamp =>
    rw [read_timestamp] at h
    simp [timestamp_accepts h]
  | entity name | component name => cases htype
  | _ => cases cell <;> cases h <;> simp [SemanticType.accepts]

end Cell

/-- A cell that holds what was sent for a value is read as the value; timestamps
are found again from their text. -/
theorem Row.read_sent {statement : BoundStatement} {number : Nat}
    (hvalue : statement.values[number]? = some (value, type)) (htype : type.names value = true)
    (hcell : row.cell? column = statement.sent.arguments[number]?) :
    row.read column type = .ok value ∧ ∀ t : Timestamp, Timestamp.read? t.text = some t := by
  refine ⟨?_, Timestamp.read?_text⟩
  rw [BoundStatement.sent, getElem?_map, hvalue] at hcell
  unfold Row.read
  rw [hcell]
  simp only [Option.map_some, Cell.read_ofValue htype]

/-- A moment of the year 44 before the common era that needs six digits, in the
second of two arguments. -/
theorem Row.read_sent_timestamp :
    let t : Timestamp := ⟨⟨-43, 3, 15, by decide⟩, ⟨11, 59, 60, 250000, by decide⟩⟩
    t.text = "-0043-03-15 11:59:60.000250"
      ∧ Row.read ⟨["at"], [.text t.text]⟩ 0 .timestamp = .ok (.timestamp t) := by
  intro t
  let sent : BoundStatement := ⟨"", [(.int 1, .integer), (.timestamp t, .timestamp)]⟩
  have hvalue : sent.values[1]? = some (.timestamp t, .timestamp) := rfl
  exact ⟨by decide +kernel, (Row.read_sent hvalue rfl rfl).1⟩

/-! ## Whole results -/

/-- The value is what a cell of the row is read as. It can be sent for the type
again, unless the cell is a text and the type is that of whole numbers. -/
def Row.Yields (row : Row) (type : SemanticType) (value : Value) : Prop :=
  ∃ cell ∈ row.cells, cell.read type = .ok value ∧ (type.isBasic = true →
    (type.accepts value = true ↔ ¬(type = .integer ∧ ∃ written, cell = .text written)))

/-- The values of a fixed number of columns are what the row yields for them. -/
def ColumnShape.Holds (row : Row) : ColumnShape → ResultValue → Prop
  | .scalar type, found => ∃ value, found = .scalar value ∧ row.Yields type value
  | .component name fields, found => found = .scalar .null ∨ ∃ entries,
    found = .component name entries
      ∧ ∀ entry ∈ entries, ∃ type, (entry.1, type) ∈ fields ∧ row.Yields type entry.2
  | .reference entity type, found => found = .scalar .null ∨ ∃ id,
    found = .reference entity id ∧ row.Yields type id

/-- All values of an entity, and of those loaded with it, are what the row yields
for the columns of a layout. -/
inductive Instance.Holds (row : Row) (returns : List Return) (fetches : List Fetch) :
    Instance → Prop
  | mk {found : Instance} {layout : EntityLayout}
      (hlayout : (∃ value ∈ returns, value.shape = .entity layout)
        ∨ ∃ fetch ∈ fetches, fetch.layout = layout)
      (hid : row.Yields layout.identifierType found.id)
      (hread : ∀ entry ∈ found.properties, (∀ linked, entry.2 ≠ .entity linked) →
        ∃ shape, (entry.1, shape) ∈ layout.properties ∧ shape.Holds row entry.2)
      (hlinked : ∀ name linked, (name, .entity linked) ∈ found.properties →
        Holds row returns fetches linked)
      (hcollected : ∀ entry ∈ found.collections, ∀ element ∈ entry.2,
        Holds row returns fetches element) :
      Holds row returns fetches found

/-- What a return shows unless it is an entity. -/
def ReturnShape.Holds (row : Row) : ReturnShape → ResultValue → Prop
  | .columns shape, value => shape.Holds row value
  | .entity _, value => value = .scalar .null

namespace Row

variable {returns : List Return} {fetches : List Fetch}

theorem yields_of_read (h : row.read column type = .ok value) : row.Yields type value := by
  unfold Row.read at h
  cases hcell : row.cell? column with
  | none =>
    rw [hcell] at h
    cases h
  | some cell =>
    rw [hcell] at h
    have hread : cell.read type = .ok value := by
      cases hread : cell.read type with
      | ok found =>
        simp only [hread] at h
        rw [ok.inj h]
      | error fault => cases fault <;> simp [hread] at h
    refine ⟨cell, ?_, hread, fun htype => Cell.read_accepts_iff htype hread⟩
    unfold cell? at hcell
    split at hcell
    · exact mem_of_getElem? hcell
    · cases hcell

theorem readFields_hold {fields : List (String × SemanticType)} {entries : List (String × Value)}
    (h : row.readFields first fields = .ok entries) :
    ∀ entry ∈ entries, ∃ type, (entry.1, type) ∈ fields ∧ row.Yields type entry.2 := by
  obtain ⟨values, hvalues, h⟩ := bind_eq_ok.mp h
  obtain rfl := ok.inj h
  intro entry hentry
  obtain ⟨number, hentry⟩ := mem_iff_getElem?.mp (mem_of_mem_ofList entry hentry)
  obtain ⟨field, hfield, hread⟩ := exists_getElem?_of_forall₂ (mapM_eq_ok_iff.mp hvalues) hentry
  obtain ⟨value, hvalue, hread⟩ := bind_eq_ok.mp hread
  obtain rfl := ok.inj hread
  refine ⟨field.1.2, ?_, yields_of_read hvalue⟩
  exact mem_of_getElem? (mem_zipIdx_iff_getElem?.mp (mem_of_getElem? hfield))

theorem readColumns_holds {shape : ColumnShape} {found : ResultValue}
    (h : row.readColumns first shape = .ok found) : shape.Holds row found := by
  cases shape with
  | scalar type =>
    obtain ⟨value, hvalue, h⟩ := bind_eq_ok.mp h
    exact ⟨value, (ok.inj h).symm, yields_of_read hvalue⟩
  | component component fields =>
    obtain ⟨entries, hentries, h⟩ := bind_eq_ok.mp h
    obtain rfl := ok.inj h
    split
    · exact .inl rfl
    · exact .inr ⟨entries, rfl, readFields_hold hentries⟩
  | reference entity type =>
    obtain ⟨id, hid, h⟩ := bind_eq_ok.mp h
    obtain rfl := ok.inj h
    split
    · exact .inl rfl
    · exact .inr ⟨id, rfl, yields_of_read hid⟩

theorem readReturn_holds {returned : Return} {value : ResultValue}
    (h : row.readReturn returned = .ok value) (hvalue : ∀ found, value ≠ .entity found) :
    returned.shape.Holds row value := by
  unfold readReturn at h
  cases hshape : returned.shape with
  | columns shape =>
    rw [hshape] at h
    exact readColumns_holds h
  | entity layout =>
    rw [hshape] at h
    obtain ⟨entry, -, h⟩ := bind_eq_ok.mp h
    cases entry with
    | none => exact (ok.inj h).symm
    | some found => exact absurd (ok.inj h).symm (hvalue found)

theorem own?_holds {owner : FetchOwner} {found : Instance}
    (h : row.own? returns fetches owner = some found) : found.Holds row returns fetches := by
  obtain ⟨first, layout, hlayout, h⟩ := exists_readEntity?_of_own? h
  obtain ⟨id, hid, h⟩ := bind_eq_ok.mp h
  split at h
  · cases h
  · obtain ⟨properties, hproperties, h⟩ := bind_eq_ok.mp h
    obtain rfl := Option.some.inj (ok.inj h)
    have hread := fun entry hentry =>
      exists_readColumns_of_readProperties hproperties entry (mem_of_mem_ofList entry hentry)
    refine .mk hlayout (yields_of_read hid) (fun entry hentry _ => ?_)
      (fun name linked hlinked => ?_) (forall_mem_nil _)
    · obtain ⟨first, shape, hshape, hread⟩ := hread entry hentry
      exact ⟨shape, hshape, readColumns_holds hread⟩
    · obtain ⟨first, shape, -, hread⟩ := hread _ hlinked
      exact absurd rfl (readColumns_ne_entity hread linked)

/-- What is fetched for an entity is attached as it was read. -/
theorem attach_holds {fetch : Fetch} {entry : Option Instance} {owner : Instance}
    (hentry : ∀ found, entry = some found → found.Holds row returns fetches)
    (h : owner.Holds row returns fetches) : (fetch.attach entry owner).Holds row returns fetches := by
  obtain ⟨hlayout, hid, hread, hlinked, hcollected⟩ := h
  by_cases hcollection : fetch.collection = true
  · rw [Fetch.attach_eq_withCollection hcollection]
    refine .mk hlayout hid hread hlinked fun found hfound element helement => ?_
    rcases mem_insert hfound with rfl | hfound
    · rcases mem_append.mp helement with helement | helement
      · cases hold : owner.collections.lookup fetch.property with
        | none => simp [Instance.elements, hold] at helement
        | some elements =>
          rw [Instance.elements, hold] at helement
          exact hcollected _ (lookup_mem hold) element helement
      · exact hentry element (Option.mem_toList.mp helement)
    · exact hcollected found hfound element helement
  · cases entry with
    | none => exact Fetch.attach_none hcollection ▸ .mk hlayout hid hread hlinked hcollected
    | some linked =>
      rw [Fetch.attach_some hcollection]
      refine .mk hlayout hid (fun found hfound hne => ?_) (fun name other hother => ?_) hcollected
      · rcases mem_insert hfound with rfl | hfound
        · exact absurd rfl (hne linked)
        · exact hread found hfound hne
      · rcases mem_insert hother with heq | hother
        · obtain ⟨-, hsame⟩ := Prod.mk.inj heq
          exact Outcome.entity.inj hsame ▸ hentry linked rfl
        · exact hlinked name other hother

theorem attachKeeps_holds :
    row.AttachKeeps (fun _ _ found => found.Holds row returns fetches) returns fetches :=
  ⟨own?_holds, fun _ _ h => h, fun _ _ => attach_holds⟩

/-- Attaching changes entities only. -/
theorem values_of_ne_entity {values : List ResultValue}
    (h : row.values returns fetches = .ok values) :
    List.Forall₂ (fun returned value => (∀ found, value ≠ .entity found) →
      row.readReturn returned = .ok value) returns values := by
  obtain ⟨read, hread, h⟩ := bind_eq_ok.mp h
  obtain ⟨fetched, -, h⟩ := bind_eq_ok.mp h
  obtain rfl := ok.inj h
  refine foldrRecOn (motive := fun loaded : Fetch.Loaded => List.Forall₂ _ returns loaded.values)
    _ _ ?_ fun loaded hloaded entry _ => ?_
  · refine (mapM_eq_ok_iff.mp hread).imp ?_
    exact fun _ _ hvalue _ => hvalue
  obtain ⟨fetch, number⟩ := entry
  show List.Forall₂ _ returns (fetch.attachTo number loaded).values
  unfold Fetch.attachTo
  cases fetch.owner with
  | returned owner =>
    refine forall₂_modify (fun returned value hvalue hne => ?_) owner hloaded
    cases value with
    | entity found => exact absurd rfl (hne _)
    | _ => exact hvalue hne
  | fetched owner => exact hloaded

end Row

/-- The values of every result are what its row yields for the columns of the
plan, whatever was fetched with them. -/
theorem Plan.readRow_yields {plan : Plan} {result : QueryResult}
    (h : plan.readRow row = .ok result) : ∃ values, result = plan.result values
      ∧ (∀ found, .entity found ∈ values → found.Holds row plan.returns plan.fetches)
      ∧ List.Forall₂ (fun returned value => (∀ found, value ≠ .entity found) →
        returned.shape.Holds row value) plan.returns values := by
  obtain ⟨values, h, hresult⟩ := bind_eq_ok.mp h
  have hreads : row.Reads (fun _ _ found => found.Holds row plan.returns plan.fetches)
      plan.returns values := Row.values_reads Row.attachKeeps_holds id h
  refine ⟨values, (ok.inj hresult).symm, fun found hfound => ?_,
    (Row.values_of_ne_entity h).imp fun _ _ hvalue hne => Row.readReturn_holds (hvalue hne) hne⟩
  obtain ⟨number, hfound⟩ := mem_iff_getElem?.mp hfound
  exact hreads.related hfound

/-- A row in which an age is a text. -/
theorem Plan.readRow_yields_text : ∃ values, Sample.agePlan.readRow ⟨["age"], [.text "x"]⟩
      = .ok (Sample.agePlan.result values)
    ∧ List.Forall₂ (fun returned value => (∀ found, value ≠ .entity found) →
      returned.shape.Holds ⟨["age"], [.text "x"]⟩ value) Sample.agePlan.returns values := by
  obtain ⟨values, hresult, -, hvalues⟩ := Plan.readRow_yields
    (show Sample.agePlan.readRow ⟨["age"], [.text "x"]⟩ = .ok _ from rfl)
  exact ⟨values, congrArg ok hresult, hvalues⟩

/-- A text in a column of whole numbers is read, but cannot be sent for one. -/
theorem Row.text_not_accepted : ¬∀ (row : Row) (column : Nat) (type : SemanticType) (value : Value),
    type.isBasic = true → row.read column type = .ok value → type.accepts value = true := by
  intro h
  exact absurd (h ⟨["age"], [.text "x"]⟩ 0 .integer (.string "x") rfl rfl) (by decide)

end EntityQuery
