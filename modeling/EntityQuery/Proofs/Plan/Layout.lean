import EntityQuery.Plan.Json
import EntityQuery.Proofs.Sample
import EntityQuery.Proofs.Select

/-!
# The layout of a plan and its select list

A plan keeps the layout of the rows, and of the statement only the text. The
two agree (`compile_layout_agrees`): the parts of the layout take up the
columns of the select list one after the other, every entity is read from
just the columns that it is mapped to, all of one table of the from clause,
and the columns have different names.
-/

namespace EntityQuery

open List Sql

/-- The row that a select gives when the cell of every term is known. -/
def Sql.Select.row (select : Select) (cell : Term → Cell) : Row :=
  ⟨select.columns.map (·.label), select.columns.map fun column => cell column.term⟩

/-- Whatever the database answers: reading the layout at a position gives the
entity as the model maps it to the columns of one table of the from clause. -/
def Sql.Select.Loads (select : Select) (model : Metamodel) (layout : EntityLayout)
    (first : Nat) : Prop :=
  ∃ element : Element, select.Mentions element
    ∧ (∃ name, model.entity name = .ok element.entity) ∧ layout.entity = element.entity.name
    ∧ ∀ cell : Term → Cell, ((select.row cell).readEntity? first layout).toOption
      = element.entity.load model (Row.reader fun column => cell (.column (element.column column)))

/-- The layout of a plan agrees with a select list. -/
structure Plan.LayoutAgrees (plan : Plan) (model : Metamodel) (select : Select) : Prop where
  covered : (spans plan.returns plan.fetches).flatMap spanColumns
    = List.range select.columns.length
  returned : ∀ value ∈ plan.returns, ∀ layout, value.shape = .entity layout →
    select.Loads model layout value.first
  fetched : ∀ fetch ∈ plan.fetches, select.Loads model fetch.layout fetch.first
  labels_length : ∀ value ∈ plan.returns, value.labels.length = value.shape.width
  labels_eq : ∀ number value, plan.returns[number]? = some value →
    value.labels = Projection.labels "col" number value.shape.width
  named : select.columns.map (·.label) = plan.returns.flatMap (·.labels)
    ++ Projection.partLabels "fetch" (plan.fetches.map (·.layout.width))
  distinct : (select.columns.map (·.label)).Nodup
  shown : ∀ key ∈ ["return_types", "return_aliases", "column_names"], ∃ members items,
    plan.json = .object members ∧ members.lookup key = some (.array items)
      ∧ items.length = plan.returns.length

namespace Sql.Select

variable {select : Select} {cell : Term → Cell}

theorem row_cell? (position : Nat) :
    (select.row cell).cell? position
      = (select.columns.map fun column => cell column.term)[position]? := by
  unfold Row.cell?
  split
  · rfl
  · rename_i hge
    rw [eq_comm, List.getElem?_eq_none_iff, length_map]
    simpa [row] using hge

theorem row_shows {first : Nat} {refs : List ColumnRef} (h : StandAt select.columns first refs) :
    (select.row cell).Shows first (refs.map fun ref => cell (.column ref)) := by
  obtain ⟨before, after, hterms, rfl⟩ := h
  have hcells : (select.columns.map fun column => cell column.term)
      = before.map cell ++ (refs.map (fun ref => cell (.column ref)) ++ after.map cell) := by
    have hmap := congrArg (List.map cell) hterms
    simpa [Function.comp_def] using hmap
  intro offset found hfound
  rw [row_cell?, hcells, List.getElem?_append_right (by simp), length_map,
    Nat.add_sub_cancel_left, List.getElem?_append_left (List.getElem?_eq_some_iff.mp hfound).1]
  exact hfound

theorem loads_of_placed {model : Metamodel} {elements : List Element} {layout : EntityLayout}
    {first : Nat} (h : layout.Placed model elements select.columns first)
    (hmentions : ∀ element ∈ elements, select.Mentions element)
    (hmapped : ∀ element ∈ elements, ∃ name, model.entity name = .ok element.entity) :
    select.Loads model layout first := by
  obtain ⟨element, helement, refs, hrefs, hstand⟩ := h
  obtain ⟨parts, -, -, hlayout⟩ := Selected.entityColumns_eq_ok hrefs
  refine ⟨element, hmentions element helement, hmapped element helement, by rw [hlayout],
    fun cell => ?_⟩
  exact Selected.readEntity?_eq_load hrefs (row_shows hstand)

end Sql.Select

theorem Projection.partLabels_eq_flatMap {returns : List Return}
    (h : ∀ number value, returns[number]? = some value →
      value.labels = labels "col" number value.shape.width) :
    partLabels "col" (returns.map (·.shape.width)) = returns.flatMap (·.labels) := by
  have hlabels : (returns.zipIdx.flatMap fun p => labels "col" p.2 p.1.shape.width)
      = returns.zipIdx.flatMap fun p => p.1.labels :=
    flatMap_congr fun p hp => (h p.2 p.1 (mem_zipIdx_iff_getElem?.mp hp)).symm
  rw [partLabels, zipIdx_map, flatMap_map]
  refine hlabels.trans ?_
  have hfst : returns.zipIdx.map (·.1) = returns := zipIdx_map_fst ..
  nth_rewrite 2 [← hfst]
  rw [flatMap_map]

namespace Plan

variable {compiler : Compiler} {identifier query : String}
  {substitutions : List (String × String)} {plan : Plan}

/-- For every query that compiles to a plan that selects, the layout agrees with
the select list of the statement. -/
theorem compile_layout_agrees
    (h : compile compiler identifier query substitutions = .ok plan)
    (hselect : plan.kind.isManipulation = false) :
    ∃ select : Select,
      plan.statements = [.ofTemplate compiler.dialect 0 (select.template compiler.dialect)]
        ∧ plan.LayoutAgrees compiler.model select := by
  obtain ⟨text, select, run, -, -, rfl⟩ := exists_selectRun_of_compile h hselect
  have hagrees := run.agrees
  have hplaced : ∀ {layout first},
      layout.Placed compiler.model run.scope.elements run.sql.columns first →
      run.sql.Loads compiler.model layout first :=
    fun h => Select.loads_of_placed h (fun _ => run.mentions) fun _ => run.mapped
  have hnamed := hagrees.named
  refine ⟨run.sql, rfl, hagrees.covered, ?_, ?_, ?_, hagrees.numbered, ?_, ?_, ?_⟩
  · intro value hvalue layout hlayout
    exact hplaced (hagrees.returned value hvalue layout hlayout)
  · intro fetch hfetch
    exact hplaced (hagrees.fetched fetch hfetch)
  · intro value hvalue
    obtain ⟨number, hnumber⟩ := mem_iff_getElem?.mp hvalue
    rw [hagrees.numbered number value hnumber, Projection.length_labels]
  · rw [Projection.partLabels_eq_flatMap hagrees.numbered] at hnamed
    exact hnamed
  · have hnodup := Projection.nodup_labels (run.projection.returns.map (·.shape.width))
      (run.projection.fetches.map (·.layout.width))
    rw [← hnamed] at hnodup
    exact hnodup
  · intro key hkey
    simp only [mem_cons, not_mem_nil, or_false] at hkey
    rcases hkey with rfl | rfl | rfl <;> exact ⟨_, _, rfl, rfl, length_map ..⟩

/-- Two returned values, one of them an entity with a component and a reference,
and a fetched collection. -/
theorem compile_layout_agrees_fetch : ∃ plan,
    compile Sample.compiler "q"
        "select p, e.name from Person p join p.employer e left join fetch p.orders" [] = .ok plan
      ∧ plan.kind.isManipulation = false ∧ plan.returns.length = 2 ∧ plan.fetches.length = 1
      ∧ ∃ select : Select,
        plan.statements = [.ofTemplate Sample.compiler.dialect 0
            (select.template Sample.compiler.dialect)]
          ∧ plan.LayoutAgrees Sample.compiler.model select := by
  refine exists_ok_and (fun plan => plan.kind.isManipulation = false ∧ plan.returns.length = 2
    ∧ plan.fetches.length = 1) (by decide +kernel) fun plan hplan htest => ?_
  obtain ⟨hselect, hreturns, hfetches⟩ := htest
  exact ⟨hselect, hreturns, hfetches, compile_layout_agrees hplan hselect⟩

end Plan

end EntityQuery
