import EntityQuery.Proofs.Delete
import EntityQuery.Proofs.Plan.Binding
import EntityQuery.Proofs.Plan.Parameters

/-!
# The plan of a delete

A delete has one statement for each many-to-many association of its entity, which
removes the rows that belong to the deleted ones from the table in between, and
one for the entity itself. All of them restrict the rows by the same condition. So
they ask for the same parameters in the same order, the positions of a parameter
repeat from statement to statement, and whatever values are bound, each statement
gets the same ones (`Plan.DeletesRows`).
-/

namespace EntityQuery

open List Sql

open Sql (Atom)

/-! ## Statements that ask for the same parameters -/

namespace Sql.Slot

def places (asked : List Slot) (source : ParameterSource) : List Nat :=
  (asked.zipIdx.filter (·.1.source == source)).map (·.2)

/-- The values that go to a parameter in a statement, if there are any. -/
def given (parameters : Parameters) (filters : EnabledFilters) (slot : Slot) : List Value :=
  let binding : Binding := ⟨slot.source, slot.type, slot.expandable, 0⟩
  (binding.values parameters filters).toOption.getD []

theorem lt_of_mem_places {asked : List Slot} {source : ParameterSource} {place : Nat}
    (h : place ∈ places asked source) : place < asked.length := by
  obtain ⟨⟨slot, _⟩, hentry, rfl⟩ := mem_map.mp h
  have hfound := mem_zipIdx_iff_getElem?.mp (mem_filter.mp hentry).1
  exact (List.getElem?_eq_some_iff.mp hfound).1

end Sql.Slot

namespace Binding

variable {asked : List Slot} (source : ParameterSource)

theorem positions_ofTemplate {template : Template} (h : template.slots = asked)
    (number start : Nat) :
    (((ofTemplate template number).zipIdx start).filter (·.1.source == source)).map (·.2)
      = (Slot.places asked source).map (start + ·) := by
  rw [ofTemplate, h, zipIdx_eq_map_add, zipIdx_map, filter_map, filter_map,
    map_map, map_map, Slot.places, map_map]
  rfl

theorem positions_ofTemplates : ∀ {templates : List Template},
    (∀ template ∈ templates, template.slots = asked) → ∀ index start,
    (((ofTemplates index templates).zipIdx start).filter (·.1.source == source)).map (·.2)
      = (List.range templates.length).flatMap fun number =>
        (Slot.places asked source).map (start + number * asked.length + ·)
  | [], _, _, _ => rfl
  | template :: rest, h, index, start => by
    obtain ⟨htemplate, hrest⟩ := forall_mem_cons.mp h
    have hlength : (ofTemplate template index).length = asked.length := by
      rw [ofTemplate, length_map, htemplate]
    have hsplit : (ofTemplates index (template :: rest)).zipIdx start
        = (ofTemplate template index).zipIdx start
          ++ (ofTemplates (index + 1) rest).zipIdx (start + asked.length) := by
      rw [ofTemplates, zipIdx_cons, flatMap_cons, zipIdx_append, hlength]
      rfl
    rw [hsplit, filter_append, map_append, positions_ofTemplate source htemplate,
      positions_ofTemplates hrest, length_cons, range_succ_eq_map, flatMap_cons,
      flatMap_map, Nat.zero_mul, Nat.add_zero]
    congr 1
    refine flatMap_congr fun number _ => ?_
    rw [Nat.succ_eq_add_one, Nat.add_mul, Nat.one_mul, Nat.add_comm (number * _),
      Nat.add_assoc start]

end Binding

namespace Plan

variable {plan : Plan} {parameters : Parameters} {filters : EnabledFilters}
  {resolved : List (List Value)}

/-- What a statement asks for, one parameter for each binding. -/
def slotsIn (plan : Plan) (number : Nat) : List Slot :=
  (plan.bindings.filter (·.statement == number)).map Binding.slot

theorem slotsIn_eq (plan : Plan) (number : Nat) : plan.slotsIn number
    = (plan.bindings.zipIdx.filter (·.1.statement == number)).map fun entry => entry.1.slot := by
  conv_lhs => rw [slotsIn, ← zipIdx_map_fst 0 plan.bindings, filter_map, map_map]
  rfl

/-- The values of a bound statement are those that are given for what it asks for. -/
theorem boundStatement_values (dialect : Dialect) (hnumbered : plan.Numbered)
    (hresolved : List.Forall₂ (fun binding given => binding.values parameters filters = .ok given)
      plan.bindings resolved) {number : Nat} {statement : PlannedStatement}
    (hstatement : plan.statements[number]? = some statement) :
    (plan.boundStatement dialect resolved statement).values
      = (plan.slotsIn number).flatMap fun slot =>
        (slot.given parameters filters).map (·, slot.type) := by
  rw [boundStatement, hnumbered.placed hstatement, positionsIn, slotsIn_eq, flatMap_map,
    flatMap_map]
  refine flatMap_congr fun entry hentry => ?_
  obtain ⟨binding, position⟩ := entry
  have hbinding := mem_zipIdx_iff_getElem?.mp (mem_filter.mp hentry).1
  obtain ⟨hlt, hat⟩ := List.getElem?_eq_some_iff.mp hbinding
  have hlt' : position < resolved.length := hresolved.length_eq ▸ hlt
  have hvalues : binding.values parameters filters = .ok resolved[position] := by
    rw [← show plan.bindings[position] = binding from hat]
    exact hresolved.get hlt hlt'
  have hgiven : binding.slot.given parameters filters = resolved[position] :=
    congrArg (fun values => (Except.toOption values).getD []) hvalues
  simp only [hbinding, List.getElem?_eq_getElem hlt', Option.getD_some, hgiven]
  rfl

end Plan

/-! ## The statements of a delete -/

/-- The tables of the many-to-many associations, each with its column for the
entity's key, in the order of the properties. -/
def Entity.links (entity : Entity) : List (String × String) :=
  entity.properties.filterMap Property.link?

namespace Plan

/-- A plan that deletes the rows of an entity which a condition selects, after the
rows that belong to them in the tables of its many-to-many associations. The
condition was resolved to `cleanups` for the latter and to `last` for the former. -/
structure DeletesRows (plan : Plan) (compiler : Compiler) (context : Context)
    (condition : Option Query.Expr) (entity : Entity) (cleanups : List (Option Term))
    (last : Option Term) : Prop where
  /-- There is a cleanup for each association. -/
  count : cleanups.length = entity.links.length
  /-- The text of all statements, one after the other. -/
  statements_eq : plan.statements = PlannedStatement.ofTemplates compiler.dialect 0
    (List.zipWith (fun link found =>
        Template.text ("delete from " ++ link.1 ++ " where " ++ link.2 ++ " in (select "
            ++ entity.identifier.column ++ " from " ++ entity.table)
          ++ whereClause compiler.dialect found ++ Template.text ")")
      entity.links cleanups
    ++ [Template.text ("delete from " ++ entity.table)
      ++ whereClause compiler.dialect last])
  rendered : ∀ found ∈ cleanups ++ [last], found.isSome = condition.isSome
    ∧ ∃ s s', (Typed.condition context condition).run s = .ok (found, s')
  /-- The conditions are the same but for the numbers of aliases. -/
  same : ∀ found ∈ cleanups, found.map Term.unnumbered = last.map Term.unnumbered
  numbered : ∀ found ∈ cleanups ++ [last], ∀ lookup, .lookup lookup ∈ optionAtoms found →
    ∃ number : Nat,
      lookup.tableAlias = aliasStem Char.isAlphanum lookup.table ++ toString number ++ "_"
  unqualified : ∀ found ∈ cleanups ++ [last], ∀ ref, .column ref ∈ optionAtoms found →
    ref.qualifier = none
  /-- Every statement asks for the same. -/
  asked : ∀ number ≤ entity.links.length, plan.slotsIn number = Atom.slots (optionAtoms last)
  /-- A parameter stands at the same places in each statement. -/
  positions : ∀ entry ∈ plan.parameters.infos, ∃ places : List Nat,
    (∀ place ∈ places, place < (Atom.slots (optionAtoms last)).length)
      ∧ entry.2.positions = (List.range (entity.links.length + 1)).flatMap fun number =>
        places.map (number * (Atom.slots (optionAtoms last)).length + ·)
  values : ∀ dialect parameters filters paging bound,
    plan.bind dialect parameters filters paging = .ok bound →
      bound.length = entity.links.length + 1
        ∧ ∃ values, ∀ statement ∈ bound, statement.values = values

end Plan

namespace Lowered.DeleteRun

variable {context : Context} {delete : Query.Delete} (run : DeleteRun context delete)

theorem length_unlinks : run.unlinks.length = run.root.entity.links.length := by
  have hlinks := congrArg List.length run.unlinking.links_eq
  rwa [length_map] at hlinks

theorem templates_eq (dialect : Dialect) :
    run.lowered.statements.map (Statement.template dialect)
      = List.zipWith (fun link found =>
          Template.text ("delete from " ++ link.1 ++ " where " ++ link.2 ++ " in (select "
              ++ run.root.entity.identifier.column ++ " from " ++ run.root.entity.table)
            ++ whereClause dialect found ++ Template.text ")")
        run.root.entity.links (run.unlinks.map (·.condition))
      ++ [Template.text ("delete from " ++ run.root.entity.table)
        ++ whereClause dialect run.condition] := by
  rw [lowered, map_append, map_map]
  congr 1
  conv_lhs => rw [run.unlinking.unlinks_eq, map_zipWith]
  rfl

theorem slots_eq (dialect : Dialect) :
    ∀ template ∈ run.lowered.statements.map (Statement.template dialect),
      template.slots = Atom.slots (optionAtoms run.condition) := by
  have hlast : run.condition ∈ run.conditions :=
    mem_append_right _ (mem_singleton.mpr rfl)
  refine forall_mem_map.mpr fun statement hstatement => ?_
  rw [statement.slots_template]
  rcases mem_append.mp hstatement with hunlink | hdelete
  · obtain ⟨unlink, hmem, rfl⟩ := mem_map.mp hunlink
    have hfound : unlink.condition ∈ run.conditions :=
      mem_append_left _ (mem_map_of_mem hmem)
    exact (run.renders _ hlast).slots_eq (run.renders _ hfound)
  · rw [mem_singleton.mp hdelete]
    rfl

theorem isSome_eq {condition : Option Query.Expr} {found : Option Term} {s s' : Scope}
    (h : (Typed.condition context condition).run s = .ok (found, s')) :
    found.isSome = condition.isSome := by
  cases condition with
  | none =>
    simp only [Typed.condition, Typed.ofOption, pure_bind] at h
    obtain ⟨rfl, -⟩ := Scoped.run_pure.mp h
    rfl
  | some expr =>
    simp only [Typed.condition, Typed.ofOption, bind_assoc, pure_bind] at h
    obtain ⟨typed, s₁, -, h⟩ := Scoped.run_bind.mp h
    obtain ⟨rfl, -⟩ := Scoped.run_pure.mp h
    rfl

end Lowered.DeleteRun

namespace Plan

variable {compiler : Compiler} {identifier query : String}
  {substitutions : List (String × String)} {plan : Plan}

theorem slotsIn_ofLowered {lowered : Lowered} {number : Nat} {statement : Statement}
    (h : lowered.statements[number]? = some statement) :
    (ofLowered compiler identifier query lowered).slotsIn number
      = (statement.template compiler.dialect).slots := by
  obtain ⟨first, -, hfilter⟩ := filter_bindings_ofLowered compiler identifier query h
  rw [slotsIn_eq, hfilter, ← Binding.slots_ofTemplate _ number]
  conv_rhs => rw [← zipIdx_map_fst first (Binding.ofTemplate _ _), map_map]
  rfl

theorem deletesRows_ofLowered (compiler : Compiler) (identifier query : String) {context : Context}
    {delete : Query.Delete} (run : Lowered.DeleteRun context delete) :
    (ofLowered compiler identifier query run.lowered).DeletesRows compiler context delete.condition
      run.root.entity (run.unlinks.map (·.condition)) run.condition := by
  have hlength : run.lowered.statements.length = run.root.entity.links.length + 1 := by
    rw [← run.length_unlinks, Lowered.DeleteRun.lowered, length_append, length_map]
    rfl
  have hslots := run.slots_eq compiler.dialect
  have hlast : run.condition ∈ run.conditions :=
    mem_append_right _ (mem_singleton.mpr rfl)
  have hasked : ∀ number ≤ run.root.entity.links.length,
      (ofLowered compiler identifier query run.lowered).slotsIn number
        = Atom.slots (optionAtoms run.condition) := by
    intro number hnumber
    have hlt : number < run.lowered.statements.length := by omega
    rw [slotsIn_ofLowered (List.getElem?_eq_getElem hlt)]
    exact hslots _ (mem_map_of_mem (getElem_mem hlt))
  constructor
  · rw [length_map, run.length_unlinks]
  · rw [ofLowered, run.templates_eq]
  · intro found hfound
    obtain ⟨s, s', -, hrun⟩ := run.renders found hfound
    exact ⟨Lowered.DeleteRun.isSome_eq hrun, s, s', hrun⟩
  · intro found hfound
    exact (run.renders _ hlast).unnumbered_eq (run.renders _ (mem_append_left _ hfound))
  · intro found hfound lookup hlookup
    obtain ⟨path, -, hfinds⟩ := (run.renders _ hfound).finds hlookup
    exact hfinds.numbered
  · exact fun found hfound ref href => (run.renders _ hfound).unqualified href
  · exact hasked
  · intro entry hentry
    obtain ⟨first, rest, -, -, hpositions, -⟩ :=
      ParameterTable.ofUses?_eq_some (ParameterTable.mem_infos hentry).2
    refine ⟨Slot.places (Atom.slots (optionAtoms run.condition)) entry.1,
      fun place => Slot.lt_of_mem_places, ?_⟩
    have hplaces := Binding.positions_ofTemplates entry.1 hslots 0 0
    simp only [length_map, hlength, Nat.zero_add] at hplaces
    exact hpositions.trans hplaces
  · intro dialect parameters filters paging bound hbind
    obtain ⟨-, resolved, hresolved, rfl⟩ := bind_eq_ok_statements hbind
    refine ⟨by rw [length_mapIdx, length_statements, hlength],
      (Atom.slots (optionAtoms run.condition)).flatMap fun slot =>
        (slot.given parameters filters).map (·, slot.type), fun statement hstatement => ?_⟩
    obtain ⟨number, hnumber, rfl⟩ := mem_mapIdx.mp hstatement
    rw [length_statements, hlength] at hnumber
    rw [← hasked number (by omega)]
    exact boundStatement_values dialect numbered_ofLowered hresolved (List.getElem?_eq_getElem _)

/-- A plan that deletes is the plan of a delete. -/
theorem exists_deleteRun_of_compile
    (h : compile compiler identifier query substitutions = .ok plan) (hkind : plan.kind = .delete) :
    ∃ text delete, ∃ run : Lowered.DeleteRun (compiler.context text) delete,
      substituted substitutions query = .ok text ∧ parsed text = .ok (.delete delete)
        ∧ lower compiler text (.delete delete) = .ok run.lowered
        ∧ plan = ofLowered compiler identifier query run.lowered := by
  obtain ⟨text, statement, lowered, s, htext, hparsed, hrun, rfl⟩ := compile_eq_ok h
  cases statement with
  | select select =>
    obtain ⟨run, rfl, -⟩ := Lowered.exists_selectRun hrun
    cases hkind
  | update update => cases ((Lowered.ofUpdate_run hrun).kind_eq.symm.trans hkind)
  | delete delete =>
    obtain ⟨run, rfl, -⟩ := Lowered.exists_deleteRun hrun
    exact ⟨text, delete, run, htext, hparsed, bind_eq_ok.mpr ⟨_, hrun, rfl⟩, rfl⟩

/-- What the plan of every delete is like. -/
theorem compile_delete_repeats
    (h : compile compiler identifier query substitutions = .ok plan) (hkind : plan.kind = .delete) :
    ∃ text delete entity cleanups last, substituted substitutions query = .ok text
      ∧ parsed text = .ok (.delete delete)
      ∧ compiler.model.entity delete.entity = .ok entity
      ∧ plan.DeletesRows compiler (compiler.context text) delete.condition entity cleanups last := by
  obtain ⟨text, delete, run, htext, hparsed, -, rfl⟩ := exists_deleteRun_of_compile h hkind
  exact ⟨text, delete, _, _, _, htext, hparsed, run.entity_eq,
    deletesRows_ofLowered compiler identifier query run⟩

/-- Two statements with a subquery and a list of values each. -/
theorem compile_delete_repeats_tags : ∃ plan,
    compile Sample.compiler "d" "delete from Person p where p.orders is empty and p.name in (:names)"
        [] = .ok plan
      ∧ plan.kind = .delete
      ∧ plan.statements.map (·.sql)
        = ["delete from person_tag where person_id in (select id from person where not exists "
            ++ "(select 1 from orders orders0_ where orders0_.person_id = person.id) and name in ($1))",
          "delete from person where not exists "
            ++ "(select 1 from orders orders1_ where orders1_.person_id = person.id) and name in ($1)"]
      ∧ ∃ text delete entity cleanups last, parsed text = .ok (.delete delete)
        ∧ Sample.compiler.model.entity delete.entity = .ok entity
        ∧ plan.DeletesRows Sample.compiler (Sample.compiler.context text) delete.condition entity
          cleanups last := by
  refine exists_ok_and (fun plan => plan.kind = .delete ∧ plan.statements.map (·.sql)
      = ["delete from person_tag where person_id in (select id from person where not exists "
          ++ "(select 1 from orders orders0_ where orders0_.person_id = person.id) and name in ($1))",
        "delete from person where not exists "
          ++ "(select 1 from orders orders1_ where orders1_.person_id = person.id) and name in ($1)"])
    (by decide +kernel) fun plan hplan htest => ?_
  obtain ⟨hkind, hsql⟩ := htest
  obtain ⟨text, delete, entity, cleanups, last, -, hparsed, hentity, hdeletes⟩ :=
    compile_delete_repeats hplan hkind
  exact ⟨hkind, hsql, text, delete, entity, cleanups, last, hparsed, hentity, hdeletes⟩

end Plan

end EntityQuery
