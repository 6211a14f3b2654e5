import EntityQuery.Proofs.Plan.Numbering
import EntityQuery.Proofs.Sample

/-!
# Placeholders and values line up

Binding goes over a planned statement twice: once for its text, where each
placeholder of the plan becomes as many placeholders as it has values, and
once for the values. `Fragment.expand` goes over it once and puts the values
where their placeholders are. Both of the others can be read off from that
(`render_eq_write`, `values_expand`), so that the placeholders of a bound
statement and its values match one by one.

It is essential that no placeholder is left without a value: an empty list
would get a placeholder all the same. Such lists are refused before anything
is bound (`values_ne_nil`).
-/

namespace EntityQuery

open List Sql

/-- A piece of a statement whose values are known: text, or the place of one
value. -/
inductive BoundPiece where
  | text (sql : String)
  | mark (value : Value) (type : SemanticType)

namespace BoundPiece

def write (dialect : Dialect) (next : Nat) : List BoundPiece → String
  | [] => ""
  | .text sql :: rest => sql ++ write dialect next rest
  | .mark _ _ :: rest => dialect.placeholder next ++ write dialect (next + 1) rest

def values : List BoundPiece → List (Value × SemanticType)
  | [] => []
  | .text _ :: rest => values rest
  | .mark value type :: rest => (value, type) :: values rest

/-- The places of the values of one placeholder, with commas between them. -/
def ofValues (type : SemanticType) (given : List Value) : List BoundPiece :=
  (given.map (.mark · type)).intersperse (.text ", ")

theorem values_append : ∀ pieces rest : List BoundPiece,
    values (pieces ++ rest) = values pieces ++ values rest
  | [], _ => rfl
  | .text _ :: pieces, rest => values_append pieces rest
  | .mark value type :: pieces, rest => congrArg ((value, type) :: ·) (values_append pieces rest)

theorem write_append (dialect : Dialect) : ∀ (pieces rest : List BoundPiece) (next : Nat),
    write dialect next (pieces ++ rest)
      = write dialect next pieces ++ write dialect (next + (values pieces).length) rest
  | [], _, _ => by simp [write, values]
  | .text sql :: pieces, rest, next => by
    simp only [cons_append, write, values, write_append dialect pieces rest next,
      String.append_assoc]
  | .mark value type :: pieces, rest, next => by
    simp only [cons_append, write, values, write_append dialect pieces rest (next + 1),
      String.append_assoc, length_cons, Nat.add_assoc, Nat.add_comm 1]

theorem values_ofValues (type : SemanticType) : ∀ given : List Value,
    values (ofValues type given) = given.map (·, type)
  | [] | [_] => rfl
  | first :: second :: rest => by
    have ih := values_ofValues type (second :: rest)
    simp only [ofValues, map_cons, intersperse_cons_cons, values] at ih ⊢
    rw [ih]

theorem write_ofValues (dialect : Dialect) (type : SemanticType) :
    ∀ (given : List Value) (next : Nat), given ≠ [] →
      write dialect next (ofValues type given)
        = ", ".intercalate ((range' next given.length).map dialect.placeholder)
  | [], _, h => (h rfl).elim
  | [_], next, _ => by simp [ofValues, write]
  | first :: second :: rest, next, _ => by
    have ih := write_ofValues dialect type (second :: rest) (next + 1) (cons_ne_nil _ _)
    simp only [ofValues, map_cons, intersperse_cons_cons, write, length_cons,
      range'_succ, String.intercalate_cons_cons] at ih ⊢
    rw [ih, String.append_assoc]

end BoundPiece

namespace Fragment

/-- The fragments with the places of all values: each placeholder gives way to
the values for it. -/
def expand (slots : List (List Value × SemanticType)) : List Fragment → List BoundPiece
  | [] => []
  | .text sql :: rest => .text sql :: expand slots rest
  | .placeholder binding :: rest =>
    ((slots[binding]?).elim [] fun (given, type) => BoundPiece.ofValues type given)
      ++ expand slots rest

theorem placeholders_eq (dialect : Dialect) (start count : Nat) :
    placeholders dialect start count
      = ", ".intercalate ((range' start (max count 1)).map dialect.placeholder) := by
  rw [placeholders, range'_eq_map_range, map_map]
  rfl

variable {slots : List (List Value × SemanticType)} {count : Nat → Nat}

/-- The text of a bound statement is that of the fragments with their values. -/
theorem render_eq_write (dialect : Dialect)
    (hcount : ∀ {binding slot}, slots[binding]? = some slot → count binding = slot.1.length) :
    ∀ (fragments : List Fragment) (next : Nat),
      (∀ binding ∈ bindings fragments, ∃ slot, slots[binding]? = some slot ∧ slot.1 ≠ []) →
      render dialect count next fragments
        = BoundPiece.write dialect next (expand slots fragments)
  | [], _, _ => rfl
  | .text sql :: rest, next, h => by
    rw [render, expand, BoundPiece.write, render_eq_write dialect hcount rest next h]
  | .placeholder binding :: rest, next, h => by
    obtain ⟨⟨given, type⟩, hslot, hgiven⟩ := h binding (.head _)
    have hpositive : max given.length 1 = given.length :=
      Nat.max_eq_left (length_pos_iff.mpr hgiven)
    have hrest := render_eq_write dialect hcount rest (next + given.length)
      fun b hb => h b (.tail _ hb)
    rw [render, expand, hslot, hcount hslot, placeholders_eq, hpositive, Option.elim_some,
      BoundPiece.write_append, BoundPiece.values_ofValues, length_map,
      BoundPiece.write_ofValues dialect type given next hgiven, hrest]

theorem values_expand : ∀ fragments : List Fragment,
    BoundPiece.values (expand slots fragments)
      = (bindings fragments).flatMap fun binding =>
        (slots[binding]?).elim [] fun (given, type) => given.map (·, type)
  | [] => rfl
  | .text sql :: rest => values_expand rest
  | .placeholder binding :: rest => by
    have hbindings : bindings (.placeholder binding :: rest) = binding :: bindings rest := rfl
    rw [expand, BoundPiece.values_append, hbindings, flatMap_cons, values_expand rest]
    cases slots[binding]? with
    | none => rfl
    | some slot => rw [Option.elim_some, Option.elim_some, BoundPiece.values_ofValues]

end Fragment

/-! ## Values for all placeholders -/

theorem ParameterTable.misplacedList?_eq_none {table : ParameterTable} {parameters : Parameters}
    {query : String} (h : table.validate parameters query = .ok ()) :
    table.misplacedList? parameters = none := by
  unfold validate at h
  split at h
  · cases h
  · rename_i hnone
    exact (Option.or_eq_none_iff.mp hnone).2

theorem ParameterTable.values_ne_nil_of_listFault? {source : ParameterSource}
    {info : Option ParameterInfo} {value : ParameterValue}
    (h : listFault? source info value = none) : value.values ≠ [] := by
  cases value with
  | single value => exact cons_ne_nil _ _
  | list given =>
    rw [listFault?] at h
    split at h
    · cases h
    · split at h
      · cases h
      · rename_i hsome
        intro hempty
        exact hsome (isEmpty_iff.mpr hempty)

/-- Values that pass the check are there for every placeholder. -/
theorem Binding.values_ne_nil {table : ParameterTable} {parameters : Parameters}
    {filters : EnabledFilters} {query : String} {binding : Binding} {given : List Value}
    (hvalidate : table.validate parameters query = .ok ())
    (h : binding.values parameters filters = .ok given) : given ≠ [] := by
  obtain ⟨supplied, hsupplied, hchecked⟩ := bind_eq_ok.mp h
  have hgiven : supplied = given := by
    split at hchecked
    · cases hchecked
    · exact Except.ok.inj hchecked
  subst hgiven
  have hlists := ParameterTable.misplacedList?_eq_none hvalidate
  obtain ⟨hnamed, hordinal⟩ := Option.or_eq_none_iff.mp hlists
  unfold Binding.supplied at hsupplied
  split at hsupplied
  · split at hsupplied
    · rename_i name _ _ value hvalue
      obtain rfl := Except.ok.inj hsupplied
      exact ParameterTable.values_ne_nil_of_listFault?
        (findSome?_eq_none_iff.mp hnamed (name, value) (Keyed.lookup_mem hvalue))
    · cases hsupplied
  · split at hsupplied
    · rename_i position _ _ value hvalue
      obtain rfl := Except.ok.inj hsupplied
      exact ParameterTable.values_ne_nil_of_listFault?
        (findSome?_eq_none_iff.mp hordinal (position, value) (Keyed.lookup_mem hvalue))
    · cases hsupplied
  · split at hsupplied
    · obtain rfl := Except.ok.inj hsupplied
      exact cons_ne_nil _ _
    · cases hsupplied

/-! ## Bound plans -/

namespace Plan

def slots (plan : Plan) (resolved : List (List Value)) : List (List Value × SemanticType) :=
  resolved.zip (plan.bindings.map (·.type))

/-- What stands after the text of the statement with the given number: the end
of a select after its main statement. -/
def suffix (plan : Plan) (dialect : Dialect) (parameters : Parameters) (paging : Paging)
    (number : Nat) : String :=
  if !plan.kind.isManipulation ∧ number + 1 = plan.statements.length then
    ending dialect parameters paging
  else ""

variable {plan : Plan} {dialect : Dialect} {parameters : Parameters}
  {filters : EnabledFilters} {paging : Paging} {resolved : List (List Value)}

theorem slots_getElem? {number : Nat} {slot : List Value × SemanticType} :
    (plan.slots resolved)[number]? = some slot ↔
      resolved[number]? = some slot.1
        ∧ ∃ binding, plan.bindings[number]? = some binding ∧ binding.type = slot.2 := by
  rw [slots, getElem?_zip_eq_some, getElem?_map, Option.map_eq_some_iff]

/-- Both passes over a planned statement come from one. -/
theorem boundStatement_eq (hlength : plan.bindings.length = resolved.length)
    (hvalues : [] ∉ resolved) {statement : PlannedStatement}
    (hrange : ∀ number ∈ Fragment.bindings statement.fragments, number < plan.bindings.length) :
    plan.boundStatement dialect resolved statement
      = ⟨BoundPiece.write dialect 1 (Fragment.expand (plan.slots resolved) statement.fragments),
        BoundPiece.values (Fragment.expand (plan.slots resolved) statement.fragments)⟩ := by
  have hslot : ∀ number ∈ Fragment.bindings statement.fragments,
      ∃ given binding, resolved[number]? = some given ∧ plan.bindings[number]? = some binding
        ∧ (plan.slots resolved)[number]? = some (given, binding.type) := by
    intro number hnumber
    have hbinding := getElem?_eq_getElem (hrange number hnumber)
    have hgiven := getElem?_eq_getElem (hlength ▸ hrange number hnumber)
    exact ⟨_, _, hgiven, hbinding, slots_getElem?.mpr ⟨hgiven, _, hbinding, rfl⟩⟩
  rw [boundStatement, BoundStatement.mk.injEq]
  constructor
  · refine Fragment.render_eq_write dialect ?_ _ 1 ?_
    · intro number slot h
      have hgiven := (slots_getElem?.mp h).1
      exact congrArg (fun given => (Option.getD given []).length) hgiven
    · intro number hnumber
      obtain ⟨given, binding, hgiven, -, h⟩ := hslot number hnumber
      exact ⟨_, h, fun hnil => hvalues (hnil ▸ mem_of_getElem? hgiven)⟩
  · rw [Fragment.values_expand]
    refine flatMap_congr fun number hnumber => ?_
    obtain ⟨given, binding, hgiven, hbinding, h⟩ := hslot number hnumber
    rw [h, hbinding]
    exact congrArg (fun given => (Option.getD given []).map (·, binding.type)) hgiven

/-- What binding a plan does, in terms of the values of its bindings. -/
theorem bind_eq_ok_statements {bound : List BoundStatement}
    (h : plan.bind dialect parameters filters paging = .ok bound) :
    plan.parameters.validate parameters plan.query = .ok ()
      ∧ ∃ resolved,
        List.Forall₂ (fun binding given => binding.values parameters filters = .ok given)
          plan.bindings resolved
        ∧ bound = plan.statements.mapIdx fun number statement =>
          endWith (plan.suffix dialect parameters paging number)
            (plan.boundStatement dialect resolved statement) := by
  obtain ⟨⟨⟩, hvalidate, h⟩ := bind_eq_ok.mp h
  obtain ⟨resolved, hresolved, h⟩ := bind_eq_ok.mp h
  refine ⟨hvalidate, resolved, mapM_eq_ok_iff.mp hresolved, ext_getElem? fun number => ?_⟩
  split at h
  · rename_i hkind
    obtain rfl := Except.ok.inj h
    simp [suffix, hkind, endWith, List.getElem?_mapIdx]
  · rename_i hkind
    obtain rfl := Except.ok.inj h
    rw [List.getElem?_modify, List.getElem?_map, List.getElem?_mapIdx, length_map]
    cases hstatement : plan.statements[number]? with
    | none => rfl
    | some statement =>
      have hlt := (List.getElem?_eq_some_iff.mp hstatement).1
      have hlast : plan.statements.length - 1 = number
          ↔ number + 1 = plan.statements.length := by omega
      by_cases heq : number + 1 = plan.statements.length
      · simp [suffix, hkind, heq, hlast]
      · simp [suffix, heq, hlast, endWith]

/-- The statements `bound` are those of the plan with the values `resolved`:
each has a placeholder for each of its values, at least one for each binding,
numbered from one on, and its values in the order of their placeholders. -/
structure LinesUp (plan : Plan) (dialect : Dialect) (parameters : Parameters)
    (filters : EnabledFilters) (paging : Paging) (resolved : List (List Value))
    (bound : List BoundStatement) : Prop where
  values : Forall₂ (fun binding given => binding.values parameters filters = .ok given)
    plan.bindings resolved
  nonempty : [] ∉ resolved
  numbered : plan.statements.flatMap (Fragment.bindings ·.fragments)
    = range plan.bindings.length
  statements : bound = plan.statements.mapIdx fun number statement =>
    let pieces := Fragment.expand (plan.slots resolved) statement.fragments
    ⟨BoundPiece.write dialect 1 pieces ++ plan.suffix dialect parameters paging number,
      BoundPiece.values pieces⟩

theorem compile_bind_lines_up {compiler : Compiler} {identifier query : String}
    {substitutions : List (String × String)} {bound : List BoundStatement}
    (hplan : compile compiler identifier query substitutions = .ok plan)
    (hbind : plan.bind dialect parameters filters paging = .ok bound) :
    ∃ resolved, plan.LinesUp dialect parameters filters paging resolved bound := by
  obtain ⟨text, statement, lowered, s, -, -, -, rfl⟩ := compile_eq_ok hplan
  obtain ⟨hvalidate, resolved, hresolved, rfl⟩ := bind_eq_ok_statements hbind
  have hvalues : [] ∉ resolved := by
    intro hnil
    obtain ⟨binding, -, hgiven⟩ := exists_left_of_forall₂ hresolved hnil
    exact Binding.values_ne_nil hvalidate hgiven rfl
  refine ⟨resolved, hresolved, hvalues, bindings_ofLowered, ?_⟩
  refine mapIdx_eq_mapIdx_iff.mpr fun number hnumber => ?_
  have hrange : ∀ binding ∈ Fragment.bindings
      ((ofLowered compiler identifier query lowered).statements.get ⟨number, hnumber⟩).fragments,
      binding < (ofLowered compiler identifier query lowered).bindings.length := by
    intro binding hbinding
    rw [← mem_range, ← bindings_ofLowered]
    exact mem_flatMap.mpr ⟨_, get_mem _ _, hbinding⟩
  rw [get_eq_getElem] at hrange
  rw [boundStatement_eq hresolved.length_eq hvalues hrange]
  rfl

/-- A list of two values, a parameter that is used twice and the parameter of a
filter, in a select that is cut after three rows. -/
theorem compile_bind_lines_up_list : ∃ plan bound,
    compile Sample.compiler "q"
        "select p.id from Person p where p.name in (:names) or p.age > :a or p.id = :a" []
      = .ok plan
      ∧ plan.bind Sample.compiler.dialect Sample.parameters Sample.compiler.filters .sql = .ok bound
      ∧ bound.map (·.values.length) = [5]
      ∧ ∃ resolved, plan.LinesUp Sample.compiler.dialect Sample.parameters
          Sample.compiler.filters .sql resolved bound := by
  refine exists_ok_exists_and (fun plan => (plan.bind Sample.compiler.dialect Sample.parameters
      Sample.compiler.filters .sql).toOption.any
        fun bound => bound.map (·.values.length) == [5]) (by decide +kernel)
    fun plan hplan hbound => ?_
  obtain ⟨bound, hbound, hvalues⟩ := exists_ok_of_any hbound
  exact ⟨bound, hbound, beq_iff_eq.mp hvalues, compile_bind_lines_up hplan hbound⟩

end Plan

end EntityQuery
