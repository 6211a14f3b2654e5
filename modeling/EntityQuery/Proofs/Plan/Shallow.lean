import EntityQuery.Proofs.Cursor.Modes
import EntityQuery.Proofs.Plan.Parameters
import EntityQuery.Proofs.Shallow

/-!
# The plan of a shallow query

A query with a select clause has the same interface when it is made shallow: what
it returns has the same types and aliases, and it asks for the same parameters
(`Plan.SameInterface`). Nothing is fetched by it, so that it can be read row by
row (`Plan.Flat`).

The aliases of its tables are other ones, because some joins are left out. An
alias can be seen in the condition of a filter, and it can even be part of the
name of a parameter there. Then the name may be declared for one alias and not
for another. This is the only way in which a query can fail once it is made
shallow.
-/

namespace EntityQuery

open List Sql Sample Atom

open Sql (Atom)

/-! ## What the from clause asks for -/

namespace Scope

variable {context : Context} {base s s' t : Scope} {enabled : EnabledFilters}

/-- Tables that come in later are joined without conditions. -/
theorem Grown.asked_eq (h : Grown context base s) :
    s.ranges.flatMap slotCollection.ofRange = base.ranges.flatMap slotCollection.ofRange := by
  obtain ⟨added, hadded, hbare⟩ := h.entries_append
  rw [ranges, ranges, flatMap_map, flatMap_map, h.roots_eq, hadded]
  refine flatMap_congr fun root _ => ?_
  have hnothing : ((added.filter (·.element.range == root.index)).flatMap
      ScopeEntry.joinedTables).flatMap slotCollection.ofJoined = [] := by
    rw [flatMap_assoc]
    refine flatMap_eq_nil_iff.mpr fun entry hentry => ?_
    refine flatMap_eq_nil_iff.mpr fun joined hjoined => ?_
    rw [Collection.ofJoined, JoinedTable.atoms,
      (hbare entry (mem_of_mem_filter hentry)).1 joined hjoined]
    rfl
  unfold Collection.ofRange
  rw [filter_append, flatMap_append, flatMap_append, hnothing, append_nil]

/-- Where the filters can be put on one of two twins and not on the other, one of
them depends on the alias of its table. -/
theorem Twins.filtered_error {rooted : List Template} {fault : MappingFault}
    (h : Twins context base s t) (hs : s.filtered enabled = .ok (s', rooted))
    (ht : t.filtered enabled = .error fault) :
    ∃ element ∈ t.elements, ∃ filter ∈ enabled.on element.entity, ¬filter.Steady
      ∧ ∃ name, fault = .defect element.entity.name (.undeclaredParameter filter.name name) := by
  obtain ⟨entry, hentry, filter, hfilter, _, htemplate⟩ := exists_template_error ht
  have hmem : entry.element ∈ t.elements := mem_map_of_mem hentry
  -- The other scope has a table of the same entity, for which the filter could be written.
  obtain ⟨twin, htwin, hentity⟩ := h.covered entry.element hmem
  obtain ⟨tables, hentries, hfilters, -, -⟩ := filtered_eq_ok hs
  rw [elements, hentries, map_map] at htwin
  obtain ⟨table, htable, rfl⟩ := mem_map.mp htwin
  have hfilter' : filter ∈ enabled.on table.entry.element.entity := hentity ▸ hfilter
  obtain ⟨template, -, hok⟩ :=
    exists_right_of_forall₂ (mapM_eq_ok_iff.mp (hfilters table htable)) hfilter'
  obtain ⟨name, -, -, hname⟩ := Filter.exists_undeclared htemplate
  refine ⟨entry.element, hmem, filter, hfilter, ?_, _, hname⟩
  exact Filter.not_steady_of_template (hentity ▸ hok) htemplate

end Scope

namespace Lowered.SelectRun

variable {context : Context} {select : Query.Select}

/-- Clauses that are alike, in scopes that have grown from the same one, ask for
the same parameters. -/
theorem asked_eq_of_alike {shallow : Context} {run : SelectRun context select}
    {other : SelectRun shallow select} (hfrom : other.afterFrom = run.afterFrom)
    (hgrown : Scope.Grown context run.afterFrom run.scope)
    (hother : Scope.Grown context other.afterFrom other.scope)
    (halike : run.clauses.Alike other.clauses) : asked other.sql.atoms = asked run.sql.atoms := by
  have hsame : ∀ {atoms more : List Atom}, slots more = slots atoms →
      asked more = asked atoms := by
    intro atoms more h
    rw [asked_eq_filter, asked_eq_filter, h]
  have hranges : other.sql.ranges.flatMap slotCollection.ofRange
      = run.sql.ranges.flatMap slotCollection.ofRange := by
    refine (Collection.ofRanges_filtered _ other.filterRun).trans (hother.asked_eq.trans ?_)
    rw [hfrom]
    exact hgrown.asked_eq.symm.trans (Collection.ofRanges_filtered _ run.filterRun).symm
  rw [run.asked_eq, other.asked_eq, hranges]
  refine congrArg₂ _ (congrArg₂ _ (congrArg₂ _ (congrArg₂ _ (congrArg (· ++ _) ?_) ?_) ?_) ?_) ?_
  · exact hsame halike.projection.slots_eq
  · exact hsame halike.condition
  · exact hsame halike.groupBy
  · exact hsame halike.having
  · exact hsame halike.orderBy

/-- A select can be made shallow, unless a filter depends on the alias of its
table. -/
theorem exists_asShallow (run : SelectRun context select) (hexact : context.model.Exact)
    (hclause : select.clause.isSome) :
    (∃ other : SelectRun context.asShallow select,
      (ofSelect context.asShallow select).run {} = .ok (other.lowered, other.scope)
        ∧ run.projection.Alike other.projection
        ∧ asked other.sql.atoms = asked run.sql.atoms)
    ∨ ∃ entity ∈ context.model.entities, ∃ filter ∈ context.filters.on entity, ¬filter.Steady
      ∧ ∃ name, (ofSelect context.asShallow select).run {}
        = .error (.mapping (.defect entity.name (.undeclaredParameter filter.name name))) := by
  obtain ⟨clause, found, t, hfrom, hclauses, halike, htwins⟩ :=
    run.exists_clauses_asShallow hexact hclause
  cases hfilters : t.filtered context.filters with
  | ok result =>
    obtain ⟨filtered, filters⟩ := result
    obtain ⟨other, rfl, hbase, rfl, hrun⟩ := ofSelect_run hfrom hclauses hfilters
    refine .inl ⟨other, hrun, halike.projection, ?_⟩
    exact asked_eq_of_alike hbase htwins.left (hbase ▸ htwins.right) halike
  | error fault =>
    obtain ⟨element, helement, filter, hfilter, hsteady, name, rfl⟩ :=
      htwins.filtered_error run.filterRun hfilters
    obtain ⟨entityName, hentity⟩ := htwins.right.mapped element helement
    exact .inr ⟨element.entity, Metamodel.mem_entities hentity, filter, hfilter, hsteady, name,
      ofSelect_run_error hfrom hclauses hfilters⟩

end Lowered.SelectRun

/-! ## The interface of a plan -/

/-- Whether the statement says what it selects. -/
def Query.Statement.hasSelectClause : Query.Statement → Bool
  | .select query => query.clause.isSome
  | _ => false

theorem Query.Statement.hasSelectClause_iff {statement : Query.Statement} :
    statement.hasSelectClause ↔ ∃ select, statement = .select select ∧ select.clause.isSome := by
  cases statement <;> simp [hasSelectClause]

namespace ParameterTable

variable {bindings others : List Binding}

/-- The parameters of a query with their types, and whether they take lists. -/
def signature (table : ParameterTable) : List (ParameterSource × SemanticType × Bool) :=
  table.infos.map fun entry => (entry.1, entry.2.type, entry.2.expandable)

def asked (bindings : List Binding) : List Slot :=
  (bindings.map Binding.slot).filter (!·.source.isFilter)

/-- What the places of a parameter say about it. -/
def described? : List Slot → Option (SemanticType × Bool)
  | [] => none
  | first :: rest => some (first.type, (first :: rest).all (·.expandable))

theorem described?_uses (found : List (Binding × Nat)) :
    (ParameterInfo.ofUses? found).map (fun info => (info.type, info.expandable))
      = described? (found.map (·.1.slot)) := by
  cases found with
  | nil => rfl
  | cons first rest =>
    simp only [map_cons, described?, all_cons, all_map]
    rfl

theorem slots_uses {source : ParameterSource} (hsource : source.isFilter = false) :
    (uses bindings source).map (·.1.slot) = (asked bindings).filter (·.source == source) := by
  have huses : (uses bindings source).map (·.1.slot)
      = (bindings.map Binding.slot).filter (·.source == source) := by
    conv_rhs => rw [← zipIdx_map_fst 0 bindings, map_map, filter_map]
    rfl
  rw [huses, asked, filter_filter]
  refine filter_congr fun slot _ => ?_
  by_cases h : slot.source = source
  · simp [h, hsource]
  · simp [h]

theorem filterMap_asked {α : Type} {f : ParameterSource → Option α}
    (hfilter : ∀ source, source.isFilter = true → f source = none) (bindings : List Binding) :
    (asked bindings).filterMap (fun slot => f slot.source)
      = bindings.filterMap fun binding => f binding.source := by
  rw [asked, filterMap_filter, filterMap_map]
  refine filterMap_congr fun binding _ => ?_
  by_cases h : binding.source.isFilter = true
  · simp [Binding.slot, h, hfilter _ h]
  · simp [Binding.slot, h]

theorem sources_congr (h : asked bindings = asked others) : sources bindings = sources others := by
  have hname : ∀ source : ParameterSource, source.isFilter = true → source.name? = none
    | .filter _ _, _ => rfl
  have hposition : ∀ source : ParameterSource, source.isFilter = true → source.position? = none
    | .filter _ _, _ => rfl
  rw [sources, sources, names_eq, names_eq, positions_eq, positions_eq, ← filterMap_asked hname,
    ← filterMap_asked hname, ← filterMap_asked hposition, ← filterMap_asked hposition, h]

/-- What is asked for decides what callers see of the parameters. -/
theorem signature_congr (h : asked bindings = asked others) :
    (ofBindings bindings).signature = (ofBindings others).signature := by
  have hsignature : ∀ bindings : List Binding, (ofBindings bindings).signature
      = (sources bindings).filterMap fun source =>
        (described? ((asked bindings).filter (·.source == source))).map fun found =>
          (source, found) := by
    intro bindings
    rw [signature, infos_ofBindings, map_filterMap]
    refine filterMap_congr fun source hsource => ?_
    rw [← slots_uses (mem_sources.mp hsource).1, ← described?_uses, Option.map_map, Option.map_map]
    rfl
  rw [hsignature, hsignature, sources_congr h, h]

end ParameterTable

namespace Plan

/-- What callers see of the two plans is the same: the types and aliases of what
is returned, what is made of it, and the parameters with their types. -/
structure SameInterface (plan other : Plan) : Prop where
  types : other.returns.map (·.type) = plan.returns.map (·.type)
  aliases : other.returns.map (·.alias?) = plan.returns.map (·.alias?)
  shape : other.shape = plan.shape
  parameters : other.parameters.signature = plan.parameters.signature

/-- The plan selects values that are made of single columns, and can be read row
by row. -/
structure Flat (plan : Plan) : Prop where
  kind : plan.kind = .select false
  returns : ∀ value ∈ plan.returns, ∃ shape, value.shape = .columns shape
  fetches : plan.fetches = []
  rowwise : ∀ {prepared : PreparedQuery}, prepared.compiled = some plan →
    ∀ parameters connection,
      prepared.iterate parameters connection ≠ .error (.query .fetchWithCursor)
        ∧ prepared.scroll parameters connection ≠ .error (.query .fetchWithCursor)

variable {compiler : Compiler} {identifier query text : String}
  {substitutions : List (String × String)} {plan : Plan}

theorem openSelect_ne_fetchWithCursor {prepared : PreparedQuery}
    (hplan : prepared.compiled = some plan) (hkind : plan.kind = .select false)
    (operation : Operation) (parameters : Parameters) :
    prepared.openSelect operation parameters ≠ .error (.query .fetchWithCursor) := by
  intro h
  rw [PreparedQuery.openSelect_of_bound hplan hkind rfl] at h
  rcases bind_eq_error h with hbound | ⟨statements, -, hlast⟩
  · rw [PreparedQuery.bound] at hbound
    cases hbind : plan.bind prepared.dialect parameters prepared.filters .sql with
    | error fault | ok statements =>
      rw [hbind] at hbound
      cases hbound
  · cases hstatement : statements.getLast? with
    | none | some statement =>
      rw [hstatement] at hlast
      cases hlast

theorem flat_of_kind (hkind : plan.kind = .select false)
    (hreturns : ∀ value ∈ plan.returns, ∃ shape, value.shape = .columns shape)
    (hfetches : plan.fetches = []) : plan.Flat := by
  refine ⟨hkind, hreturns, hfetches, fun {prepared} hplan parameters connection => ?_⟩
  constructor <;>
    · intro h
      rcases bind_eq_error h with hopen | ⟨_, -, hopened⟩
      · exact openSelect_ne_fetchWithCursor hplan hkind _ _ hopen
      · cases hopened

theorem asked_ofLowered {context : Context} {select : Query.Select}
    (run : Lowered.SelectRun context select) :
    ParameterTable.asked (ofLowered compiler identifier query run.lowered).bindings
      = asked run.sql.atoms := by
  rw [ParameterTable.asked, slots_ofLowered]
  have hstatements : run.lowered.statements = [.select run.sql] := rfl
  rw [hstatements, map_singleton, flatMap_singleton, Statement.slots_template, asked_eq_filter]
  rfl

theorem sameInterface_ofLowered {context shallow : Context} {select : Query.Select}
    {run : Lowered.SelectRun context select} {other : Lowered.SelectRun shallow select}
    (halike : run.projection.Alike other.projection)
    (hasked : asked other.sql.atoms = asked run.sql.atoms) (compiler' : Compiler) :
    (ofLowered compiler identifier query run.lowered).SameInterface
      (ofLowered compiler' identifier query other.lowered) where
  types := by
    have h := congrArg (List.map Prod.fst) halike.returns_eq
    rwa [map_map, map_map] at h
  aliases := by
    have h := congrArg (List.map Prod.snd) halike.returns_eq
    rwa [map_map, map_map] at h
  shape := rfl
  parameters := by
    refine ParameterTable.signature_congr ?_
    rw [asked_ofLowered, asked_ofLowered, hasked]

theorem flat_of_shallow (hshallow : compiler.shallow)
    (h : compile compiler identifier query substitutions = .ok plan)
    (hselect : plan.kind.isManipulation = false) : plan.Flat := by
  obtain ⟨text, select, run, -, -, rfl⟩ := exists_selectRun_of_compile h hselect
  have hflat := run.flat hshallow
  refine flat_of_kind ?_ hflat.returns hflat.fetches
  have hkind : run.projection.fetchesCollection = false := by
    rw [Projection.fetchesCollection, hflat.fetches, any_nil]
  exact congrArg PlanKind.select hkind

/-- Making a query with a select clause shallow keeps its interface, unless it
fails over a filter whose parameters depend on the aliases of tables. Every
shallow query can be read row by row. -/
theorem compile_shallow_interface {entities : List Entity}
    (hmodel : compiler.model = .ofEntities entities) (hvalid : compiler.model.validate = .ok ())
    (identifier query : String) (substitutions : List (String × String)) :
    (∀ {text statement plan}, substituted substitutions query = .ok text →
      parsed text = .ok statement → statement.hasSelectClause →
      compile { compiler with shallow := false } identifier query substitutions = .ok plan →
        (∃ shallow, compile { compiler with shallow := true } identifier query substitutions
            = .ok shallow ∧ plan.SameInterface shallow)
          ∨ ∃ entity ∈ compiler.model.entities, ∃ filter ∈ compiler.filters.on entity,
            ¬filter.Steady ∧ ∃ name,
              compile { compiler with shallow := true } identifier query substitutions
                = .error (.mapping (.defect entity.name (.undeclaredParameter filter.name name))))
    ∧ ∀ {plan}, compile { compiler with shallow := true } identifier query substitutions
        = .ok plan → plan.kind.isManipulation = false → plan.Flat := by
  have hexact : compiler.model.Exact :=
    Metamodel.exact_of_validate (hmodel ▸ Metamodel.named_ofEntities entities) hvalid
  refine ⟨fun {text statement plan} htext hparsed hclause hcompile => ?_, flat_of_shallow rfl⟩
  obtain ⟨select, rfl, hlist⟩ := Query.Statement.hasSelectClause_iff.mp hclause
  rw [compile_eq htext hparsed] at hcompile ⊢
  obtain ⟨lowered, hlower, hplan⟩ := bind_eq_ok.mp hcompile
  obtain rfl := Except.ok.inj hplan
  obtain ⟨⟨_, s⟩, hrun, hlowered⟩ := bind_eq_ok.mp hlower
  obtain rfl := Except.ok.inj hlowered
  obtain ⟨run, rfl, -⟩ := Lowered.exists_selectRun hrun
  rcases run.exists_asShallow hexact hlist with
    ⟨other, hother, halike, hasked⟩ | ⟨entity, hentity, filter, hfilter, hsteady, name, hfault⟩
  · have hshallow : lower { compiler with shallow := true } text (.select select)
        = .ok other.lowered := bind_eq_ok.mpr ⟨_, hother, rfl⟩
    exact .inl ⟨_, bind_eq_ok.mpr ⟨_, hshallow, rfl⟩, sameInterface_ofLowered halike hasked _⟩
  · have hshallow : lower { compiler with shallow := true } text (.select select)
        = .error (.mapping (.defect entity.name (.undeclaredParameter filter.name name))) :=
      congrArg (· >>= _) hfault
    exact .inr ⟨entity, hentity, filter, hfilter, hsteady, name, congrArg (· >>= _) hshallow⟩

end Plan

namespace Sample

/-- A query that fetches a collection and selects a reference. -/
def firmQuery : String :=
  "select p, p.employer as firm from Person p join fetch p.orders where p.age in (:ages)"

/-- Orders with a customer and a region. The filter on regions has a parameter that
is named like one of the aliases of their table. -/
def regionCompiler (shallow : Bool) : Plan.Compiler where
  model := .ofEntities [
    ⟨"Order", "orders", ⟨"id", "id", .integer⟩,
      [⟨"customer", .association (.manyToOne "Customer" "customer_id")⟩,
        ⟨"region", .association (.manyToOne "Region" "region_id")⟩], []⟩,
    ⟨"Customer", "customer", ⟨"id", "id", .integer⟩, [], []⟩,
    ⟨"Region", "region", ⟨"id", "id", .integer⟩, [⟨"title", .basic "title" .string⟩],
      [⟨"scoped", "{alias}.tenant = :{alias}", [("region2_", .integer)]⟩]⟩]
  dialect := .postgres
  filters := ⟨[("scoped", [("region2_", .int 5)])]⟩
  shallow := shallow

end Sample

namespace Plan

/-- The collection is no longer fetched. The filter on persons does not depend on
their alias. -/
theorem compile_shallow_interface_firm : ∃ plan shallow,
    compile { compiler with shallow := false } "q" firmQuery [] = .ok plan
      ∧ compile { compiler with shallow := true } "q" firmQuery [] = .ok shallow
      ∧ plan.kind = .select true
      ∧ shallow.returns.map (·.type) = [.entity "Person", .entity "Company"]
      ∧ shallow.parameters.signature = [(.named "ages", .integer, true)]
      ∧ plan.SameInterface shallow ∧ shallow.Flat := by
  obtain ⟨_, hvalid⟩ := exists_ok_of_isSome (x := compiler.model.validate) (by decide +kernel)
  obtain ⟨statement, hstatement, hclause⟩ := exists_ok_of_any
    (x := substituted [] firmQuery >>= parsed) (p := fun found => decide found.hasSelectClause)
    (by decide +kernel)
  obtain ⟨text, htext, hparsed⟩ := bind_eq_ok.mp hstatement
  refine exists_ok_exists_and (fun plan => plan.kind = .select true) (by decide +kernel)
    fun plan hplan hkind => ?_
  refine exists_ok_and (fun shallow => shallow.kind.isManipulation = false
      ∧ shallow.returns.map (·.type) = [.entity "Person", .entity "Company"]
      ∧ shallow.parameters.signature = [(.named "ages", .integer, true)]) (by decide +kernel)
    fun shallow hshallow htest => ?_
  obtain ⟨hselect, htypes, hsignature⟩ := htest
  obtain ⟨hkept, hflat⟩ := compile_shallow_interface
    (show compiler.model = .ofEntities _ from rfl) hvalid "q" firmQuery []
  rcases hkept htext hparsed (of_decide_eq_true hclause) hplan with
    ⟨other, hother, hsame⟩ | ⟨_, _, _, _, _, _, hfault⟩
  · obtain rfl := Except.ok.inj (hshallow.symm.trans hother)
    exact ⟨hkind, htypes, hsignature, hsame, hflat hshallow hselect⟩
  · cases hshallow.symm.trans hfault

/-- Without the join to the customer the region has another alias, and the
parameter in the filter another name. -/
theorem shallow_filter_undeclared :
    (regionCompiler false).model.validate = .ok ()
      ∧ (∃ plan, compile (regionCompiler false) "q"
        "select o.customer, o.region.title from Order o" [] = .ok plan)
      ∧ compile (regionCompiler true) "q"
        "select o.customer, o.region.title from Order o" []
          = .error (.mapping (.defect "Region" (.undeclaredParameter "scoped" "region1_"))) := by
  obtain ⟨_, hvalid⟩ := exists_ok_of_isSome (x := (regionCompiler false).model.validate)
    (by decide +kernel)
  exact ⟨hvalid, exists_ok_of_isSome (by decide +kernel), by decide +kernel⟩

end Plan

end EntityQuery
