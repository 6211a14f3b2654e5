import EntityQuery.Proofs.Collection
import EntityQuery.Proofs.Plan.Filters

/-!
# The parameters of a plan

Operands are resolved out of order, conditions of joins are resolved early and
written late, and the condition of a delete is resolved once for each statement.
None of this is seen in the bindings of a plan: they are taken from the finished
text, so that each placeholder has the number of its binding and each binding
the number of its statement (`Plan.Numbered`).

The table of parameters sorts the bindings by their sources. What belongs to a
parameter and what comes from filters are all bindings, each of them once
(`ParameterTable.Sorts`).

Every place where a parameter stands in the query is asked for in each statement
of the plan, once (`Plan.Asks`). A select and an update have only one statement,
and a delete has nothing but its condition.
-/

namespace EntityQuery

open List Sql Keyed Atom ParameterSource

open Sql (Atom)

variable {number : Nat} {context : Context} {statement : Statement} {templates : List Template}
  {template : Template} {binding : Binding}

/-! ## The table of parameters -/

namespace ParameterSource

def name? : ParameterSource → Option String
  | .named name => some name
  | _ => none

def position? : ParameterSource → Option Nat
  | .ordinal position => some position
  | _ => none

end ParameterSource

namespace ParameterTable

variable {bindings : List Binding}

def infos (table : ParameterTable) : List (ParameterSource × ParameterInfo) :=
  table.named.map (fun entry => (.named entry.1, entry.2))
    ++ table.ordinal.map fun entry => (.ordinal entry.1, entry.2)

/-- The numbers of the bindings that come from filters. -/
def filterPositions (bindings : List Binding) : List Nat :=
  (bindings.zipIdx.filter (·.1.source.isFilter)).map (·.2)

/-- The table sorts the bindings by their sources. -/
structure Sorts (table : ParameterTable) (bindings : List Binding) : Prop where
  distinct : (table.infos.map (·.1)).Nodup
  increasing : ∀ entry ∈ table.infos, entry.2.positions.Pairwise (· < ·)
  /-- The positions of the parameters and of the filters are all different, and are
  all that there are. -/
  partition : (table.infos.flatMap (·.2.positions) ++ filterPositions bindings).Perm
    (List.range bindings.length)
  own : ∀ entry ∈ table.infos, ∀ position ∈ entry.2.positions,
    ∃ binding, bindings[position]? = some binding ∧ binding.source = entry.1
  expandable_iff : ∀ entry ∈ table.infos, entry.2.expandable = true ↔
    ∀ position ∈ entry.2.positions, ∀ binding, bindings[position]? = some binding →
      binding.expandable = true
  type_eq : ∀ entry ∈ table.infos, ∃ position binding, entry.2.positions.head? = some position
    ∧ bindings[position]? = some binding ∧ entry.2.type = binding.type

def sources (bindings : List Binding) : List ParameterSource :=
  (names bindings).map .named ++ (positions bindings).map .ordinal

theorem names_eq : names bindings = (bindings.filterMap (·.source.name?)).foldl
    (fun keys key => insertKey key keys) [] := by
  rw [names, foldl_filterMap]
  congr 1
  funext keys binding
  cases binding.source <;> rfl

theorem positions_eq : positions bindings = (bindings.filterMap (·.source.position?)).foldl
    (fun keys key => insertKey key keys) [] := by
  rw [positions, foldl_filterMap]
  congr 1
  funext keys binding
  cases binding.source <;> rfl

theorem mem_names {name : String} :
    name ∈ names bindings ↔ ∃ binding ∈ bindings, binding.source = .named name := by
  rw [names_eq, mem_foldl_insertKey]
  simp only [mem_filterMap, not_mem_nil, or_false]
  refine exists_congr fun binding => and_congr_right fun _ => ?_
  cases binding.source <;> simp [name?]

theorem mem_positions {position : Nat} :
    position ∈ positions bindings ↔ ∃ binding ∈ bindings, binding.source = .ordinal position := by
  rw [positions_eq, mem_foldl_insertKey]
  simp only [mem_filterMap, not_mem_nil, or_false]
  refine exists_congr fun binding => and_congr_right fun _ => ?_
  cases binding.source <;> simp [position?]

theorem mem_sources {source : ParameterSource} :
    source ∈ sources bindings ↔ source.isFilter = false ∧ ∃ binding ∈ bindings,
      binding.source = source := by
  cases source with
  | named name => simp [sources, mem_names, isFilter]
  | ordinal position => simp [sources, mem_positions, isFilter]
  | filter owner parameter => simp [sources, isFilter]

theorem nodup_sources : (sources bindings).Nodup := by
  have hnames : (names bindings).Nodup := by
    rw [names_eq]
    exact (pairwise_foldl_insertKey _ .nil).imp ne_of_lt
  have hpositions : (positions bindings).Nodup := by
    rw [positions_eq]
    exact (pairwise_foldl_insertKey _ .nil).imp ne_of_lt
  refine (hnames.map fun _ _ => named.inj).append (hpositions.map fun _ _ => ordinal.inj) ?_
  intro source hnamed hordinal
  obtain ⟨name, -, rfl⟩ := mem_map.mp hnamed
  obtain ⟨position, -, hsource⟩ := mem_map.mp hordinal
  cases hsource

theorem mem_uses {source : ParameterSource} {position : Nat} :
    (binding, position) ∈ uses bindings source
      ↔ bindings[position]? = some binding ∧ binding.source = source := by
  rw [uses, mem_filter, mem_zipIdx_iff_getElem?, beq_iff_eq]

theorem infos_ofBindings : (ofBindings bindings).infos = (sources bindings).filterMap
    fun source => (ParameterInfo.ofUses? (uses bindings source)).map fun info => (source, info) := by
  rw [infos, sources, filterMap_append, ofBindings, map_filterMap, map_filterMap,
    filterMap_map, filterMap_map]
  simp only [Option.map_map, Function.comp_def]

/-- What is known about a parameter is read off its uses, of which there is one at
least. -/
theorem ofUses?_eq_some {found : List (Binding × Nat)} {info : ParameterInfo}
    (h : ParameterInfo.ofUses? found = some info) :
    ∃ first rest, found = first :: rest ∧ info.type = first.1.type
      ∧ info.positions = found.map (·.2) ∧ info.expandable = found.all (·.1.expandable) := by
  cases found with
  | nil => cases h
  | cons first rest =>
    obtain rfl := Option.some.inj h
    exact ⟨first, rest, rfl, rfl, rfl, rfl⟩

theorem mem_infos {entry : ParameterSource × ParameterInfo}
    (h : entry ∈ (ofBindings bindings).infos) :
    entry.1 ∈ sources bindings ∧ ParameterInfo.ofUses? (uses bindings entry.1) = some entry.2 := by
  rw [infos_ofBindings] at h
  obtain ⟨source, hsource, hfound⟩ := mem_filterMap.mp h
  obtain ⟨info, hinfo, rfl⟩ := Option.map_eq_some_iff.mp hfound
  exact ⟨hsource, hinfo⟩

theorem flatMap_positions_infos :
    (ofBindings bindings).infos.flatMap (·.2.positions)
      = (sources bindings).flatMap fun source => (uses bindings source).map (·.2) := by
  rw [infos_ofBindings, filterMap_eq_flatMap_toList, flatMap_assoc]
  refine flatMap_congr fun source _ => ?_
  cases huses : uses bindings source with
  | nil => rfl
  | cons first rest => simp [ParameterInfo.ofUses?]

/-- The uses of the parameters and the bindings of filters are all bindings. -/
theorem partition_sources :
    ((sources bindings).flatMap (fun source => (uses bindings source).map (·.2))
      ++ filterPositions bindings).Perm (List.range bindings.length) := by
  let others := bindings.zipIdx.filter fun entry => !entry.1.source.isFilter
  have hothers : ∀ entry ∈ others, entry.1.source ∈ sources bindings := by
    intro entry hentry
    obtain ⟨hmem, hfilter⟩ := mem_filter.mp hentry
    refine mem_sources.mpr ⟨by simpa using hfilter, entry.1, ?_, rfl⟩
    exact mem_of_getElem? (mem_zipIdx_iff_getElem?.mp hmem)
  have hgroups := Scope.flatMap_filter_perm (fun entry : Binding × Nat => entry.1.source)
    (sources bindings) others nodup_sources hothers
  -- A use of a parameter is none of a filter.
  have huses : ∀ source ∈ sources bindings,
      others.filter (·.1.source == source) = uses bindings source := by
    intro source hsource
    rw [filter_filter, uses]
    refine filter_congr fun entry _ => ?_
    by_cases h : entry.1.source = source
    · simp [h, (mem_sources.mp hsource).1]
    · simp [h]
  rw [flatMap_congr huses] at hgroups
  have hall : (bindings.zipIdx.filter (fun entry => !entry.1.source.isFilter)
      ++ bindings.zipIdx.filter (·.1.source.isFilter)).Perm bindings.zipIdx :=
    perm_append_comm.trans (filter_append_perm ..)
  have hboth := ((hgroups.append_right _).trans hall).map Prod.snd
  rwa [map_append, map_flatMap, zipIdx_map_snd, ← range_eq_range'] at hboth

theorem ofBindings_sorts (bindings : List Binding) : (ofBindings bindings).Sorts bindings := by
  constructor
  · rw [infos_ofBindings, map_filterMap]
    refine nodup_sources.filterMap fun source source' found hfound hfound' => ?_
    simp only [Option.map_map, Option.mem_def, Option.map_eq_some_iff] at hfound hfound'
    obtain ⟨_, -, hsource⟩ := hfound
    obtain ⟨_, -, hsource'⟩ := hfound'
    exact hsource.trans hsource'.symm
  · intro entry hentry
    obtain ⟨first, rest, -, -, hpositions, -⟩ := ofUses?_eq_some (mem_infos hentry).2
    rw [hpositions]
    have hrange : (bindings.zipIdx.map (·.2)).Pairwise (· < ·) := by
      rw [zipIdx_map_snd]
      exact pairwise_lt_range'
    exact hrange.sublist (filter_sublist.map _)
  · rw [flatMap_positions_infos]
    exact partition_sources
  · intro entry hentry position hposition
    obtain ⟨first, rest, -, -, hpositions, -⟩ := ofUses?_eq_some (mem_infos hentry).2
    rw [hpositions] at hposition
    obtain ⟨⟨binding, _⟩, huse, rfl⟩ := mem_map.mp hposition
    exact ⟨binding, mem_uses.mp huse⟩
  · intro entry hentry
    obtain ⟨first, rest, -, -, hpositions, hexpandable⟩ := ofUses?_eq_some (mem_infos hentry).2
    rw [hexpandable, hpositions, all_eq_true]
    constructor
    · intro hall position hposition binding hbinding
      obtain ⟨⟨binding', _⟩, huse, rfl⟩ := mem_map.mp hposition
      obtain rfl := Option.some.inj ((mem_uses.mp huse).1.symm.trans hbinding)
      exact hall _ huse
    · rintro hall ⟨binding, position⟩ huse
      exact hall position (mem_map_of_mem huse) binding (mem_uses.mp huse).1
  · intro entry hentry
    obtain ⟨⟨binding, position⟩, rest, huses, htype, hpositions, -⟩ :=
      ofUses?_eq_some (mem_infos hentry).2
    refine ⟨position, binding, ?_, ?_, htype⟩
    · rw [hpositions, huses]
      rfl
    · exact (mem_uses.mp (huses ▸ mem_cons_self ..)).1

end ParameterTable

/-! ## Placeholders and statements -/

namespace Binding

def ofTemplates (index : Nat) (templates : List Template) : List Binding :=
  (templates.zipIdx index).flatMap fun entry => ofTemplate entry.1 entry.2

theorem statement_ofTemplate (template : Template) (number : Nat) :
    ∀ binding ∈ ofTemplate template number, binding.statement = number := by
  intro binding hbinding
  obtain ⟨slot, -, rfl⟩ := mem_map.mp hbinding
  rfl

theorem le_statement_of_mem {index : Nat} (h : binding ∈ ofTemplates index templates) :
    index ≤ binding.statement := by
  obtain ⟨entry, hentry, hbinding⟩ := mem_flatMap.mp h
  rw [statement_ofTemplate _ _ binding hbinding]
  exact le_snd_of_mem_zipIdx hentry

theorem filter_zipIdx_eq_self {start : Nat} {bindings : List Binding}
    (h : ∀ binding ∈ bindings, binding.statement = number) :
    (bindings.zipIdx start).filter (·.1.statement == number) = bindings.zipIdx start := by
  refine filter_eq_self.mpr fun entry hentry => ?_
  simp [h entry.1 (fst_mem_of_mem_zipIdx hentry)]

theorem filter_zipIdx_eq_nil {start : Nat} {bindings : List Binding}
    (h : ∀ binding ∈ bindings, binding.statement ≠ number) :
    (bindings.zipIdx start).filter (·.1.statement == number) = [] := by
  refine filter_eq_nil_iff.mpr fun entry hentry => ?_
  simp [h entry.1 (fst_mem_of_mem_zipIdx hentry)]

theorem filter_ofTemplates (dialect : Dialect) :
    ∀ {templates : List Template} {k : Nat}, templates[k]? = some template →
      ∀ index start, ∃ first,
        (PlannedStatement.ofTemplates dialect start templates)[k]?
            = some (.ofTemplate dialect first template)
          ∧ ((ofTemplates index templates).zipIdx start).filter (·.1.statement == index + k)
            = (ofTemplate template (index + k)).zipIdx first
  | head :: rest, k, h, index, start => by
    have hsplit : (ofTemplates index (head :: rest)).zipIdx start
        = (ofTemplate head index).zipIdx start
          ++ (ofTemplates (index + 1) rest).zipIdx (start + head.slots.length) := by
      rw [ofTemplates, zipIdx_cons, flatMap_cons, zipIdx_append, ofTemplate, length_map]
      rfl
    rw [hsplit, filter_append]
    cases k with
    | zero =>
      obtain rfl := Option.some.inj h
      refine ⟨start, rfl, ?_⟩
      rw [Nat.add_zero, filter_zipIdx_eq_self (statement_ofTemplate _ _), filter_zipIdx_eq_nil,
        append_nil]
      intro binding hbinding
      have hle := le_statement_of_mem hbinding
      omega
    | succ k =>
      obtain ⟨first, hplanned, hfilter⟩ := filter_ofTemplates dialect (show rest[k]? = _ from h)
        (index + 1) (start + head.slots.length)
      refine ⟨first, hplanned, ?_⟩
      rw [filter_zipIdx_eq_nil, nil_append, show index + (k + 1) = index + 1 + k by omega, hfilter]
      intro binding hbinding
      rw [statement_ofTemplate _ _ binding hbinding]
      omega

end Binding

theorem PlannedStatement.length_ofTemplates (dialect : Dialect) :
    ∀ (templates : List Template) (start : Nat),
      (ofTemplates dialect start templates).length = templates.length
  | [], _ => rfl
  | _ :: rest, _ => congrArg (· + 1) (length_ofTemplates dialect rest _)

namespace Plan

def positionsIn (plan : Plan) (number : Nat) : List Nat :=
  (plan.bindings.zipIdx.filter (·.1.statement == number)).map (·.2)

def sourcesIn (plan : Plan) (number : Nat) : List ParameterSource :=
  ((plan.bindings.filter (·.statement == number)).map (·.source)).filter (!·.isFilter)

/-- The placeholders of the statements, read in order, have the numbers of the
bindings, and those of a statement have the numbers of its bindings. -/
structure Numbered (plan : Plan) : Prop where
  counted : plan.statements.flatMap (Fragment.bindings ·.fragments)
    = List.range plan.bindings.length
  placed : ∀ {number : Nat} {statement : PlannedStatement},
    plan.statements[number]? = some statement →
      Fragment.bindings statement.fragments = plan.positionsIn number

/-- Each statement of the plan asks for each parameter of the query as often as it
stands there. -/
structure Asks (plan : Plan) (statement : Query.Statement) : Prop where
  nonempty : plan.statements ≠ []
  single : plan.kind ≠ .delete → plan.statements.length = 1
  asked : ∀ number < plan.statements.length,
    (plan.sourcesIn number).Perm (Query.parameters statement.exprs)

end Plan

/-! ## What a statement asks for -/

namespace Sql

def Atom.sources (atoms : List Atom) : List ParameterSource :=
  ((slots atoms).map (·.source)).filter (!·.isFilter)

end Sql

theorem Resolves.sources_eq {s s' : Scope} {exprs : List Query.Expr} {atoms : List Atom}
    (h : Resolves context s exprs atoms s') : (sources atoms).Perm (Query.parameters exprs) := by
  have hself : (Query.parameters exprs).filter (!·.isFilter) = Query.parameters exprs :=
    filter_eq_self.mpr fun source hsource => by simp [isFilter_eq_false hsource]
  rw [← hself]
  exact h.sources_perm.filter _

/-- The parameters of a statement, but for those of filters. -/
def slotCollection : Collection Slot Slot where
  table _ _ := []
  atom? atom := atom.slot?.filter (!·.source.isFilter)
  item := id
  filter slot h := by simp [slot?, h]

namespace Sql.Atom

def asked (atoms : List Atom) : List Slot :=
  slotCollection.ofAtoms atoms

theorem asked_eq_filter (atoms : List Atom) :
    asked atoms = (slots atoms).filter (!·.source.isFilter) := by
  rw [slots, filter_filterMap]
  exact map_id _

theorem sources_eq (atoms : List Atom) : sources atoms = (asked atoms).map (·.source) := by
  rw [sources, filter_map, asked_eq_filter]
  rfl

theorem asked_append (atoms more : List Atom) :
    asked (atoms ++ more) = asked atoms ++ asked more :=
  slotCollection.ofAtoms_append ..

/-- Of the from clause, the conditions of joins ask for parameters. -/
theorem asked_ranges (ranges : List TableRange) :
    asked (ranges.flatMap TableRange.atoms) = ranges.flatMap slotCollection.ofRange := by
  rw [asked, Collection.ofAtoms_flatMap]
  exact flatMap_congr fun range _ => Collection.ofAtoms_flatMap ..

end Sql.Atom

/-- Each parameter is asked for in one place. -/
theorem kept_asked : slotCollection.Kept context
    fun _ exprs found => (found.map (·.source)).Perm (Query.parameters exprs) where
  empty _ := .refl _
  same _ _ _ h := h
  perm hexprs hfound h := ((hfound.map _).symm.trans h).trans (hexprs.flatMap_right _)
  root _ _ h := (append_nil _).symm ▸ h
  join _ _ _ _ _ _ h := by
    rwa [show slotCollection.ofKeys = fun _ => [] from rfl, flatMap_eq_nil_iff.mpr fun _ _ => rfl,
      append_nil]
  parameter type expandable hsource h := by
    have hasked := Resolves.sources_eq (s := {})
      (.parameter hsource : Resolves context _ _ [.slot ⟨_, type, expandable⟩] _)
    rw [map_append, Query.parameters_append]
    exact h.append (sources_eq _ ▸ hasked)
  column _ _ h := (append_nil _).symm ▸ h
  lookup _ _ _ _ h := by
    rw [map_append, Query.parameters_append]
    exact h.append (.refl _)
  children hparameter h := by
    rwa [Query.parameters_append, Resolves.parameters_of_children hparameter,
      ← Query.parameters_append]

namespace Lowered.SelectRun

variable {context : Context} {select : Query.Select} (run : SelectRun context select)

theorem asked_filters : asked (run.sql.filters.flatMap filterAtoms) = [] := by
  obtain ⟨tables, -, hfilters, -, hrooted⟩ := Scope.filtered_eq_ok run.filterRun
  rw [show run.sql.filters = run.filters from rfl, hrooted, flatMap_assoc, asked,
    Collection.ofAtoms_flatMap]
  refine flatMap_eq_nil_iff.mpr fun table htable => ?_
  unfold FilteredEntry.rooted
  split
  · exact slotCollection.ofAtoms_filters (hfilters table htable)
  · rfl

theorem asked_eq : asked run.sql.atoms = asked run.projection.atoms
    ++ run.sql.ranges.flatMap slotCollection.ofRange ++ asked (optionAtoms run.condition)
    ++ asked (run.groupBy.flatMap Term.atoms) ++ asked (optionAtoms run.having)
    ++ asked (run.orderBy.flatMap fun item => item.1.atoms) := by
  simp only [Select.atoms, asked_append, asked_ranges, run.asked_filters, append_nil]
  rfl

theorem sources_perm : (sources run.sql.atoms).Perm (Query.parameters select.exprs) := by
  refine .trans (sources_eq _ ▸ .map _ ?_) (kept_asked.select run)
  rw [run.asked_eq, Collection.ofSelect, Select.clauseAtoms]
  simp only [Collection.ofAtoms_append, ← append_assoc]
  exact (((perm_append_comm.append_right _).append_right _).append_right _).append_right _

end Lowered.SelectRun

namespace Plan

variable {compiler : Compiler} {identifier query : String} {lowered : Lowered}
  {substitutions : List (String × String)} {plan : Plan}

theorem filter_bindings_ofLowered (compiler : Compiler) (identifier query : String)
    (h : lowered.statements[number]? = some statement) : ∃ first,
      (ofLowered compiler identifier query lowered).statements[number]?
          = some (.ofTemplate compiler.dialect first (statement.template compiler.dialect))
        ∧ (ofLowered compiler identifier query lowered).bindings.zipIdx.filter
            (·.1.statement == number)
          = (Binding.ofTemplate (statement.template compiler.dialect) number).zipIdx first := by
  have htemplate : (lowered.statements.map (Statement.template compiler.dialect))[number]?
      = some (statement.template compiler.dialect) := by
    rw [List.getElem?_map, h]
    rfl
  have hfilter := Binding.filter_ofTemplates compiler.dialect htemplate 0 0
  rwa [Nat.zero_add] at hfilter

theorem length_statements : (ofLowered compiler identifier query lowered).statements.length
    = lowered.statements.length := by
  rw [ofLowered, PlannedStatement.length_ofTemplates, length_map]

theorem numbered_ofLowered : (ofLowered compiler identifier query lowered).Numbered := by
  refine ⟨bindings_ofLowered, fun {number planned} hplanned => ?_⟩
  have hlt := (List.getElem?_eq_some_iff.mp hplanned).1
  rw [length_statements] at hlt
  obtain ⟨first, hstatement, hfilter⟩ := filter_bindings_ofLowered compiler identifier query
    (List.getElem?_eq_getElem hlt)
  obtain rfl := Option.some.inj (hplanned.symm.trans hstatement)
  rw [positionsIn, hfilter, zipIdx_map_snd, Binding.ofTemplate, length_map]
  exact Fragment.bindings_number ..

theorem bindings_ofStatement (h : lowered.statements[number]? = some statement) :
    (ofLowered compiler identifier query lowered).bindings.filter (·.statement == number)
      = Binding.ofTemplate (statement.template compiler.dialect) number := by
  obtain ⟨first, -, hfilter⟩ := filter_bindings_ofLowered compiler identifier query h
  rw [← zipIdx_map_fst first (Binding.ofTemplate _ _), ← hfilter]
  conv_lhs => rw [← zipIdx_map_fst 0 (ofLowered compiler identifier query lowered).bindings,
    filter_map]
  rfl

theorem sourcesIn_ofLowered (h : lowered.statements[number]? = some statement) :
    (ofLowered compiler identifier query lowered).sourcesIn number
      = sources statement.atoms := by
  rw [sourcesIn, bindings_ofStatement h, sources, ← statement.slots_template compiler.dialect,
    Binding.ofTemplate, map_map]
  rfl

/-- A statement that is compiled into several asks for its parameters in each. -/
theorem asks_ofLowered {statement : Query.Statement} (hne : lowered.statements ≠ [])
    (hsingle : lowered.kind ≠ .delete → lowered.statements.length = 1)
    (hsources : ∀ written ∈ lowered.statements,
      (sources written.atoms).Perm (Query.parameters statement.exprs)) :
    (ofLowered compiler identifier query lowered).Asks statement := by
  refine ⟨?_, ?_, ?_⟩
  · rwa [← length_pos_iff, length_statements, length_pos_iff]
  · rw [length_statements]
    exact hsingle
  · intro number hnumber
    rw [length_statements] at hnumber
    rw [sourcesIn_ofLowered (List.getElem?_eq_getElem hnumber)]
    exact hsources _ (getElem_mem hnumber)

theorem asks_ofBulk {kind : PlanKind} {statement : Query.Statement} {scope : Scope}
    (h : lowered.Bulk context kind statement.exprs scope) :
    (ofLowered compiler identifier query lowered).Asks statement := by
  refine asks_ofLowered h.nonempty (h.kind_eq ▸ h.single) fun written hwritten => ?_
  obtain ⟨s, s', hresolves⟩ := h.each written hwritten
  exact hresolves.sources_eq

/-- Placeholders and bindings agree in number and place, the table of parameters
sorts the bindings, and every statement asks for each parameter of the query at
each place where it stands there. -/
theorem compile_parameters_bound
    (h : compile compiler identifier query substitutions = .ok plan) :
    plan.Numbered ∧ plan.parameters.Sorts plan.bindings
      ∧ ∃ text statement, substituted substitutions query = .ok text
        ∧ parsed text = .ok statement ∧ plan.Asks statement := by
  obtain ⟨text, statement, lowered, s, htext, hparsed, hrun, rfl⟩ := compile_eq_ok h
  refine ⟨numbered_ofLowered, ParameterTable.ofBindings_sorts _, text, statement, htext, hparsed,
    ?_⟩
  cases statement with
  | select select =>
    obtain ⟨run, rfl, -⟩ := Lowered.exists_selectRun hrun
    exact asks_ofLowered (cons_ne_nil _ _) (fun _ => rfl)
      (forall_mem_singleton.mpr run.sources_perm)
  | update update => exact asks_ofBulk (Lowered.ofUpdate_run hrun)
  | delete delete => exact asks_ofBulk (Lowered.ofDelete_run hrun)

/-- A parameter on a join and again in the where clause, where it is resolved
after the operand behind it, and a filter between the two; and a delete whose
parameter is asked for by two statements. -/
theorem compile_parameters_bound_repeated : ∃ plan plan',
    compile Sample.compiler "q"
        "select o from Order o join o.customer c with c.age > :low where :low < c.age and o.total in (?1)"
        [] = .ok plan
      ∧ compile Sample.compiler "d" "delete from Person p where :name = p.name" [] = .ok plan'
      ∧ plan.bindings.map (·.source)
        = [.named "low", .filter "adults" "minAge", .named "low", .ordinal 1]
      ∧ plan'.bindings.map (·.statement) = [0, 1]
      ∧ plan.Numbered ∧ plan.parameters.Sorts plan.bindings
      ∧ plan'.Numbered ∧ plan'.parameters.Sorts plan'.bindings
      ∧ ∃ statement statement', plan.Asks statement ∧ plan'.Asks statement' := by
  refine exists_ok_exists_and (fun plan => plan.bindings.map (·.source)
      = [.named "low", .filter "adults" "minAge", .named "low", .ordinal 1]) (by decide +kernel)
    fun plan hplan hsources => ?_
  refine exists_ok_and (fun plan => plan.bindings.map (·.statement) = [0, 1]) (by decide +kernel)
    fun plan' hplan' hstatements => ?_
  obtain ⟨hnumbered, hsorts, -, statement, -, -, hasks⟩ := compile_parameters_bound hplan
  obtain ⟨hnumbered', hsorts', -, statement', -, -, hasks'⟩ := compile_parameters_bound hplan'
  exact ⟨hsources, hstatements, hnumbered, hsorts, hnumbered', hsorts', statement, statement',
    hasks, hasks'⟩

end Plan

end EntityQuery
