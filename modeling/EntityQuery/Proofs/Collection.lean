import EntityQuery.Proofs.Scope.Filter
import EntityQuery.Proofs.Select

/-!
# What is collected from a statement

The aliases that a statement declares, the tables that it names and the parameters
that it asks for are all gathered in the same way: from the tables of its from
clause, from the conditions of their joins, and from its other clauses. While the
statement is compiled, the tables and the conditions are those of the scope.

`Collection.Kept` says what the steps of compiling have to keep of what was
collected so far. Then it holds of the whole statement (`Kept.select`,
`Kept.bulk`).
-/

namespace EntityQuery

open List Sql

open Sql (Atom)

/-- What is taken of each table, by its name and its alias, and of some of the atoms.
Parameters of filters are not among them. -/
structure Collection (α β : Type) where
  table : String → Option String → List β
  atom? : Atom → Option α
  item : α → β
  filter : ∀ slot : Slot, slot.source.isFilter = true → atom? (.slot slot) = none

namespace Collection

variable {α β : Type} (c : Collection α β)

/-- What is taken of tables, also of those of subqueries. -/
def ofTables (table : String → Option String → List β) (item : KeyLookup → β) :
    Collection KeyLookup β :=
  ⟨table, Atom.lookup?, item, fun _ _ => rfl⟩

def ofAtoms (atoms : List Atom) : List β :=
  (atoms.filterMap c.atom?).map c.item

/-- What is taken of a joined table that has no conditions. -/
def ofKeys (joined : JoinedTable) : List β :=
  c.table joined.table (some joined.tableAlias)
    ++ c.ofAtoms [.column joined.left, .column joined.right]

def ofJoined (joined : JoinedTable) : List β :=
  c.table joined.table (some joined.tableAlias) ++ c.ofAtoms joined.atoms

def ofRange (range : TableRange) : List β :=
  c.table range.table range.tableAlias ++ range.joins.flatMap c.ofJoined

def ofEntry (entry : ScopeEntry) : List β :=
  (if entry.origin.isNone then c.table entry.element.entity.table entry.element.tableAlias else [])
    ++ entry.joinedTables.flatMap c.ofJoined

def ofScope (scope : Scope) : List β :=
  scope.entries.flatMap c.ofEntry

def ofSelect (select : Select) : List β :=
  select.ranges.flatMap c.ofRange ++ c.ofAtoms select.clauseAtoms

theorem ofAtoms_append (atoms more : List Atom) :
    c.ofAtoms (atoms ++ more) = c.ofAtoms atoms ++ c.ofAtoms more := by
  rw [ofAtoms, filterMap_append, map_append]
  rfl

theorem ofAtoms_flatMap {γ : Type} (parts : List γ) (atoms : γ → List Atom) :
    c.ofAtoms (parts.flatMap atoms) = parts.flatMap fun part => c.ofAtoms (atoms part) := by
  rw [ofAtoms, filterMap_flatMap, map_flatMap]
  rfl

theorem ofAtoms_perm {atoms atoms' : List Atom} (h : atoms.Perm atoms') :
    (c.ofAtoms atoms).Perm (c.ofAtoms atoms') :=
  (h.filterMap _).map _

/-! ## Conditions and filters on joins -/

variable {element : Element} {origin : JoinOrigin} {s s' : Scope} {before added : List ScopeEntry}
  {context : Context} {enabled : EnabledFilters}

/-- Conditions on a join are collected with its table. -/
theorem ofEntry_restrict (conditions : List Condition) :
    c.ofEntry (ScopeEntry.restrict ⟨element, some origin⟩ conditions)
      = c.ofEntry ⟨element, some origin⟩ ++ c.ofAtoms (conditions.flatMap Condition.atoms) := by
  simp [ScopeEntry.restrict, ofEntry, ScopeEntry.joinedTables, ofJoined, JoinedTable.atoms, ofAtoms]
  rw [← map_append, ← filterMap_append]
  rfl

theorem ofEntry_bare (h : ScopeEntry.Bare ⟨element, some origin⟩) :
    c.ofEntry ⟨element, some origin⟩ = (origin.link.toList ++ [origin.target]).flatMap c.ofKeys := by
  refine flatMap_congr fun joined hjoined => ?_
  rw [ofJoined, JoinedTable.atoms, h joined hjoined]
  rfl

theorem ofScope_addFound {found : Option Term}
    (hentries : s.entries = before ++ ⟨element, some origin⟩ :: added) :
    (c.ofScope (s.addFound before.length found)).Perm
      (c.ofScope s ++ c.ofAtoms (optionAtoms found)) := by
  rw [ofScope, ofScope, FromClause.Sound.addFound_entries hentries, hentries]
  simp only [flatMap_append, flatMap_cons, c.ofEntry_restrict, flatMap_map, append_assoc]
  exact (perm_append_comm.append_left _).append_left _

/-- A filter has parameters of filters only. -/
theorem ofAtoms_filters {found : List Template} (h : element.filters enabled = .ok found) :
    c.ofAtoms (found.flatMap filterAtoms) = [] := by
  rw [ofAtoms_flatMap]
  refine flatMap_eq_nil_iff.mpr fun template htemplate => ?_
  obtain ⟨filter, -, hfilter⟩ := exists_left_of_forall₂ (mapM_eq_ok_iff.mp h) htemplate
  have hslots := (Filter.renders_of_template hfilter).filterSlots_eq
  rw [ofAtoms, map_eq_nil_iff, filterMap_eq_nil_iff, filterAtoms]
  refine forall_mem_map.mpr fun slot hslot => c.filter slot ?_
  rw [← hslots] at hslot
  exact (mem_filter.mp hslot).2

theorem ofRanges_filtered {rooted : List Template} (h : s.filtered enabled = .ok (s', rooted)) :
    s'.ranges.flatMap c.ofRange = s.ranges.flatMap c.ofRange := by
  obtain ⟨tables, hentries, hfilters, rfl, -⟩ := Scope.filtered_eq_ok h
  have hroots : Scope.roots { s with entries := tables.map (·.restricted) } = s.roots := by
    rw [Scope.roots, Scope.roots, hentries, filter_map, filter_map, map_map, map_map]
    congr 1
    exact filter_congr fun table _ => Option.isNone_map
  rw [Scope.ranges, Scope.ranges, hroots, flatMap_map, flatMap_map, hentries]
  refine flatMap_congr fun root _ => congrArg (c.table _ _ ++ ·) ?_
  rw [filter_map, filter_map, flatMap_map, flatMap_map, flatMap_assoc, flatMap_assoc]
  refine flatMap_congr fun table htable => ?_
  have hnone := c.ofAtoms_filters (hfilters table (mem_of_mem_filter htable))
  obtain ⟨⟨element, origin⟩, filters⟩ := table
  cases origin with
  | none => rfl
  | some origin =>
    have hrestrict : c.ofEntry (ScopeEntry.restrict ⟨element, some origin⟩ (filters.map .filter))
        = _ := c.ofEntry_restrict _
    rw [flatMap_map] at hrestrict
    exact hrestrict.trans ((congrArg (_ ++ ·) hnone).trans (append_nil _))

/-! ## What the steps keep -/

variable {c} {P : Scope → List Query.Expr → List β → Prop}

/-- What holds of a scope, of the expressions that have been resolved and of what has
been collected, and is kept by every step. -/
structure Kept (c : Collection α β) (context : Context)
    (P : Scope → List Query.Expr → List β → Prop) : Prop where
  empty : ∀ bulk, P { bulk := bulk } [] []
  same : ∀ {s s' exprs found}, s'.elements = s.elements → s'.counter = s.counter →
    s'.tables = s.tables → P s exprs found → P s' exprs found
  perm : ∀ {s exprs exprs' found found'}, exprs.Perm exprs' → found.Perm found' →
    P s exprs found → P s exprs' found'
  root : ∀ {s exprs found name entity} (alias? : Option String),
    context.model.entity name = .ok entity → P s exprs found →
      P (s.withRoot entity alias?) exprs (found ++ c.ofEntry (s.rootEntry entity))
  join : ∀ {s s₁ exprs found kind parent name property association target tableAlias origin}
    (alias? : Option String), parent ∈ s.elements → parent.entity.property name = .ok property →
      property.kind = .association association →
      context.model.entity association.target = .ok target →
      (Scope.joinOrigin kind parent name association target).run s
        = .ok ((tableAlias, origin), s₁) →
      P s exprs found →
        P ((s₁.addTable target.table).withEntry
            ⟨⟨s.entries.length, parent.range, target, some tableAlias⟩, some origin⟩ alias?) exprs
          (found ++ (origin.link.toList ++ [origin.target]).flatMap c.ofKeys)
  parameter : ∀ {s exprs found expr source} (type : SemanticType) (expandable : Bool),
    expr.parameter? = some source → P s exprs found →
      P s (exprs ++ [expr]) (found ++ c.ofAtoms [.slot ⟨source, type, expandable⟩])
  column : ∀ {s exprs found owner} (column : String), owner ∈ s.elements → P s exprs found →
    P s exprs (found ++ c.ofAtoms [.column (owner.column column)])
  lookup : ∀ {s exprs found owner path association table keyColumn} (negated : Bool),
    owner ∈ s.elements → owner.entity.Declares path association →
      context.model.Holds association table keyColumn → P s exprs found →
        P (s.addTable table).countAlias (exprs ++ [.isEmpty (.path path) negated])
          (found ++ c.ofAtoms [.lookup ⟨table, s.freshAlias (aliasStem Char.isAlphanum table),
            keyColumn, owner.outerColumn owner.entity.identifier.column⟩])
  children : ∀ {s exprs found expr}, expr.parameter? = none →
    P s (exprs ++ expr.children) found → P s (exprs ++ [expr]) found

namespace Kept

theorem append_comm (hk : c.Kept context P) {exprs : List Query.Expr} {found more used : List β}
    (h : P s exprs (found ++ used ++ more)) : P s exprs (found ++ more ++ used) := by
  refine hk.perm (.refl _) ?_ h
  rw [append_assoc, append_assoc]
  exact perm_append_comm.append_left _

theorem withRoot (hk : c.Kept context P) {exprs : List Query.Expr} {used : List β} {name : String}
    {entity : Entity} (alias? : Option String) (hentity : context.model.entity name = .ok entity)
    (h : P s exprs (c.ofScope s ++ used)) :
    P (s.withRoot entity alias?) exprs (c.ofScope (s.withRoot entity alias?) ++ used) := by
  rw [ofScope, Scope.entries_withRoot, flatMap_append, flatMap_singleton]
  exact hk.append_comm (hk.root alias? hentity h)

theorem joinStep (hk : c.Kept context P) {exprs : List Query.Expr} {used : List β}
    (hstep : Scope.JoinStep context s s') (h : P s exprs (c.ofScope s ++ used)) :
    P s' exprs (c.ofScope s' ++ used) := by
  cases hstep with
  | join hparent hproperty hkind htarget horigin hfree hbulk =>
    obtain ⟨hleads, hsame⟩ := Scope.joinOrigin_run horigin
    rw [ofScope, hsame.entries_withEntry, flatMap_append, flatMap_singleton,
      c.ofEntry_bare hleads.entry_bare]
    exact hk.append_comm (hk.join _ hparent hproperty hkind htarget horigin h)
  | remember => exact hk.same (s := s) rfl rfl rfl h

theorem joins (hk : c.Kept context P) {exprs : List Query.Expr} {used : List β}
    (hjoins : Scope.Joins context s s') (h : P s exprs (c.ofScope s ++ used)) :
    P s' exprs (c.ofScope s' ++ used) :=
  hjoins.induction (P := fun s => P s exprs (c.ofScope s ++ used)) hk.joinStep h

theorem resolves (hk : c.Kept context P) {exprs : List Query.Expr} {atoms : List Atom}
    (h : Resolves context s exprs atoms s') : ∀ {done : List Query.Expr} {used : List β},
      P s done (c.ofScope s ++ used) →
        P s' (done ++ exprs) (c.ofScope s' ++ (used ++ c.ofAtoms atoms)) := by
  induction h with
  | nothing =>
    intro done used hs
    rwa [append_nil, show c.ofAtoms [] = [] from rfl, append_nil]
  | parameter hsource =>
    intro done used hs
    rw [← append_assoc]
    exact hk.parameter _ _ hsource hs
  | column howner =>
    intro done used hs
    rw [← append_assoc, append_nil]
    exact hk.column _ howner hs
  | lookup howner hdeclares hholds =>
    intro done used hs
    rw [← append_assoc]
    exact hk.lookup _ howner hdeclares hholds hs
  | joins hjoins =>
    intro done used hs
    rw [append_nil, show c.ofAtoms [] = [] from rfl, append_nil]
    exact hk.joins hjoins hs
  | children hparameter _ _ ih => exact fun hs => hk.children hparameter (ih hs)
  | append _ _ ihfirst ihsecond =>
    intro done used hs
    rw [ofAtoms_append, ← append_assoc done, ← append_assoc used]
    exact ihsecond (ihfirst hs)
  | perm hexprs hatoms _ ih =>
    intro done used hs
    exact hk.perm (hexprs.append_left _) (((c.ofAtoms_perm hatoms).append_left _).append_left _)
      (ih hs)

/-- The condition of a join is resolved, and then it is one of the scope. -/
theorem joined (hk : c.Kept context P) {join : Query.Join} {exprs : List Query.Expr} {used : List β}
    (hjoined : Scope.Joined context join s s') (h : P s exprs (c.ofScope s ++ used)) :
    P s' (exprs ++ join.exprs) (c.ofScope s' ++ used) := by
  obtain ⟨-, hpath, hjoin, hentries, -, hfound, -⟩ := hjoined
  obtain ⟨added, hadded, -⟩ := hfound.steps.entries_append
  rw [hentries, append_assoc, singleton_append] at hadded
  have hcondition := hk.resolves hfound (hk.joinStep hjoin (hk.joins hpath h))
  rw [← append_assoc] at hcondition
  refine hk.same (FromClause.Sound.addFound_elements ..) ?_ ?_ (hk.perm (.refl _)
    ((c.ofScope_addFound hadded).symm.append_right used) (hk.append_comm hcondition))
  · unfold Scope.addFound
    split <;> rfl
  · unfold Scope.addFound
    split <;> rfl

theorem select (hk : c.Kept context P) {select : Query.Select}
    (run : Lowered.SelectRun context select) : P run.filtered select.exprs (c.ofSelect run.sql) := by
  have hfrom := FromClause.scope_induction
    (P := fun joins s => P s (joins.flatMap Query.Join.exprs) (c.ofScope s ++ []))
    (by simpa [ofScope] using hk.empty false) (fun _ hentity _ => hk.withRoot _ hentity)
    (fun hjoined h => by
      rw [flatMap_append, flatMap_singleton]
      exact hk.joined hjoined h)
    run.fromRun
  have hscope := hk.resolves run.resolves hfrom
  have hfiltered := hk.same (Scope.filtered_elements run.filterRun)
    (Scope.filtered_counter run.filterRun) (Scope.filtered_tables run.filterRun) hscope
  have hranges : select.ranges.flatMap Query.Range.exprs
      = (select.ranges.flatMap (·.joins)).flatMap Query.Join.exprs := by
    rw [flatMap_assoc]
    rfl
  have hfound : (c.ofSelect run.sql).Perm (c.ofScope run.scope ++ c.ofAtoms run.sql.clauseAtoms) :=
    (.of_eq (c.ofRanges_filtered run.filterRun) : List.Perm _ _).append_right _ |>.trans
      ((run.valid.flatMap_ranges_perm c.table c.ofJoined).append_right _)
  refine hk.perm ?_ hfound.symm hfiltered
  rw [← hranges, Query.Select.exprs, Query.Select.clauseExprs]
  simp only [← append_assoc]
  exact (((perm_append_comm.append_right _).append_right _).append_right _).append_right _

/-- The statements of a bulk statement are collected one after the other, with the tables
that rows are removed from besides. -/
theorem chain (hk : c.Kept context P) {table : String} {exprs : List Query.Expr}
    {statements : List Statement} (link : String → List β)
    (hlink : ∀ {s exprs found} (table : String), P s exprs found →
      P (s.addTable table) exprs (found ++ link table))
    (h : Lowered.Chain context table exprs s statements s') :
    ∀ {done : List Query.Expr} {used : List β}, P s done (c.ofScope s ++ used) →
      P s' (done ++ statements.flatMap fun _ => exprs)
        (c.ofScope s' ++ (used ++ statements.flatMap fun statement =>
          statement.linkTable?.toList.flatMap link ++ c.ofAtoms statement.atoms)) := by
  induction h with
  | nil =>
    intro done used hs
    simpa only [flatMap_nil, append_nil] using hs
  | @cons s s₁ s' statement rest _ hfirst _ ih =>
    intro done used hs
    have hstart : P (statement.linkTable?.elim s s.addTable) done
        (c.ofScope (statement.linkTable?.elim s s.addTable)
          ++ (used ++ statement.linkTable?.toList.flatMap link)) := by
      cases statement.linkTable? with
      | none => exact (append_nil used).symm ▸ hs
      | some table =>
        rw [Option.toList_some, flatMap_singleton, ← append_assoc]
        exact hlink table hs
    simpa only [flatMap_cons, append_assoc] using ih (hk.resolves hfirst hstart)

theorem bulk (hk : c.Kept context P) (link : String → List β)
    (hlink : ∀ {s exprs found} (table : String), P s exprs found →
      P (s.addTable table) exprs (found ++ link table))
    {kind : PlanKind} {exprs : List Query.Expr} {lowered : Lowered} {scope : Scope}
    (h : lowered.Bulk context kind exprs scope) : ∃ name entity,
      context.model.entity name = .ok entity
        ∧ (∀ statement ∈ lowered.statements, statement.target? = some entity.table)
        ∧ P scope (lowered.statements.flatMap fun _ => exprs)
          (c.table entity.table none ++ lowered.statements.flatMap fun statement =>
            statement.linkTable?.toList.flatMap link ++ c.ofAtoms statement.atoms) := by
  obtain ⟨name, alias?, root, s, hroot, hchain⟩ := h.resolved
  obtain ⟨entity, hentity, -, rfl, rfl⟩ := Scope.addRoot_eq_ok hroot
  refine ⟨name, entity, hentity, fun statement hstatement => (hchain.resolves _ hstatement).1, ?_⟩
  have hstart : P _ _ (c.ofScope (Scope.withRoot { bulk := true } entity alias?) ++ []) :=
    hk.withRoot alias? hentity (hk.empty true)
  have hscope : c.ofScope scope = c.table entity.table none := by
    rw [ofScope, hchain.entries_eq rfl, Scope.entries_withRoot]
    exact (append_nil _).trans (append_nil _)
  have hall := hk.chain link hlink hchain hstart
  rwa [hscope, nil_append, nil_append] at hall

end Kept

end Collection

end EntityQuery
