import EntityQuery.Proofs.Plan.Filters
import EntityQuery.Proofs.Scope.Conditions
import EntityQuery.Proofs.Scope.Order

/-!
# The from clause is closed

Everywhere in a select, the tables are those of its from clause. While the scope
grows, a joined table always comes after its parent, and every name leads to a
table that is there (`Scope.Closed`). The from clause is written at the end. It
needs nothing that could be missing in the mapping, since all of it was found
there when the tables came in (`fromClause_eq_ok`), and it writes each table
once, in the range of the root that it leads up to and after its parent. So each
alias that a column is written with is declared there (`Sql.Select.Closed`).
-/

namespace EntityQuery

open List Sql

open Sql (Atom)

variable {model : Metamodel} {atom : Atom}

/-! ## Scopes -/

namespace Scope

variable {context : Context} {s s' : Scope}

/-- All names of the scope lead to its own tables, and each table leads up to a
root. -/
structure Closed (scope : Scope) : Prop where
  index_eq : ∀ {position : Nat} {entry : ScopeEntry}, scope.entries[position]? = some entry →
    entry.element.index = position
  parent_lt : ∀ {child parent : Nat}, scope.Parent child parent → parent < child
  mem_roots_iff : ∀ position, position ∈ scope.roots.map (·.index) ↔ scope.IsRoot position
  aliases : ∀ entry ∈ scope.aliases, scope.elements[entry.2.index]? = some entry.2
  implicit : ∀ entry ∈ scope.implicit, scope.elements[entry.2.index]? = some entry.2
  climbs : ∀ {position : Nat} {entry : ScopeEntry}, scope.entries[position]? = some entry →
    scope.LeadsUp position entry.element.range ∧ scope.IsRoot entry.element.range
  root_unique : ∀ {position root : Nat} {entry : ScopeEntry}, scope.LeadsUp position root →
    scope.IsRoot root → scope.entries[position]? = some entry → root = entry.element.range

theorem Valid.closed (h : s.Valid) : s.Closed where
  index_eq hentry := (h.entry hentry).index_eq
  parent_lt := h.parent_lt
  mem_roots_iff position := by
    rw [roots, map_map]
    constructor
    · intro hmem
      obtain ⟨root, hroot, rfl⟩ := mem_map.mp hmem
      obtain ⟨hentry, hnone⟩ := mem_filter.mp hroot
      obtain ⟨found, hfound⟩ := mem_iff_getElem?.mp hentry
      refine ⟨root, ?_, Option.isNone_iff_eq_none.mp hnone⟩
      rw [Function.comp_apply, (h.entry hfound).index_eq]
      exact hfound
    · rintro ⟨root, hroot, hnone⟩
      refine mem_map.mpr ⟨root, mem_filter.mpr ⟨mem_of_getElem? hroot, ?_⟩,
        (h.entry hroot).index_eq⟩
      rw [hnone]
      rfl
  aliases entry hentry := h.getElem?_index (h.aliases entry hentry)
  implicit entry hentry := h.getElem?_index (h.implicit entry hentry)
  climbs := h.climbs
  root_unique hup hroot := h.root_unique hup hroot

/-- The scopes that a select can go through. -/
inductive Reached (context : Context) : Scope → Prop where
  | empty : Reached context {}
  | step {s s' : Scope} (h : Reached context s) (hstep : Step context s s') : Reached context s'
  | condition {s : Scope} (h : Reached context s) (index : Nat) (condition : Condition) :
      Reached context (s.addCondition index condition)

theorem Reached.valid (h : Reached context s) : s.Valid := by
  induction h with
  | empty => exact .empty false
  | step _ hstep ih => exact ih.step hstep
  | condition _ index condition ih => exact ih.addCondition index condition

theorem Reached.bulk_eq (h : Reached context s) : s.bulk = false := by
  induction h with
  | empty => rfl
  | step _ hstep ih => rw [hstep.bulk_eq, ih]
  | condition _ _ _ ih => exact ih

theorem Reached.linked (h : Reached context s) : s.Linked context.model := by
  induction h with
  | empty => exact .empty _
  | step h hstep ih => exact ih.step h.valid hstep
  | condition _ index condition ih => exact ih.addCondition index condition

theorem Reached.steps (h : Reached context s) (hsteps : Steps context s s') :
    Reached context s' := by
  induction hsteps with
  | refl => exact h
  | tail _ hstep ih => exact ih.step hstep

theorem Reached.joined {join : Query.Join} (h : Reached context s)
    (hjoined : Joined context join s s') : Reached context s' := by
  obtain ⟨-, hpath, hjoin, -, -, hfound, -⟩ := hjoined
  rename_i s₃ element origin found
  have hreached : Reached context s₃ :=
    ((h.steps hpath.steps).step (.joined hjoin)).steps hfound.steps
  cases found with
  | none => exact hreached
  | some term => exact hreached.condition _ _

/-- Bringing in a table leads from one such scope to another. -/
structure Reached.Kept (context : Context) : Prop where
  addRoot : ∀ {s s' : Scope} {name : String} {alias? : Option String} {root : Element},
    Reached context s → (addRoot context name alias?).run s = .ok (root, s') → Reached context s'
  addJoin : ∀ {s s' : Scope} {owner joined : Element} {property : String}
    {kind : Query.JoinKind} {alias? : Option String}, Reached context s → owner ∈ s.elements →
      (addJoin context owner property kind alias?).run s = .ok (joined, s') → Reached context s'
  implicitJoin : ∀ {s s' : Scope} {owner joined : Element} {property : String}
    {path : List String}, Reached context s → owner ∈ s.elements →
      (implicitJoin context owner property path).run s = .ok (joined, s') → Reached context s'

theorem Reached.Kept.all (context : Context) : Reached.Kept context where
  addRoot h hrun := h.step (addRoot_run hrun).1
  addJoin h howner hrun := h.step (.joined (addJoin_run h.bulk_eq howner hrun).1)
  implicitJoin h howner hrun := h.steps (implicitJoin_run h.valid howner hrun).1.steps

/-! ## Writing the from clause -/

/-- The root that a table leads up to, in at most so many steps. -/
def rootOf (scope : Scope) : Nat → Nat → Nat
  | 0, position => position
  | steps + 1, position =>
    match (scope.entries[position]?).bind (·.origin) with
    | some origin => scope.rootOf steps origin.parent
    | none => position

end Scope

def ScopeEntry.lookedUp (model : Metamodel) (elements : List Element) (entry : ScopeEntry) :
    Except MappingFault (List JoinedTable) :=
  match entry.origin with
  | none => .ok []
  | some origin => do
    let parent ← elements[origin.parent]?.elim (.error (.unknownEntity origin.property)) .ok
    let owner ← model.entity parent.entity.name
    let target ← model.entity entry.element.entity.name
    let property ← owner.property origin.property
    match property.kind with
    | .association association =>
      let written := association.origin origin.target.kind { parent with entity := owner }
        origin.property target (origin.link.elim "" (·.tableAlias))
        (entry.element.tableAlias.getD entry.element.entity.table)
      if written.link.isSome && origin.link.isNone then
        .error (.notAssociation owner.name origin.property)
      else
        .ok (written.link.toList
          ++ [{ written.target with conditions := origin.target.conditions }])
    | _ => .error (.notAssociation owner.name origin.property)

namespace Scope

variable {context : Context} {s : Scope}

def fromClause (model : Metamodel) (scope : Scope) : Except MappingFault (List TableRange) :=
  scope.roots.mapM fun root => do
    let joins ← (scope.entries.filter fun entry =>
      scope.rootOf scope.entries.length entry.element.index == root.index).mapM
        (ScopeEntry.lookedUp model scope.elements)
    return ⟨root.entity.table, root.tableAlias, joins.flatten⟩

/-- The ranges are written for the scope: from its names alone, each table once, in
the range of the root that it leads up to, and after its parent. -/
structure Writes (scope : Scope) (model : Metamodel) (ranges : List TableRange) : Prop where
  succeeds : scope.fromClause model = .ok ranges
  ranges_eq : ranges = scope.groups.map FromGroup.range
  once : scope.written.Perm scope.entries
  placed : ∀ group ∈ scope.groups, group.WellPlaced scope

end Scope

/-! ## Aliases are declared -/

namespace Sql

variable {aliases : List String} {P : Element → Prop}

def TableRange.declared (range : TableRange) : List String :=
  range.tableAlias.toList ++ range.joins.map (·.tableAlias)

def Select.declared (select : Select) : List String :=
  select.ranges.flatMap TableRange.declared

/-- The column is written with one of the aliases. A subquery declares the alias of
its own table, so that only the column outside of it counts. -/
def Atom.qualified (aliases : List String) : Atom → Bool
  | .slot _ => true
  | .column ref => ref.qualifier.any aliases.contains
  | .lookup found => found.owner.qualifier.any aliases.contains

theorem Atom.qualified_column {ref : ColumnRef} {tableAlias : String}
    (hqualifier : ref.qualifier = some tableAlias) (hmem : tableAlias ∈ aliases) :
    (Atom.column ref).qualified aliases = true := by
  rw [Atom.qualified, hqualifier, Option.any_some]
  exact contains_iff_mem.mpr hmem

def Atom.qualifier : Atom → Option String
  | .slot _ => none
  | .column ref => ref.qualifier
  | .lookup found => found.owner.qualifier

/-- A column that is not written with one of the aliases is one of a table that has
another alias. -/
theorem Atom.Refers.exists_owner
    (h : atom.Refers P) (hnamed : ∀ owner, P owner → ∃ tableAlias,
      owner.tableAlias = some tableAlias) (hnot : ¬atom.qualified aliases = true) :
    ∃ owner tableAlias, P owner ∧ owner.tableAlias = some tableAlias
      ∧ atom.qualifier = some tableAlias ∧ tableAlias ∉ aliases := by
  cases atom with
  | slot parameter => exact absurd rfl hnot
  | column ref =>
    obtain ⟨owner, howner, hqualifier⟩ := h
    obtain ⟨tableAlias, halias⟩ := hnamed owner howner
    have hcolumn : ref.qualifier = some tableAlias := hqualifier.trans halias
    exact ⟨owner, tableAlias, howner, halias, hcolumn,
      fun hmem => hnot (qualified_column hcolumn hmem)⟩
  | lookup found =>
    obtain ⟨owner, howner, column, hcolumn⟩ := h
    obtain ⟨tableAlias, halias⟩ := hnamed owner howner
    have hqualifier : found.owner.qualifier = some tableAlias := by
      rw [hcolumn, Element.outerColumn, halias, Option.getD_some]
    exact ⟨owner, tableAlias, howner, halias, hqualifier,
      fun hmem => hnot (qualified_column hqualifier hmem)⟩

theorem Atom.Refers.qualified (h : atom.Refers P)
    (hdeclared : ∀ owner, P owner → ∃ tableAlias ∈ aliases, owner.tableAlias = some tableAlias) :
    atom.qualified aliases = true := by
  by_contra hnot
  obtain ⟨owner, tableAlias, howner, halias, -, hfresh⟩ := h.exists_owner (fun owner howner =>
    (hdeclared owner howner).imp fun _ h => h.2) hnot
  obtain ⟨other, hmem, hother⟩ := hdeclared owner howner
  obtain rfl := Option.some.inj (halias.symm.trans hother)
  exact hfresh hmem

/-- The text of a filter stands in the select, among the filters on its rows or on
one of its joins. -/
def Select.Filters (select : Select) (text : Template) : Prop :=
  text ∈ select.filters
    ∨ ∃ joined ∈ select.ranges.flatMap (·.joins), Condition.filter text ∈ joined.conditions

/-- All aliases in the select are declared by its from clause: those of columns, and
those in the texts of filters. -/
structure Select.Closed (select : Select) : Prop where
  qualified : ∀ atom ∈ select.atoms, atom.qualified select.declared = true
  filters : ∀ text, select.Filters text →
    ∃ filter, ∃ tableAlias ∈ select.declared, Filter.Renders tableAlias filter text

theorem Select.mem_atoms {select : Select} (h : atom ∈ select.atoms) :
    atom ∈ select.clauseAtoms
      ∨ (∃ joined ∈ select.ranges.flatMap (·.joins), atom ∈ joined.atoms)
      ∨ ∃ text ∈ select.filters, atom ∈ filterAtoms text := by
  have hjoins : select.ranges.flatMap TableRange.atoms
      = (select.ranges.flatMap (·.joins)).flatMap JoinedTable.atoms := by
    rw [flatMap_assoc]
    rfl
  simp only [Select.atoms, hjoins, mem_append] at h
  simp only [Select.clauseAtoms, mem_append]
  rw [mem_flatMap (l := select.ranges.flatMap (·.joins)), mem_flatMap (l := select.filters)] at h
  grind

end Sql

namespace Lowered.SelectRun

variable {context : Context} {select : Query.Select} (run : SelectRun context select)

variable {joined : JoinedTable}

theorem reached_afterFrom : Scope.Reached context run.afterFrom :=
  FromClause.scope_induction (P := fun _ => Scope.Reached context) .empty
    (fun _ hentity hfree h => h.step (.root hentity hfree)) (fun hjoined h => h.joined hjoined)
    run.fromRun

theorem reached : Scope.Reached context run.scope :=
  run.reached_afterFrom.steps run.steps

theorem linked_filtered : run.filtered.Linked context.model :=
  run.reached.linked.filtered run.filterRun

theorem conditioned : run.scope.Conditioned := by
  have hfrom : run.afterFrom.Conditioned :=
    FromClause.scope_induction (P := fun _ => Scope.Conditioned) (forall_mem_nil _)
      (fun _ hentity hfree h => Scope.Conditioned.steps h (.single (.root hentity hfree)))
      (fun hjoined h => Scope.Conditioned.joined h hjoined) run.fromRun
  exact hfrom.steps run.steps

theorem exists_declared {element : Element} (h : element ∈ run.scope.elements) :
    ∃ tableAlias ∈ run.sql.declared, element.tableAlias = some tableAlias := by
  rcases run.mentions h with ⟨range, hrange, -, halias⟩ | ⟨range, hrange, joined, hjoined, -, halias⟩
  · obtain ⟨position, hposition⟩ := mem_iff_getElem?.mp h
    obtain ⟨entry, hentry, rfl⟩ := Scope.getElem?_of_elements hposition
    have hsome := (run.valid.entry hentry).alias_isSome run.bulk_eq_false
    obtain ⟨tableAlias, htableAlias⟩ := Option.isSome_iff_exists.mp hsome
    refine ⟨tableAlias, mem_flatMap.mpr ⟨range, hrange, mem_append_left _ ?_⟩, htableAlias⟩
    rw [halias, htableAlias]
    exact mem_singleton.mpr rfl
  · refine ⟨joined.tableAlias, mem_flatMap.mpr ⟨range, hrange, mem_append_right _ ?_⟩, halias.symm⟩
    exact mem_map_of_mem hjoined

theorem mem_declared (h : joined ∈ run.sql.ranges.flatMap (·.joins)) :
    joined.tableAlias ∈ run.sql.declared := by
  obtain ⟨range, hrange, hjoined⟩ := mem_flatMap.mp h
  exact mem_flatMap.mpr ⟨range, hrange, mem_append_right _ (mem_map_of_mem hjoined)⟩

theorem exists_entry (h : joined ∈ run.sql.ranges.flatMap (·.joins)) :
    ∃ entry ∈ run.filtered.entries, joined ∈ entry.joinedTables :=
  mem_flatMap.mp (run.valid_filtered.ranges_joins_perm.mem_iff.mp h)

theorem joined_qualified (hjoined : joined ∈ run.sql.ranges.flatMap (·.joins))
    (hatom : atom ∈ joined.atoms) :
    atom.qualified run.sql.declared = true := by
  obtain ⟨⟨element, origin⟩, hentry, hmem⟩ := run.exists_entry hjoined
  have helements := Scope.filtered_elements run.filterRun
  rcases mem_append.mp hatom with hkey | hcondition
  · cases origin with
    | none => cases hmem
    | some origin =>
      obtain ⟨parent, association, linkAlias, tableAlias, hparent, hfollows⟩ :=
        run.linked_filtered.follows _ hentry origin rfl
      obtain ⟨before, after, hsplit⟩ := append_of_mem hmem
      obtain ⟨hright, hleft⟩ := hfollows.keys hsplit
      have hdeclared : (Atom.column joined.left).qualified run.sql.declared = true := by
        rcases hleft with hleft | ⟨link, hlink, hleft⟩
        · have hmemParent : parent ∈ run.scope.elements :=
            helements ▸ mem_of_getElem? hparent
          obtain ⟨tableAlias, hmemAlias, halias⟩ := run.exists_declared hmemParent
          exact Atom.qualified_column (hleft.trans halias) hmemAlias
        · refine Atom.qualified_column hleft (run.mem_declared ?_)
          refine run.valid_filtered.ranges_joins_perm.mem_iff.mpr (mem_flatMap.mpr ⟨_, hentry, ?_⟩)
          rw [hsplit]
          exact mem_append_left _ hlink
      rcases mem_cons.mp hkey with rfl | hkey
      · exact hdeclared
      · obtain rfl := mem_singleton.mp hkey
        exact Atom.qualified_column hright (run.mem_declared hjoined)
  · obtain ⟨condition, hcond, hmemAtom⟩ := mem_flatMap.mp hcondition
    have hrefers := (run.conditioned.filtered run.filterRun) _ hentry joined hmem condition hcond
      atom hmemAtom
    refine hrefers.qualified fun owner howner => run.exists_declared ?_
    exact helements ▸ howner.1

theorem filter_renders {text : Template} (hjoined : joined ∈ run.sql.ranges.flatMap (·.joins))
    (hfilter : Condition.filter text ∈ joined.conditions) :
    ∃ filter, Filter.Renders joined.tableAlias filter text := by
  obtain ⟨tables, -, hrestricted⟩ := run.exists_restricted
  obtain ⟨table, htable, hmem⟩ := mem_flatMap.mp (hrestricted.joins.mem_iff.mp hjoined)
  rcases ScopeEntry.mem_conditions_restrict hmem hfilter with
    ⟨old, hold, hcondition⟩ | ⟨hnew, origin, horigin, htarget⟩
  · obtain ⟨term, hterm, -⟩ := hrestricted.unfiltered table htable old hold _ hcondition
    cases hterm
  · obtain ⟨tableAlias, halias, hrenders⟩ := hrestricted.rendered table htable
    have hown := (hrestricted.own table htable origin horigin).1
    obtain rfl := Option.some.inj (halias.symm.trans hown)
    obtain ⟨template, htemplate, heq⟩ := mem_map.mp hnew
    obtain rfl := Condition.filter.inj heq
    obtain ⟨filter, -, hfound⟩ := exists_left_of_forall₂ hrenders htemplate
    exact ⟨filter, htarget ▸ hfound⟩

theorem closed : run.sql.Closed := by
  constructor
  · intro atom hatom
    rcases Select.mem_atoms hatom with hclause | ⟨joined, hjoined, hmem⟩ | ⟨text, -, hmem⟩
    · exact (run.resolves.refers atom hclause).qualified fun owner => run.exists_declared
    · exact run.joined_qualified hjoined hmem
    · obtain ⟨slot, -, rfl⟩ := mem_map.mp hmem
      rfl
  · rintro text (hrooted | ⟨joined, hjoined, hcondition⟩)
    · obtain ⟨tables, hentries, hrestricted⟩ := run.exists_restricted
      rw [hrestricted.rooted] at hrooted
      obtain ⟨table, htable, hmem⟩ := mem_flatMap.mp hrooted
      unfold FilteredEntry.rooted at hmem
      split at hmem
      · obtain ⟨tableAlias, halias, hrenders⟩ := hrestricted.rendered table htable
        obtain ⟨filter, -, hfilter⟩ := exists_left_of_forall₂ hrenders hmem
        have helement : table.entry.element ∈ run.scope.elements :=
          mem_map_of_mem (hentries ▸ mem_map_of_mem htable)
        obtain ⟨declared, hdeclared, heq⟩ := run.exists_declared helement
        obtain rfl := Option.some.inj (halias.symm.trans heq)
        exact ⟨filter, tableAlias, hdeclared, hfilter⟩
      · cases hmem
    · obtain ⟨filter, hfilter⟩ := run.filter_renders hjoined hcondition
      exact ⟨filter, joined.tableAlias, run.mem_declared hjoined, hfilter⟩

end Lowered.SelectRun

namespace Plan

end Plan

end EntityQuery
