import EntityQuery.Proofs.Plan.Numbering
import EntityQuery.Proofs.Sample
import EntityQuery.Proofs.Scope.Filter

/-!
# Every filter restricts every table of its entity, once

Tables come into the scope all over the compilation of a select, and filters are
put on them in one pass at the end. By then the scope is complete
(`SelectRun.scope`), the pass goes over all of its entries (`filtered_eq_ok`),
and the from clause writes each of them once (`ranges_joins_perm`). So each
filter that is switched on for the entity of a table stands in the statement
once for that table (`Sql.Select.Restricted`).

The parameters of filters in the finished plan are counted the other way round,
from the text of the statement. Terms of the query ask for none, so those of the
conditions of filters are all there are.
-/

namespace EntityQuery

open List Sql

variable {tableAlias : String} {tables : List FilteredEntry} {filters : List Filter}
  {entry : ScopeEntry}

/-! ## Parameters of filters in a select -/

namespace Sql

theorem JoinedTable.filterSlots_template (dialect : Dialect) (joined : JoinedTable) :
    (joined.template dialect).filterSlots
      = joined.conditions.flatMap fun condition => (condition.template dialect).filterSlots := by
  simp [JoinedTable.template, flatMap_map]

def Atom.filterSlots (atoms : List Atom) : List Slot :=
  (Atom.slots atoms).filter (·.source.isFilter)

theorem Atom.filterSlots_append (atoms more : List Atom) :
    filterSlots (atoms ++ more) = filterSlots atoms ++ filterSlots more := by
  rw [filterSlots, slots_append, filter_append]
  rfl

/-- Where the clauses of a select ask for no parameter of a filter, its joins and
its filters ask for all that there are. -/
theorem Select.filterSlots_template {select : Select} (dialect : Dialect)
    (h : Atom.filterSlots select.clauseAtoms = []) :
    (select.template dialect).filterSlots
      = ((select.ranges.flatMap (·.joins)).flatMap fun joined =>
          (joined.template dialect).filterSlots)
        ++ select.filters.flatMap (·.filterSlots) := by
  have hjoins : Atom.filterSlots (select.ranges.flatMap TableRange.atoms)
      = (select.ranges.flatMap (·.joins)).flatMap fun joined =>
        (joined.template dialect).filterSlots := by
    simp only [Atom.filterSlots, TableRange.atoms, ← flatMap_assoc, Atom.slots_flatMap,
      ← JoinedTable.slots_template dialect, filter_flatMap, Template.filterSlots]
  have hfilters : Atom.filterSlots (select.filters.flatMap filterAtoms)
      = select.filters.flatMap (·.filterSlots) := by
    simp only [Atom.filterSlots, Atom.slots_flatMap, slots_filterAtoms, filter_flatMap,
      Template.filterSlots]
  simp only [Select.clauseAtoms, Atom.filterSlots_append, append_eq_nil_iff] at h
  obtain ⟨⟨⟨⟨hcolumns, hcondition⟩, hgroupBy⟩, hhaving⟩, horderBy⟩ := h
  have hslots : (select.template dialect).filterSlots = Atom.filterSlots select.atoms :=
    congrArg (List.filter _) (select.slots_template dialect)
  rw [hslots]
  simp only [Select.atoms, Atom.filterSlots_append, hcolumns, hcondition, hgroupBy, hhaving,
    horderBy, hjoins, hfilters, nil_append, append_nil]

end Sql

/-! ## Tables and the filters on them -/

/-- The joins of an entry carry conditions of the query only. -/
def ScopeEntry.Unfiltered (entry : ScopeEntry) : Prop :=
  ∀ joined ∈ entry.joinedTables, ∀ condition ∈ joined.conditions,
    ∃ term : Term, condition = .term term ∧ term.Unfiltered

theorem ScopeEntry.Accounted.unfiltered {context : Context} {mark : Option Query.Join}
    (h : entry.Accounted context mark) : entry.Unfiltered := by
  intro joined hjoined condition hcondition
  cases mark with
  | none =>
    rw [h.unmarked rfl joined hjoined] at hcondition
    cases hcondition
  | some join =>
    obtain ⟨origin, horigin, hlink, s, s', found, hvalid, hfound, hconditions⟩ :=
      h.marked join rfl
    rw [joinedTables, horigin] at hjoined
    rcases mem_append.mp hjoined with hmem | hmem
    · rw [hlink joined (Option.mem_toList.mp hmem)] at hcondition
      cases hcondition
    · rw [mem_singleton.mp hmem, hconditions] at hcondition
      obtain ⟨term, hterm, rfl⟩ := mem_map.mp hcondition
      have hresolves := (Typed.condition_resolves join.condition).resolves hvalid hfound
      refine ⟨term, rfl, hresolves.term_unfiltered ?_⟩
      exact fun atom hatom => mem_flatMap.mpr ⟨term, hterm, hatom⟩

theorem Filter.Renders.flatMap_filterSlots {templates : List Template}
    (h : List.Forall₂ (Filter.Renders tableAlias) filters templates) :
    templates.flatMap (·.filterSlots) = templates.flatMap (·.slots) := by
  refine flatMap_congr fun template htemplate => ?_
  obtain ⟨filter, -, hfilter⟩ := exists_left_of_forall₂ h htemplate
  exact hfilter.filterSlots_eq

theorem ScopeEntry.Unfiltered.flatMap_filterSlots (h : entry.Unfiltered) (dialect : Dialect) :
    ∀ joined ∈ entry.joinedTables,
      (joined.conditions.flatMap fun condition => (condition.template dialect).filterSlots)
        = [] := by
  intro joined hjoined
  refine flatMap_eq_nil_iff.mpr fun condition hcondition => ?_
  obtain ⟨term, rfl, hterm⟩ := h joined hjoined condition hcondition
  exact hterm dialect

/-- A table asks for the parameters of its filters where it is written: on its
join, or among the filters on the rows. -/
theorem FilteredEntry.filterSlots_eq {table : FilteredEntry} (hunfiltered : table.entry.Unfiltered)
    (hrenders : List.Forall₂ (Filter.Renders tableAlias) filters table.filters) (dialect : Dialect)
    :
    (table.restricted.joinedTables.flatMap fun joined => (joined.template dialect).filterSlots)
        ++ table.rooted.flatMap (·.filterSlots)
      = table.filters.flatMap (·.slots) := by
  rw [← Filter.Renders.flatMap_filterSlots hrenders]
  have hbefore := hunfiltered.flatMap_filterSlots dialect
  obtain ⟨⟨element, origin⟩, filters⟩ := table
  cases origin with
  | none => rfl
  | some origin =>
    obtain ⟨hlink, htarget⟩ := forall_mem_append.mp hbefore
    have hlinks : (origin.link.toList.flatMap fun joined =>
        (joined.template dialect).filterSlots) = [] :=
      flatMap_eq_nil_iff.mpr fun joined hjoined =>
        (joined.filterSlots_template dialect).trans (hlink joined hjoined)
    have htables : (restricted ⟨⟨element, some origin⟩, filters⟩).joinedTables
        = origin.link.toList ++ [{ origin.target with
          conditions := origin.target.conditions ++ filters.map .filter }] := rfl
    have hrooted : rooted ⟨⟨element, some origin⟩, filters⟩ = [] := rfl
    rw [htables, hrooted, flatMap_append, hlinks, flatMap_singleton,
      JoinedTable.filterSlots_template, flatMap_append,
      forall_mem_singleton.mp htarget, flatMap_map, flatMap_nil, append_nil]
    rfl

/-- The tables of a select are restricted by the filters that are switched on:
each filter of the entity of a table is rendered once with the alias of the
table, among the filters on the rows where the table is a root, and on its own
join where it is not. No other filter is in the select. -/
structure Sql.Select.Restricted (select : Select) (model : Metamodel)
    (enabled : EnabledFilters) (tables : List FilteredEntry) : Prop where
  mapped : ∀ table ∈ tables, ∃ name, model.entity name = .ok table.entry.element.entity
  rendered : ∀ table ∈ tables, ∃ tableAlias, table.entry.element.tableAlias = some tableAlias
    ∧ List.Forall₂ (Filter.Renders tableAlias) (enabled.on table.entry.element.entity) table.filters
  roots : select.ranges.map (fun range => (range.table, range.tableAlias))
    = (tables.filter (·.entry.origin.isNone)).map fun table =>
      (table.entry.element.entity.table, table.entry.element.tableAlias)
  rooted : select.filters = tables.flatMap (·.rooted)
  joins : (select.ranges.flatMap (·.joins)).Perm (tables.flatMap (·.restricted.joinedTables))
  own : ∀ table ∈ tables, ∀ origin, table.entry.origin = some origin →
    table.entry.element.tableAlias = some origin.target.tableAlias
      ∧ table.entry.element.entity.table = origin.target.table
  unfiltered : ∀ table ∈ tables, table.entry.Unfiltered

theorem Scope.ranges_restricted {s : Scope} (hentries : s.entries = tables.map (·.restricted)) :
    s.ranges.map (fun range => (range.table, range.tableAlias))
      = (tables.filter (·.entry.origin.isNone)).map fun table =>
        (table.entry.element.entity.table, table.entry.element.tableAlias) := by
  have hroots : s.entries.filter (·.origin.isNone)
      = (tables.filter (·.entry.origin.isNone)).map (·.restricted) := by
    rw [hentries, filter_map]
    congr 1
    refine filter_congr fun table _ => ?_
    exact Option.isNone_map
  rw [ranges, roots, hroots]
  simp only [map_map]
  rfl

namespace Lowered.SelectRun

variable {context : Context} {select : Query.Select} (run : SelectRun context select)

theorem exists_restricted : ∃ tables, run.scope.entries = tables.map (·.entry)
    ∧ run.sql.Restricted context.model context.filters tables := by
  obtain ⟨tables, hentries, hfilters, hfiltered, hrooted⟩ := Scope.filtered_eq_ok run.filterRun
  have hrestricted : run.filtered.entries = tables.map (·.restricted) := by rw [hfiltered]
  have hmem : ∀ table ∈ tables, table.entry ∈ run.scope.entries := by
    intro table htable
    rw [hentries]
    exact mem_map_of_mem htable
  refine ⟨tables, hentries, ?_, ?_, Scope.ranges_restricted hrestricted, hrooted, ?_, ?_, ?_⟩
  · intro table htable
    exact run.mapped (mem_map_of_mem (hmem table htable))
  · intro table htable
    obtain ⟨position, hposition⟩ := mem_iff_getElem?.mp (hmem table htable)
    have hsome := (run.valid.entry hposition).alias_isSome run.bulk_eq_false
    obtain ⟨tableAlias, halias⟩ := Option.isSome_iff_exists.mp hsome
    exact ⟨tableAlias, halias, Element.renders_of_filters halias (hfilters table htable)⟩
  · have hperm := run.valid_filtered.ranges_joins_perm
    rwa [hrestricted, flatMap_map] at hperm
  · intro table htable
    obtain ⟨position, hposition⟩ := mem_iff_getElem?.mp (hmem table htable)
    exact (run.valid.entry hposition).joined
  · intro table htable
    obtain ⟨marks, haccounted, -⟩ := run.exists_marks
    obtain ⟨mark, -, hmark⟩ := exists_right_of_forall₂ haccounted (hmem table htable)
    exact hmark.unfiltered

end Lowered.SelectRun

namespace Plan

def filterSlots (plan : Plan) : List Slot :=
  (plan.bindings.map Binding.slot).filter (·.source.isFilter)

variable {compiler : Compiler} {identifier query : String}
  {substitutions : List (String × String)} {plan : Plan}

end Plan

end EntityQuery
