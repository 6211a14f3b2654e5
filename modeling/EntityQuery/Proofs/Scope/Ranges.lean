import Mathlib.Data.List.Perm.Basic
import EntityQuery.Proofs.Scope.Valid
import EntityQuery.Scope.Filter

/-!
# Every table is written in the from clause

The from clause lists the roots, and with each root the joined tables of its
range. In a valid scope the range of a table is the position of exactly one
root, so that every joined table is written, and none is written twice
(`ranges_joins_perm`).

Filters put conditions on joins and change nothing else, so that a filtered
scope is written just as completely (`filtered_valid`).
-/

namespace EntityQuery.Scope

open List

variable {s : Scope}

/-- Grouping by keys that are all different and leave nothing out is a
permutation. -/
theorem flatMap_filter_perm {α κ : Type} [DecidableEq κ] (key : α → κ) :
    ∀ (keys : List κ) (l : List α),
    keys.Nodup → (∀ a ∈ l, key a ∈ keys) →
      (keys.flatMap fun k => l.filter (key · == k)).Perm l
  | [], l, _, hall => by
    cases l with
    | nil => exact .refl _
    | cons a rest => cases hall a (.head _)
  | k :: keys, l, hnodup, hall => by
    obtain ⟨hk, hkeys⟩ := nodup_cons.mp hnodup
    let others := l.filter (fun a => !(key a == k))
    have hothers : ∀ a ∈ others, key a ∈ keys := by
      intro a ha
      obtain ⟨hal, hne⟩ := mem_filter.mp ha
      rcases mem_cons.mp (hall a hal) with heq | hmem
      · simp [heq] at hne
      · exact hmem
    -- The other groups do not see the elements of the first.
    have hsame : (keys.flatMap fun k' => l.filter (key · == k'))
        = keys.flatMap fun k' => others.filter (key · == k') := by
      refine flatMap_congr fun k' hk' => ?_
      rw [filter_filter]
      refine filter_congr fun a _ => ?_
      by_cases h : key a = k'
      · have hne : k' ≠ k := fun heq => hk (heq ▸ hk')
        simp [h, hne]
      · simp [h]
    rw [flatMap_cons, hsame]
    exact ((flatMap_filter_perm key keys others hkeys hothers).append_left _).trans
      (filter_append_perm ..)

/-- The tables are numbered through. -/
theorem Valid.indices_eq (h : s.Valid) :
    s.entries.map (·.element.index) = List.range s.entries.length := by
  apply List.ext_getElem?
  intro position
  rw [List.getElem?_map]
  cases hentry : s.entries[position]? with
  | none =>
    rw [Option.map_none, eq_comm, List.getElem?_eq_none_iff, List.length_range]
    exact List.getElem?_eq_none_iff.mp hentry
  | some entry =>
    rw [Option.map_some, (h.entry hentry).index_eq, eq_comm]
    exact List.getElem?_range (List.getElem?_eq_some_iff.mp hentry).1

theorem Valid.nodup_roots (h : s.Valid) : (s.roots.map (·.index)).Nodup := by
  have hnodup : (s.entries.map (·.element.index)).Nodup := h.indices_eq ▸ nodup_range
  rw [roots, map_map]
  exact hnodup.sublist (filter_sublist.map _)

theorem Valid.range_mem_roots (h : s.Valid) {entry : ScopeEntry} (hentry : entry ∈ s.entries) :
    entry.element.range ∈ s.roots.map (·.index) := by
  obtain ⟨position, hposition⟩ := mem_iff_getElem?.mp hentry
  obtain ⟨root, hroot, horigin⟩ := h.exists_root hposition
  rw [← (h.entry hroot).index_eq, roots, map_map]
  refine mem_map.mpr ⟨root, mem_filter.mpr ⟨mem_of_getElem? hroot, ?_⟩, rfl⟩
  rw [horigin]
  rfl

/-- The joined tables of the from clause are those of the scope, each of them
once. -/
theorem Valid.ranges_joins_perm (h : s.Valid) :
    (s.ranges.flatMap (·.joins)).Perm (s.entries.flatMap ScopeEntry.joinedTables) := by
  have hgroups := flatMap_filter_perm (·.element.range) (s.roots.map (·.index)) s.entries
    h.nodup_roots fun _ => h.range_mem_roots
  have hjoins : s.ranges.flatMap (·.joins)
      = ((s.roots.map (·.index)).flatMap fun index =>
        s.entries.filter (·.element.range == index)).flatMap ScopeEntry.joinedTables := by
    rw [ranges, flatMap_map, flatMap_map, flatMap_assoc]
  rw [hjoins]
  exact hgroups.flatMap_right _

/-- What the roots and the joined tables contribute is written in the from clause,
each of it once. -/
theorem Valid.flatMap_ranges_perm {β : Type} (h : s.Valid) (own : String → Option String → List β)
    (joined : Sql.JoinedTable → List β) :
    (s.ranges.flatMap fun range =>
      own range.table range.tableAlias ++ range.joins.flatMap joined).Perm
    (s.entries.flatMap fun entry =>
      (if entry.origin.isNone then own entry.element.entity.table entry.element.tableAlias else [])
        ++ entry.joinedTables.flatMap joined) := by
  have hroots : (s.ranges.flatMap fun range => own range.table range.tableAlias)
      = s.entries.flatMap fun entry =>
        if entry.origin.isNone then own entry.element.entity.table entry.element.tableAlias
        else [] := by
    rw [ranges, flatMap_map, roots, flatMap_map]
    induction s.entries with
    | nil => rfl
    | cons entry rest ih =>
      rw [filter_cons, flatMap_cons, ← ih]
      split <;> simp
  refine ((flatMap_append_perm s.ranges _ _).symm.trans ?_).trans
    (flatMap_append_perm s.entries _ _)
  rw [hroots, ← flatMap_assoc, ← flatMap_assoc]
  exact (h.ranges_joins_perm.flatMap_right _).append_left _

/-! ## Filters -/

variable {enabled : EnabledFilters}

theorem applyFilters_eq_ok {entry entry' : ScopeEntry} {rooted : List Sql.Template}
    (h : applyFilters enabled entry = .ok (entry', rooted)) :
    ∃ found, entry.element.filters enabled = .ok found
      ∧ entry' = entry.restrict (found.map .filter)
      ∧ rooted = if entry.origin.isNone then found else [] := by
  obtain ⟨element, origin⟩ := entry
  obtain ⟨found, hfound, h⟩ := bind_eq_ok.mp h
  refine ⟨found, hfound, ?_⟩
  cases origin with
  | none | some origin =>
    obtain ⟨rfl, rfl⟩ := Prod.mk.inj (Except.ok.inj h)
    exact ⟨rfl, rfl⟩

end EntityQuery.Scope

namespace EntityQuery

/-- A table of the scope and the filters on it. -/
structure FilteredEntry where
  entry : ScopeEntry
  filters : List Sql.Template

namespace FilteredEntry

/-- The table with the filters on its join. -/
def restricted (table : FilteredEntry) : ScopeEntry :=
  table.entry.restrict (table.filters.map .filter)

/-- The filters that restrict the rows instead. -/
def rooted (table : FilteredEntry) : List Sql.Template :=
  if table.entry.origin.isNone then table.filters else []

end FilteredEntry

namespace Scope

variable {s s' : Scope} {enabled : EnabledFilters} {rooted : List Sql.Template}

theorem exists_filteredEntries {entries : List ScopeEntry}
    {applied : List (ScopeEntry × List Sql.Template)}
    (h : List.Forall₂ (fun entry found => applyFilters enabled entry = .ok found) entries applied) :
    ∃ tables : List FilteredEntry, entries = tables.map (·.entry)
      ∧ (∀ table ∈ tables, table.entry.element.filters enabled = .ok table.filters)
      ∧ applied = tables.map fun table => (table.restricted, table.rooted) := by
  induction h with
  | nil => exact ⟨[], rfl, List.forall_mem_nil _, rfl⟩
  | @cons entry _ _ _ hentry _ ih =>
    obtain ⟨tables, rfl, hfilters, rfl⟩ := ih
    obtain ⟨found, hfound, hrestrict, hrooted⟩ := applyFilters_eq_ok hentry
    exact ⟨⟨entry, found⟩ :: tables, rfl, List.forall_mem_cons.mpr ⟨hfound, hfilters⟩,
      congrArg (· :: _) (Prod.ext hrestrict hrooted)⟩

theorem filtered_eq_ok (h : s.filtered enabled = .ok (s', rooted)) :
    ∃ tables : List FilteredEntry, s.entries = tables.map (·.entry)
      ∧ (∀ table ∈ tables, table.entry.element.filters enabled = .ok table.filters)
      ∧ s' = { s with entries := tables.map (·.restricted) }
      ∧ rooted = tables.flatMap (·.rooted) := by
  obtain ⟨applied, happlied, h⟩ := bind_eq_ok.mp h
  obtain ⟨rfl, rfl⟩ := Prod.mk.inj (Except.ok.inj h)
  obtain ⟨tables, hentries, hfilters, rfl⟩ := exists_filteredEntries (mapM_eq_ok_iff.mp happlied)
  exact ⟨tables, hentries, hfilters, by rw [List.map_map]; rfl, by rw [List.flatMap_map]⟩

theorem filtered_elements (h : s.filtered enabled = .ok (s', rooted)) :
    s'.elements = s.elements := by
  obtain ⟨tables, hentries, -, rfl, -⟩ := filtered_eq_ok h
  rw [elements, elements, hentries, List.map_map, List.map_map]
  rfl

theorem filtered_tables (h : s.filtered enabled = .ok (s', rooted)) : s'.tables = s.tables := by
  obtain ⟨tables, -, -, rfl, -⟩ := filtered_eq_ok h
  rfl

theorem filtered_counter (h : s.filtered enabled = .ok (s', rooted)) : s'.counter = s.counter := by
  obtain ⟨tables, -, -, rfl, -⟩ := filtered_eq_ok h
  rfl

theorem filtered_valid (hvalid : s.Valid) (h : s.filtered enabled = .ok (s', rooted)) :
    s'.Valid := by
  have helements := filtered_elements h
  obtain ⟨tables, hentries, -, rfl, -⟩ := filtered_eq_ok h
  constructor
  · intro position entry' hentry'
    rw [List.getElem?_map, Option.map_eq_some_iff] at hentry'
    obtain ⟨table, htable, rfl⟩ := hentry'
    have hentry : s.entries[position]? = some table.entry := by
      rw [hentries, List.getElem?_map, htable]
      rfl
    rw [helements]
    exact (hvalid.entry hentry).restrict _
  · rw [helements]
    exact hvalid.aliases
  · rw [helements]
    exact hvalid.implicit

end Scope

/-- The table is in the from clause, as the root of a range or as a joined
table. -/
def Sql.Select.Mentions (select : Sql.Select) (element : Element) : Prop :=
  (∃ range ∈ select.ranges, range.table = element.entity.table
      ∧ range.tableAlias = element.tableAlias)
    ∨ ∃ range ∈ select.ranges, ∃ joined ∈ range.joins, joined.table = element.entity.table
      ∧ some joined.tableAlias = element.tableAlias

/-- Every table of a valid scope is in its from clause. -/
theorem Scope.Valid.mentions {s : Scope} (h : s.Valid) {select : Sql.Select}
    (hranges : select.ranges = s.ranges) {element : Element} (helement : element ∈ s.elements) :
    select.Mentions element := by
  obtain ⟨entry, hentry, rfl⟩ := List.mem_map.mp helement
  rw [Sql.Select.Mentions, hranges]
  cases horigin : entry.origin with
  | none =>
    have hroot : entry.element ∈ s.roots :=
      List.mem_map.mpr ⟨entry, List.mem_filter.mpr ⟨hentry, by rw [horigin]; rfl⟩, rfl⟩
    exact .inl ⟨_, List.mem_map.mpr ⟨entry.element, hroot, rfl⟩, rfl, rfl⟩
  | some origin =>
    obtain ⟨position, hposition⟩ := List.mem_iff_getElem?.mp hentry
    obtain ⟨halias, htable⟩ := (h.entry hposition).joined origin horigin
    have htarget : origin.target ∈ s.ranges.flatMap (·.joins) := by
      refine h.ranges_joins_perm.mem_iff.mpr (List.mem_flatMap.mpr ⟨entry, hentry, ?_⟩)
      rw [ScopeEntry.joinedTables, horigin]
      exact List.mem_append_right _ (List.mem_singleton.mpr rfl)
    obtain ⟨range, hrange, hjoined⟩ := List.mem_flatMap.mp htarget
    exact .inr ⟨range, hrange, origin.target, hjoined, htable.symm, halias.symm⟩

end EntityQuery
