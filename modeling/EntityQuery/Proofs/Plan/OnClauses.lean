import EntityQuery.Proofs.Plan.Tables

/-!
# What on clauses refer to

A from clause introduces its tables one after the other, and an on clause should
refer to aliases only that are introduced before its join, or by it
(`Sql.LooksBack`). The keys of all joins look back, and the texts of filters use
the alias of their own table. The conditions of the query are the exception. They
are resolved when the table comes in, and what they refer to can be written later:
an implicit join that the condition itself has made, or a table of a later range.
There is no other way to look ahead (`exists_looksAhead`).
-/

namespace EntityQuery

open List Sql ScopeEntry JoinedTable

open Sql (Atom)

variable {tableAlias : String} {known : List String} {entry other : ScopeEntry}

/-! ## From clauses -/

namespace Sql

/-- One table of a from clause: the first one of a range, or a joined one. -/
inductive Introduced where
  | root (tableAlias : Option String)
  | joined (table : JoinedTable)

namespace Introduced

def aliases : Introduced → List String
  | root tableAlias => tableAlias.toList
  | joined table => [table.tableAlias]

def atoms (part : JoinedTable → List Atom) : Introduced → List Atom
  | root _ => []
  | joined table => part table

end Introduced

/-- A part of each on clause refers only to aliases that are known already, or are
introduced before the table or by it. -/
def LooksBack (part : JoinedTable → List Atom) : List String → List Introduced → Prop
  | _, [] => True
  | known, table :: rest =>
    (∀ atom ∈ table.atoms part, atom.qualified (known ++ table.aliases) = true)
      ∧ LooksBack part (known ++ table.aliases) rest

instance LooksBack.decide (part : JoinedTable → List Atom) :
    ∀ (known : List String) (tables : List Introduced), Decidable (LooksBack part known tables)
  | _, [] => .isTrue trivial
  | known, table :: rest =>
    have := LooksBack.decide part (known ++ table.aliases) rest
    inferInstanceAs (Decidable (_ ∧ _))

def JoinedTable.keys (joined : JoinedTable) : List Atom :=
  [.column joined.left, .column joined.right]

def Select.introduced (select : Select) : List Introduced :=
  select.ranges.flatMap fun range => .root range.tableAlias :: range.joins.map .joined

def Statement.introduced : Statement → List Introduced
  | .select statement => statement.introduced
  | .update _ | .unlink _ | .delete _ => []

theorem Select.declared_eq (select : Select) :
    select.declared = select.introduced.flatMap Introduced.aliases := by
  rw [declared, introduced, flatMap_assoc]
  refine flatMap_congr fun range _ => ?_
  rw [flatMap_cons, flatMap_map, TableRange.declared, map_eq_flatMap]
  rfl

theorem Atom.mem_of_qualified {aliases : List String} {atom : Atom}
    (h : atom.qualified aliases) (hqualifier : atom.qualifier = some tableAlias) :
    tableAlias ∈ aliases := by
  cases atom with
  | slot parameter => cases hqualifier
  | column ref =>
    rw [Atom.qualified, show ref.qualifier = _ from hqualifier, Option.any_some] at h
    exact contains_iff_mem.mp h
  | lookup found =>
    rw [Atom.qualified, show found.owner.qualifier = _ from hqualifier, Option.any_some] at h
    exact contains_iff_mem.mp h

variable {part : JoinedTable → List Atom}

theorem looksBack_append {first second : List Introduced} :
    LooksBack part known (first ++ second)
      ↔ LooksBack part known first
        ∧ LooksBack part (known ++ first.flatMap Introduced.aliases) second := by
  induction first generalizing known with
  | nil =>
    rw [nil_append, flatMap_nil, append_nil]
    exact (and_iff_right trivial).symm
  | cons table rest ih =>
    rw [cons_append, flatMap_cons, ← append_assoc]
    exact (and_congr_right fun _ => ih).trans and_assoc.symm

/-- Tables that are introduced in groups look back if each group does, after all
groups before it. -/
theorem looksBack_flatMap {α : Type} {tables : α → List Introduced} {groups : List α} :
    LooksBack part known (groups.flatMap tables)
      ↔ ∀ before group after, groups = before ++ group :: after →
        LooksBack part (known ++ (before.flatMap tables).flatMap Introduced.aliases)
          (tables group) := by
  induction groups generalizing known with
  | nil =>
    refine ⟨fun _ before group after h => ?_, fun _ => trivial⟩
    exact absurd h (by simp)
  | cons first rest ih =>
    rw [flatMap_cons, looksBack_append, ih]
    constructor
    · rintro ⟨hfirst, hrest⟩ before group after hsplit
      cases before with
      | nil =>
        obtain ⟨rfl, -⟩ := List.cons.inj hsplit
        rwa [flatMap_nil, flatMap_nil, append_nil]
      | cons head tail =>
        obtain ⟨rfl, hrestSplit⟩ := List.cons.inj hsplit
        rw [flatMap_cons, flatMap_append, ← append_assoc]
        exact hrest tail group after hrestSplit
    · intro h
      have hfirst := h [] first rest rfl
      rw [flatMap_nil, flatMap_nil, append_nil] at hfirst
      refine ⟨hfirst, fun before group after hsplit => ?_⟩
      have hgroup := h (first :: before) group after (by rw [hsplit]; rfl)
      rwa [flatMap_cons, flatMap_append, ← append_assoc] at hgroup

theorem looksBack_joined {tables : List JoinedTable} :
    LooksBack part known (tables.map .joined)
      ↔ ∀ before table after, tables = before ++ table :: after → ∀ atom ∈ part table,
        atom.qualified (known ++ before.map (·.tableAlias) ++ [table.tableAlias]) = true := by
  have haliases : ∀ before : List JoinedTable,
      (before.flatMap fun table => [Introduced.joined table]).flatMap Introduced.aliases
        = before.map (·.tableAlias) := by
    intro before
    rw [flatMap_assoc, map_eq_flatMap]
    rfl
  rw [map_eq_flatMap, looksBack_flatMap]
  simp only [haliases]
  exact forall₄_congr fun before table after _ => and_iff_left trivial

end Sql

/-! ## The tables of a scope -/

namespace ScopeEntry

def introduced (entry : ScopeEntry) : List Introduced :=
  match entry.origin with
  | some _ => entry.joinedTables.map .joined
  | none => [.root entry.element.tableAlias]

def declared (entry : ScopeEntry) : List String :=
  entry.introduced.flatMap Introduced.aliases

theorem flatMap_declared (entries : List ScopeEntry) :
    (entries.flatMap introduced).flatMap Introduced.aliases = entries.flatMap declared :=
  flatMap_assoc

theorem mem_declared {joined : JoinedTable} (h : joined ∈ entry.joinedTables) :
    joined.tableAlias ∈ entry.declared := by
  obtain ⟨element, origin⟩ := entry
  cases origin with
  | none => cases h
  | some origin =>
    exact mem_flatMap.mpr ⟨.joined joined, mem_map_of_mem h, mem_singleton.mpr rfl⟩

/-- A condition on the join of the table refers to the other table. -/
def Uses (entry owner : ScopeEntry) : Prop :=
  ∃ joined ∈ entry.joinedTables, ∃ condition ∈ joined.conditions, ∃ atom ∈ condition.atoms,
    ∃ tableAlias, owner.element.tableAlias = some tableAlias ∧ atom.qualifier = some tableAlias

end ScopeEntry

namespace Scope

variable {s : Scope}

/-- A condition on the join of the one table refers to the other table, which is
written after it. -/
structure LooksAhead (scope : Scope) (entry owner : ScopeEntry) : Prop where
  entry_mem : entry ∈ scope.entries
  owner_mem : owner ∈ scope.entries
  uses : entry.Uses owner
  before : entry.Before owner

theorem Valid.introduced_eq (h : s.Valid) {select : Select} (hranges : select.ranges = s.ranges) :
    select.introduced = s.written.flatMap introduced := by
  rw [Select.introduced, hranges, s.ranges_eq, flatMap_map, written, flatMap_assoc]
  refine flatMap_congr fun group hgroup => ?_
  have hplaced := h.groups_placed group hgroup
  have hroot : group.root.introduced = [.root group.root.element.tableAlias] := by
    rw [introduced, hplaced.root]
  have hjoined : group.joined.flatMap introduced
      = group.joined.flatMap fun entry => entry.joinedTables.map .joined := by
    refine flatMap_congr fun entry hentry => ?_
    obtain ⟨origin, horigin⟩ := Option.isSome_iff_exists.mp (hplaced.joined entry hentry)
    rw [introduced, horigin]
  rw [flatMap_cons, hroot, hjoined, FromGroup.range, map_flatMap]
  rfl

theorem Valid.declared_eq (h : s.Valid) {select : Select} (hranges : select.ranges = s.ranges)
    {before after : List ScopeEntry} (hsplit : s.written = before ++ entry :: after) :
    select.declared = (before.flatMap declared ++ entry.declared)
      ++ after.flatMap declared := by
  rw [Select.declared_eq, h.introduced_eq hranges, flatMap_declared, hsplit,
    flatMap_append, flatMap_cons, append_assoc]

theorem Valid.alias_mem (h : s.Valid) (hentry : entry ∈ s.entries)
    (halias : entry.element.tableAlias = some tableAlias) : tableAlias ∈ entry.declared := by
  obtain ⟨position, hposition⟩ := mem_iff_getElem?.mp hentry
  have hvalid := h.entry hposition
  obtain ⟨element, origin⟩ := entry
  cases origin with
  | none =>
    refine mem_flatMap.mpr ⟨_, .head _, ?_⟩
    rw [Introduced.aliases, halias]
    exact .head _
  | some origin =>
    obtain rfl := Option.some.inj (halias.symm.trans (hvalid.joined origin rfl).1)
    exact mem_declared (mem_append_right _ (.head _))

theorem Valid.alias_mem_before (h : s.Valid) {before after : List ScopeEntry}
    (hsplit : s.written = before ++ entry :: after) (hother : other ∈ s.entries)
    (hbefore : other.Before entry) (halias : other.element.tableAlias = some tableAlias) :
    tableAlias ∈ before.flatMap declared := by
  have hmem : other ∈ before := (h.mem_before_iff hsplit other).mpr ⟨hother, hbefore⟩
  exact mem_flatMap.mpr ⟨other, hmem, h.alias_mem hother halias⟩

theorem Valid.before_or_eq (h : s.Valid) (hentry : entry ∈ s.entries) (hother : other ∈ s.entries)
    (hnot : ¬entry.Before other) : other.Before entry ∨ other = entry := by
  unfold Before at hnot ⊢
  by_cases hindex : other.element.index = entry.element.index
  · exact .inr (h.eq_of_index_eq hother hentry hindex)
  · exact .inl (by omega)

/-- In a from clause of one range, all tables belong to that. -/
theorem Valid.range_eq_of_single (h : s.Valid) (hsingle : s.ranges.length = 1)
    (hentry : entry ∈ s.entries) (hother : other ∈ s.entries) :
    entry.element.range = other.element.range := by
  rw [s.ranges_eq, length_map, groups, length_map] at hsingle
  obtain ⟨root, hroot⟩ := length_eq_one_iff.mp hsingle
  have hmem : root ∈ s.entries.filter (·.origin.isNone) := hroot ▸ .head _
  have hall : ∀ table ∈ s.entries, table.element.range = root.element.index := by
    intro table htable
    rw [← h.written_perm.mem_iff, written, groups, hroot] at htable
    simp only [map_cons, map_nil, flatMap_cons, flatMap_nil, append_nil] at htable
    exact h.range_of_mem hmem htable
  rw [hall entry hentry, hall other hother]

end Scope

/-! ## Compiled selects -/

namespace Lowered.SelectRun

variable {context : Context} {select : Query.Select} (run : SelectRun context select)

theorem exists_alias (h : entry ∈ run.filtered.entries) :
    ∃ tableAlias, entry.element.tableAlias = some tableAlias := by
  have helement : entry.element ∈ run.scope.elements :=
    Scope.filtered_elements run.filterRun ▸ mem_map_of_mem h
  obtain ⟨tableAlias, -, halias⟩ := run.exists_declared helement
  exact ⟨tableAlias, halias⟩

theorem looksBack_iff (part : JoinedTable → List Atom) :
    LooksBack part [] run.sql.introduced
      ↔ ∀ before entry after, run.filtered.written = before ++ entry :: after →
        ∀ between joined rest, entry.joinedTables = between ++ joined :: rest →
          ∀ atom ∈ part joined, atom.qualified
            (before.flatMap declared ++ between.map (·.tableAlias)
              ++ [joined.tableAlias]) = true := by
  rw [run.valid_filtered.introduced_eq rfl, looksBack_flatMap]
  refine forall₄_congr fun before entry after _ => ?_
  rw [nil_append, flatMap_declared]
  obtain ⟨element, origin⟩ := entry
  cases origin with
  | none =>
    refine iff_of_true ⟨forall_mem_nil _, trivial⟩ ?_
    intro between joined rest htables
    exact absurd htables (by simp [joinedTables])
  | some origin => exact looksBack_joined

/-- The keys of a join are those of tables that are introduced before, and its own. -/
theorem keys_look_back : LooksBack keys [] run.sql.introduced := by
  rw [looksBack_iff]
  intro before entry after hsplit between joined rest htables
  have hvalid := run.valid_filtered
  have hentry : entry ∈ run.filtered.entries :=
    hvalid.written_perm.mem_iff.mp (hsplit ▸ mem_append_right _ (.head _))
  obtain ⟨element, origin⟩ := entry
  cases origin with
  | none => exact absurd htables (by simp [joinedTables])
  | some origin =>
    obtain ⟨parent, association, linkAlias, tableAlias, hparent, hfollows⟩ :=
      run.linked_filtered.follows _ hentry origin rfl
    obtain ⟨hright, hleft⟩ := hfollows.keys htables
    refine forall_mem_cons.mpr ⟨?_, forall_mem_singleton.mpr
      (Atom.qualified_column hright (mem_append_right _ (.head _)))⟩
    rcases hleft with hleft | ⟨link, hlink, hleft⟩
    · -- The parent lies in the same range and came in before.
      obtain ⟨position, hposition⟩ := mem_iff_getElem?.mp hentry
      obtain ⟨found, hfound, hindex, hlt, hrange⟩ := hvalid.exists_parent hposition rfl
      obtain ⟨found', hfound', rfl⟩ := Scope.getElem?_of_elements hparent
      obtain rfl := Option.some.inj (hfound.symm.trans hfound')
      have hmem := mem_of_getElem? hfound
      obtain ⟨parentAlias, halias⟩ := run.exists_alias hmem
      have hbefore : found.Before ⟨element, some origin⟩ := by
        refine .inr ⟨hrange, ?_⟩
        rw [hindex, (hvalid.entry hposition).index_eq]
        exact hlt
      refine Atom.qualified_column (hleft.trans halias) (mem_append_left _ ?_)
      exact mem_append_left _ (hvalid.alias_mem_before hsplit hmem hbefore halias)
    · refine Atom.qualified_column hleft (mem_append_left _ ?_)
      exact mem_append_right _ (mem_map_of_mem hlink)

/-- A condition stands on the join that introduces the alias of its table. -/
theorem alias_of_condition {joined : JoinedTable} {condition : Condition}
    (hentry : entry ∈ run.filtered.entries) (hjoined : joined ∈ entry.joinedTables)
    (hcondition : condition ∈ joined.conditions) :
    entry.element.tableAlias = some joined.tableAlias := by
  obtain ⟨element, origin⟩ := entry
  cases origin with
  | none => cases hjoined
  | some origin =>
    obtain ⟨parent, association, linkAlias, tableAlias, -, hfollows⟩ :=
      run.linked_filtered.follows _ hentry origin rfl
    exact hfollows.alias_of_condition hjoined hcondition

/-- An on clause looks ahead only because of a condition of the query, and only to an
implicit join or to a later range. -/
theorem exists_looksAhead (h : ¬LooksBack atoms [] run.sql.introduced) :
    ∃ entry owner, run.filtered.LooksAhead entry owner
      ∧ (run.filtered.Implicit owner.element ∨ entry.element.range < owner.element.range) := by
  rw [looksBack_iff] at h
  push Not at h
  obtain ⟨before, entry, after, hsplit, between, joined, rest, htables, atom, hatom, hnot⟩ := h
  have hvalid := run.valid_filtered
  have hentry : entry ∈ run.filtered.entries :=
    hvalid.written_perm.mem_iff.mp (hsplit ▸ mem_append_right _ (.head _))
  have hjoined : joined ∈ entry.joinedTables := htables ▸ mem_append_right _ (.head _)
  rcases mem_append.mp hatom with hkey | hcondition
  · have hkeys := (run.looksBack_iff _).mp run.keys_look_back
    exact absurd (hkeys before entry after hsplit between joined rest htables atom hkey) hnot
  · obtain ⟨condition, hcond, hmemAtom⟩ := mem_flatMap.mp hcondition
    have hrefers := (run.conditioned.filtered run.filterRun) _ hentry joined hjoined condition
      hcond atom hmemAtom
    obtain ⟨element, tableAlias, ⟨helement, hseen⟩, halias, hqualifier, hfresh⟩ :=
      hrefers.exists_owner (fun owner howner => by
        obtain ⟨found, hfound, rfl⟩ := mem_map.mp howner.1
        exact run.exists_alias hfound) hnot
    obtain ⟨owner, howner, rfl⟩ := mem_map.mp helement
    have hbefore : entry.Before owner := by
      by_contra hnotBefore
      rcases hvalid.before_or_eq hentry howner hnotBefore with hearlier | rfl
      · have hmem := hvalid.alias_mem_before hsplit howner hearlier halias
        exact hfresh (mem_append_left _ (mem_append_left _ hmem))
      · have hown := run.alias_of_condition hentry hjoined hcond
        obtain rfl := Option.some.inj (halias.symm.trans hown)
        exact hfresh (mem_append_right _ (.head _))
    refine ⟨entry, owner, ⟨hentry, howner, ?_, hbefore⟩, ?_⟩
    · exact ⟨joined, hjoined, condition, hcond, atom, hmemAtom, tableAlias, halias, hqualifier⟩
    · rcases hseen with hle | himplicit
      · exact .inr (hbefore.resolve_right fun hsame => absurd hsame.2 (Nat.not_lt.mpr hle))
      · exact .inl himplicit

/-- If all aliases are different, what is written later is not introduced before. -/
theorem not_looksBack (hnodup : run.sql.declared.Nodup) {owner : ScopeEntry}
    (h : run.filtered.LooksAhead entry owner) : ¬LooksBack atoms [] run.sql.introduced := by
  intro hback
  obtain ⟨hentry, howner, ⟨joined, hjoined, condition, hcond, atom, hatom, tableAlias, halias,
    hqualifier⟩, hbefore⟩ := h
  have hvalid := run.valid_filtered
  obtain ⟨before, after, hsplit⟩ := append_of_mem (hvalid.written_perm.mem_iff.mpr hentry)
  obtain ⟨between, rest, htables⟩ := append_of_mem hjoined
  have hqualified := (run.looksBack_iff _).mp hback before entry after hsplit between joined rest
    htables atom (mem_append_right _ (mem_flatMap.mpr ⟨condition, hcond, hatom⟩))
  have hknown := Atom.mem_of_qualified hqualified hqualifier
  -- The aliases up to the table and the aliases after it have none in common.
  rw [hvalid.declared_eq rfl hsplit] at hnodup
  obtain ⟨-, -, hdisjoint⟩ := nodup_append.mp hnodup
  have hupTo : tableAlias ∈ before.flatMap ScopeEntry.declared ++ entry.declared := by
    rw [append_assoc] at hknown
    rcases mem_append.mp hknown with hfirst | hlast
    · exact mem_append_left _ hfirst
    · obtain ⟨table, htable, rfl⟩ : ∃ table ∈ between ++ [joined],
          table.tableAlias = tableAlias := by
        rw [← mem_map, map_append]
        exact hlast
      refine mem_append_right _ (ScopeEntry.mem_declared ?_)
      rw [htables, append_cons]
      exact mem_append_left _ htable
  have hafter : tableAlias ∈ after.flatMap ScopeEntry.declared :=
    mem_flatMap.mpr ⟨owner, hvalid.mem_after hsplit howner hbefore, hvalid.alias_mem howner halias⟩
  exact hdisjoint _ hupTo _ hafter rfl

/-- With one range and no implicit joins there is nothing to look ahead to. -/
theorem looksBack_of_single (hsingle : run.sql.ranges.length = 1)
    (hexplicit : run.scope.implicit = []) : LooksBack atoms [] run.sql.introduced := by
  by_contra hnot
  obtain ⟨entry, owner, hahead, ⟨key, hkey⟩ | hrange⟩ := run.exists_looksAhead hnot
  · obtain ⟨tables, -, -, hfiltered, -⟩ := Scope.filtered_eq_ok run.filterRun
    rw [hfiltered] at hkey
    exact absurd (hexplicit ▸ hkey) not_mem_nil
  · have hsame := run.valid_filtered.range_eq_of_single hsingle hahead.entry_mem hahead.owner_mem
    exact absurd hrange (hsame ▸ Nat.lt_irrefl _)

end Lowered.SelectRun

namespace Plan

variable {compiler : Compiler} {identifier query : String}
  {substitutions : List (String × String)} {plan : Plan}

/-- In the on clauses of a compiled select, the keys look back and filters are about
their own table. A condition of the query can look ahead, to an implicit join or to
a table of a later range, and to nothing else. -/
theorem compile_on_clauses
    (h : compile compiler identifier query substitutions = .ok plan)
    (hselect : plan.kind.isManipulation = false) :
    ∃ text select, ∃ run : Lowered.SelectRun (compiler.context text) select,
      substituted substitutions query = .ok text ∧ parsed text = .ok (.select select)
      ∧ lower compiler text (.select select) = .ok run.lowered
      ∧ plan = ofLowered compiler identifier query run.lowered
      ∧ LooksBack keys [] run.sql.introduced
      ∧ (∀ joined ∈ run.sql.ranges.flatMap (·.joins), ∀ text,
        Condition.filter text ∈ joined.conditions →
          ∃ filter, Filter.Renders joined.tableAlias filter text)
      ∧ (¬LooksBack atoms [] run.sql.introduced →
        ∃ entry owner, run.filtered.LooksAhead entry owner
          ∧ (run.filtered.Implicit owner.element ∨ entry.element.range < owner.element.range))
      ∧ (run.sql.declared.Nodup → ∀ entry owner, run.filtered.LooksAhead entry owner →
        ¬LooksBack atoms [] run.sql.introduced)
      ∧ (run.sql.ranges.length = 1 → run.scope.implicit = [] →
        LooksBack atoms [] run.sql.introduced) := by
  obtain ⟨text, select, run, htext, hparsed, hlower, heq⟩ := exists_lowered_of_compile h hselect
  exact ⟨text, select, run, htext, hparsed, hlower, heq, run.keys_look_back,
    fun joined hjoined text => run.filter_renders hjoined, run.exists_looksAhead,
    fun hnodup entry owner => run.not_looksBack hnodup, run.looksBack_of_single⟩

/-- A join into the first of two ranges, with a condition on the second. -/
theorem compile_on_clauses_ranges : ∃ plan,
    compile Sample.compiler "q"
        "select a.name from Person a, Person b join a.orders o with o.total > b.age" [] = .ok plan
      ∧ plan.kind.isManipulation = false
      ∧ ∃ text select, ∃ run : Lowered.SelectRun (Sample.compiler.context text) select,
        plan = ofLowered Sample.compiler "q"
            "select a.name from Person a, Person b join a.orders o with o.total > b.age" run.lowered
          ∧ LooksBack keys [] run.sql.introduced
          ∧ ∃ entry owner, run.filtered.LooksAhead entry owner
            ∧ (run.filtered.Implicit owner.element
              ∨ entry.element.range < owner.element.range) := by
  refine exists_ok_and (fun plan => plan.kind.isManipulation = false) (by decide +kernel)
    fun plan hplan hselect => ?_
  obtain ⟨text', statement, lowered, htext', hparsed', hlower', hahead⟩ := exists_lowered_of_any
    (show Lowers Sample.compiler
      "select a.name from Person a, Person b join a.orders o with o.total > b.age" []
      (fun lowered => ¬LooksBack atoms [] (lowered.statements.flatMap Statement.introduced)) = true
      by decide +kernel)
  obtain ⟨text, select, run, htext, hparsed, hlower, heq, hkeys, -, hlooks, -⟩ :=
    compile_on_clauses hplan hselect
  obtain rfl := Except.ok.inj (htext'.symm.trans htext)
  obtain rfl := Except.ok.inj (hparsed'.symm.trans hparsed)
  obtain rfl := Except.ok.inj (hlower'.symm.trans hlower)
  rw [Lowered.SelectRun.lowered, flatMap_singleton] at hahead
  exact ⟨hselect, text', select, run, heq, hkeys, hlooks hahead⟩

/-- The condition of a join that makes an implicit join looks ahead to it. -/
theorem on_clause_looks_ahead : ∃ plan lowered,
    compile Sample.compiler "q"
        "select p.name from Person p join p.orders o with o.customer.name = 'x'" [] = .ok plan
      ∧ plan = ofLowered Sample.compiler "q"
        "select p.name from Person p join p.orders o with o.customer.name = 'x'" lowered
      ∧ ¬LooksBack atoms []
        (lowered.statements.flatMap Statement.introduced) :=
  exists_plan_of_any (by decide +kernel)

end Plan

end EntityQuery
