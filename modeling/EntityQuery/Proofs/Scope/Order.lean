import EntityQuery.Proofs.Scope.Origins

/-!
# The order of the from clause

The from clause writes each root with the joined tables of its range behind it,
in the order in which they came in (`Scope.groups`). A joined table lies in the
range of its parent, and going from parent to parent ends at the root of the
range (`Valid.climbs`). So each table is written once, in the group of the root
that it leads up to, and after its parent (`Valid.groups_perm`,
`Valid.parent_before`).

One table is written before another if its range is earlier, or if it is in the
same range and came in earlier (`ScopeEntry.Before`).
-/

namespace EntityQuery

open List ScopeEntry

variable {position root : Nat} {entry other : ScopeEntry}

/-- In an ordered list, what is smaller than an element stands before it. -/
theorem mem_before_of_pairwise {α : Type} {R : α → α → Prop} (hasymm : ∀ {a b : α}, R a b → ¬R b a)
    {before after : List α} {a b : α} (h : (before ++ a :: after).Pairwise R)
    (hb : b ∈ before ++ a :: after) (hlt : R b a) : b ∈ before := by
  obtain ⟨-, hafter, -⟩ := pairwise_append.mp h
  rcases mem_append.mp hb with hbefore | hrest
  · exact hbefore
  · rcases mem_cons.mp hrest with rfl | hlater
    · exact absurd hlt (hasymm hlt)
    · exact absurd hlt (hasymm ((pairwise_cons.mp hafter).1 b hlater))

/-! ## From parent to parent -/

namespace Scope

variable {s : Scope}

/-- The table at one position is joined from the table at the other. -/
def Parent (scope : Scope) (child parent : Nat) : Prop :=
  ∃ entry origin, scope.entries[child]? = some entry ∧ entry.origin = some origin
    ∧ origin.parent = parent

/-- The table at a position is the root of a range. -/
def IsRoot (scope : Scope) (position : Nat) : Prop :=
  ∃ root, scope.entries[position]? = some root ∧ root.origin = none

abbrev LeadsUp (scope : Scope) : Nat → Nat → Prop :=
  Relation.ReflTransGen scope.Parent

theorem getElem?_of_elements {element : Element} (h : s.elements[position]? = some element) :
    ∃ entry, s.entries[position]? = some entry ∧ entry.element = element := by
  simpa [elements] using h

theorem Valid.parent_lt (h : s.Valid) {child parent : Nat} (hparent : s.Parent child parent) :
    parent < child := by
  obtain ⟨entry, origin, hentry, horigin, rfl⟩ := hparent
  obtain ⟨-, -, hlt, -⟩ := (h.entry hentry).parent origin horigin
  exact hlt

/-- A joined table lies in the range of its parent. -/
theorem Valid.exists_parent (h : s.Valid) {origin : JoinOrigin}
    (hentry : s.entries[position]? = some entry) (horigin : entry.origin = some origin) :
    ∃ parent, s.entries[origin.parent]? = some parent ∧ parent.element.index = origin.parent
      ∧ origin.parent < position ∧ parent.element.range = entry.element.range := by
  obtain ⟨element, helement, hlt, hrange⟩ := (h.entry hentry).parent origin horigin
  obtain ⟨parent, hparent, rfl⟩ := getElem?_of_elements helement
  exact ⟨parent, hparent, (h.entry hparent).index_eq, hlt, hrange.symm⟩

/-- Each table leads up to the root of its range. -/
theorem Valid.climbs (h : s.Valid) : ∀ {position : Nat} {entry : ScopeEntry},
    s.entries[position]? = some entry →
      s.LeadsUp position entry.element.range ∧ s.IsRoot entry.element.range := by
  intro position
  induction position using Nat.strongRecOn with
  | ind position ih =>
    intro entry hentry
    cases horigin : entry.origin with
    | none =>
      rw [(h.entry hentry).root_range horigin]
      exact ⟨.refl, entry, hentry, horigin⟩
    | some origin =>
      obtain ⟨parent, hparent, -, hlt, hrange⟩ := h.exists_parent hentry horigin
      obtain ⟨hup, hroot⟩ := ih origin.parent hlt hparent
      rw [← hrange]
      exact ⟨.head ⟨entry, origin, hentry, horigin, rfl⟩ hup, hroot⟩

theorem Valid.leadsUp_le (h : s.Valid) (hup : s.LeadsUp position root) : root ≤ position := by
  induction hup with
  | refl => exact Nat.le_refl _
  | tail _ hparent ih => exact Nat.le_trans (Nat.le_of_lt (h.parent_lt hparent)) ih

/-- A joined table comes after the root of its range. -/
theorem Valid.range_lt (h : s.Valid) (hentry : entry ∈ s.entries)
    (hjoined : entry.origin.isSome) : entry.element.range < entry.element.index := by
  obtain ⟨position, hposition⟩ := mem_iff_getElem?.mp hentry
  obtain ⟨origin, horigin⟩ := Option.isSome_iff_exists.mp hjoined
  obtain ⟨parent, hparent, -, hlt, hrange⟩ := h.exists_parent hposition horigin
  rw [(h.entry hposition).index_eq, ← hrange]
  exact Nat.lt_of_le_of_lt (h.leadsUp_le (h.climbs hparent).1) hlt

/-- It leads up to no other root. -/
theorem Valid.root_unique (h : s.Valid) (hup : s.LeadsUp position root) (hroot : s.IsRoot root) :
    ∀ {entry : ScopeEntry}, s.entries[position]? = some entry →
      root = entry.element.range := by
  induction hup using Relation.ReflTransGen.head_induction_on with
  | refl =>
    intro entry hentry
    obtain ⟨found, hfound, horigin⟩ := hroot
    obtain rfl := Option.some.inj (hfound.symm.trans hentry)
    exact ((h.entry hentry).root_range horigin).symm
  | head hparent _ ih =>
    intro entry hentry
    obtain ⟨child, origin, hchild, horigin, rfl⟩ := hparent
    obtain rfl := Option.some.inj (hchild.symm.trans hentry)
    obtain ⟨parent, hfound, -, -, hrange⟩ := h.exists_parent hentry horigin
    rw [ih hfound, hrange]

end Scope

/-! ## Groups -/

/-- A root and the joined tables of its range. -/
structure FromGroup where
  root : ScopeEntry
  joined : List ScopeEntry

/-- What is written for a group. -/
def FromGroup.range (group : FromGroup) : Sql.TableRange where
  table := group.root.element.entity.table
  tableAlias := group.root.element.tableAlias
  joins := group.joined.flatMap joinedTables

/-- The table is written before the other. -/
def ScopeEntry.Before (entry other : ScopeEntry) : Prop :=
  entry.element.range < other.element.range
    ∨ entry.element.range = other.element.range ∧ entry.element.index < other.element.index

theorem ScopeEntry.before_asymm (h : entry.Before other) : ¬other.Before entry := by
  unfold Before at h ⊢
  omega

namespace Scope

variable {s : Scope}

def joinedIn (scope : Scope) (root : Nat) : List ScopeEntry :=
  (scope.entries.filter (·.origin.isSome)).filter (·.element.range == root)

def groups (scope : Scope) : List FromGroup :=
  (scope.entries.filter (·.origin.isNone)).map fun root =>
    ⟨root, scope.joinedIn root.element.index⟩

/-- The tables in the order in which the from clause writes them. -/
def written (scope : Scope) : List ScopeEntry :=
  scope.groups.flatMap fun group => group.root :: group.joined

/-- The from clause writes the groups; a root brings no joins of its own. -/
theorem ranges_eq (s : Scope) : s.ranges = s.groups.map FromGroup.range := by
  have hjoins : ∀ root : Nat,
      (s.entries.filter (·.element.range == root)).flatMap joinedTables
        = (s.joinedIn root).flatMap joinedTables := by
    intro root
    rw [joinedIn]
    induction s.entries with
    | nil => rfl
    | cons entry rest ih =>
      obtain ⟨element, origin⟩ := entry
      cases origin with
      | none =>
        have hnone : joinedTables ⟨element, none⟩ = [] := rfl
        rw [filter_cons, filter_cons_of_neg (by simp), ← ih]
        split
        · rw [flatMap_cons, hnone, nil_append]
        · rfl
      | some origin =>
        rw [filter_cons_of_pos (p := fun entry : ScopeEntry => entry.origin.isSome) rfl,
          filter_cons, filter_cons]
        split
        · rw [flatMap_cons, flatMap_cons, ih]
        · exact ih
  rw [ranges, roots, groups, map_map, map_map]
  refine map_congr_left fun root _ => ?_
  simp only [Function.comp_apply, FromGroup.range, hjoins]

theorem mem_joinedIn :
    entry ∈ s.joinedIn root ↔ entry ∈ s.entries ∧ entry.origin.isSome = true
      ∧ entry.element.range = root := by
  rw [joinedIn, mem_filter, mem_filter, beq_iff_eq, and_assoc]

/-- Every table of a valid scope is written, once. -/
theorem Valid.written_perm (h : s.Valid) : s.written.Perm s.entries := by
  have hroots : s.groups.map FromGroup.root = s.entries.filter (·.origin.isNone) := by
    rw [groups, map_map]
    exact map_id' _
  have hindices : (s.entries.filter (·.origin.isNone)).map (·.element.index)
      = s.roots.map (·.index) := by
    rw [roots, map_map]
    rfl
  have hjoined : (s.groups.flatMap FromGroup.joined).Perm (s.entries.filter (·.origin.isSome)) := by
    have hgrouped := flatMap_filter_perm (·.element.range) (s.roots.map (·.index))
      (s.entries.filter (·.origin.isSome)) h.nodup_roots
      fun entry hentry => h.range_mem_roots (mem_filter.mp hentry).1
    rw [← hindices, flatMap_map] at hgrouped
    rw [groups, flatMap_map]
    exact hgrouped
  have hsplit : s.written.Perm
      (s.groups.map FromGroup.root ++ s.groups.flatMap FromGroup.joined) := by
    rw [map_eq_flatMap]
    exact (flatMap_append_perm s.groups (fun group => [group.root]) FromGroup.joined).symm
  have hnone : (fun entry : ScopeEntry => entry.origin.isNone)
      = fun entry => !entry.origin.isSome := by
    funext entry
    cases entry.origin <;> rfl
  refine hsplit.trans ?_
  rw [hroots]
  refine (hjoined.append_left _).trans ?_
  rw [hnone]
  exact perm_append_comm.trans (filter_append_perm ..)

/-! ## Before and after -/

theorem Valid.pairwise_index (h : s.Valid) :
    s.entries.Pairwise fun entry later => entry.element.index < later.element.index := by
  have hrange : (s.entries.map (·.element.index)).Pairwise (· < ·) := by
    rw [h.indices_eq]
    exact pairwise_lt_range
  exact pairwise_map.mp hrange

theorem Valid.range_eq_index (h : s.Valid) {root : ScopeEntry}
    (hroot : root ∈ s.entries.filter (·.origin.isNone)) :
    root.element.range = root.element.index := by
  obtain ⟨hmem, hnone⟩ := mem_filter.mp hroot
  obtain ⟨position, hposition⟩ := mem_iff_getElem?.mp hmem
  have hvalid := h.entry hposition
  rw [hvalid.root_range (Option.isNone_iff_eq_none.mp hnone), hvalid.index_eq]

theorem Valid.range_of_mem (h : s.Valid) {root : ScopeEntry}
    (hroot : root ∈ s.entries.filter (·.origin.isNone))
    (hentry : entry ∈ root :: s.joinedIn root.element.index) :
    entry.element.range = root.element.index := by
  rcases mem_cons.mp hentry with rfl | hjoined
  · exact h.range_eq_index hroot
  · exact (mem_joinedIn.mp hjoined).2.2

/-- The tables of the from clause stand in the order of their ranges, and within a
range in the order of their positions. -/
theorem Valid.pairwise_written (h : s.Valid) : s.written.Pairwise Before := by
  rw [written, groups, flatMap_map, pairwise_flatMap]
  constructor
  · intro root hroot
    have hjoined : (s.joinedIn root.element.index).Pairwise
        fun entry later => entry.element.index < later.element.index :=
      h.pairwise_index.sublist (filter_sublist.trans filter_sublist)
    refine pairwise_cons.mpr ⟨fun entry hentry => .inr ?_, hjoined.imp_of_mem ?_⟩
    · obtain ⟨hmem, hsome, hrange⟩ := mem_joinedIn.mp hentry
      have hlt := h.range_lt hmem hsome
      exact ⟨(h.range_eq_index hroot).trans hrange.symm, hrange ▸ hlt⟩
    · intro entry later hentry hlater hlt
      refine .inr ⟨?_, hlt⟩
      rw [h.range_of_mem hroot (.tail _ hentry), h.range_of_mem hroot (.tail _ hlater)]
  · refine (h.pairwise_index.sublist filter_sublist).imp_of_mem ?_
    intro root later hroot hlater hlt entry hentry other hother
    refine .inl ?_
    rw [h.range_of_mem hroot hentry, h.range_of_mem hlater hother]
    exact hlt

/-- What is written before a table is just what comes before it. -/
theorem Valid.mem_before_iff (h : s.Valid) {before after : List ScopeEntry}
    (hsplit : s.written = before ++ entry :: after) (other : ScopeEntry) :
    other ∈ before ↔ other ∈ s.entries ∧ other.Before entry := by
  have hpairwise := h.pairwise_written
  have hperm := h.written_perm
  rw [hsplit] at hpairwise hperm
  constructor
  · intro hother
    obtain ⟨-, -, hbefore⟩ := pairwise_append.mp hpairwise
    exact ⟨hperm.mem_iff.mp (mem_append_left _ hother), hbefore other hother entry (.head _)⟩
  · rintro ⟨hmem, hlt⟩
    exact mem_before_of_pairwise before_asymm hpairwise (hperm.mem_iff.mpr hmem) hlt

theorem Valid.mem_after (h : s.Valid) {before after : List ScopeEntry}
    (hsplit : s.written = before ++ entry :: after) (hother : other ∈ s.entries)
    (hlt : entry.Before other) : other ∈ after := by
  have hmem := h.written_perm.mem_iff.mpr hother
  rw [hsplit] at hmem
  rcases mem_append.mp hmem with hbefore | hrest
  · have hearlier := ((h.mem_before_iff hsplit other).mp hbefore).2
    exact absurd hlt (before_asymm hearlier)
  · rcases mem_cons.mp hrest with rfl | hafter
    · exact absurd hlt (before_asymm hlt)
    · exact hafter

theorem Valid.eq_of_index_eq (h : s.Valid) (hentry : entry ∈ s.entries) (hother : other ∈ s.entries)
    (heq : entry.element.index = other.element.index) : entry = other := by
  obtain ⟨position, hposition⟩ := mem_iff_getElem?.mp hentry
  obtain ⟨position', hposition'⟩ := mem_iff_getElem?.mp hother
  rw [(h.entry hposition).index_eq, (h.entry hposition').index_eq] at heq
  exact Option.some.inj (hposition.symm.trans (heq ▸ hposition'))

end Scope

/-- The joined tables of a group lead up to its root, and each of them stands after
the table that it is joined from. -/
structure FromGroup.WellPlaced (group : FromGroup) (scope : Scope) : Prop where
  root : group.root.origin = none
  joined : ∀ entry ∈ group.joined, entry.origin.isSome = true
  leadsUp : ∀ entry ∈ group.joined, scope.LeadsUp entry.element.index group.root.element.index
  after_parent : ∀ {before after : List ScopeEntry} {entry : ScopeEntry} {origin : JoinOrigin},
    group.joined = before ++ entry :: after → entry.origin = some origin →
      ∃ parent ∈ group.root :: before, parent.element.index = origin.parent

theorem Scope.Valid.groups_placed {s : Scope} (h : s.Valid) :
    ∀ group ∈ s.groups, group.WellPlaced s := by
  intro group hgroup
  obtain ⟨root, hroot, rfl⟩ := mem_map.mp hgroup
  obtain ⟨hrootMem, hrootNone⟩ := mem_filter.mp hroot
  refine ⟨Option.isNone_iff_eq_none.mp hrootNone,
    fun entry hentry => (mem_joinedIn.mp hentry).2.1, ?_, ?_⟩
  · intro entry hentry
    obtain ⟨hmem, -, hrange⟩ := mem_joinedIn.mp hentry
    obtain ⟨position, hposition⟩ := mem_iff_getElem?.mp hmem
    rw [(h.entry hposition).index_eq, ← hrange]
    exact (h.climbs hposition).1
  · intro before after entry origin hsplit horigin
    change s.joinedIn root.element.index = before ++ entry :: after at hsplit
    have hentry : entry ∈ s.joinedIn root.element.index :=
      hsplit ▸ mem_append_right _ (.head _)
    obtain ⟨hmem, -, hrange⟩ := mem_joinedIn.mp hentry
    obtain ⟨position, hposition⟩ := mem_iff_getElem?.mp hmem
    obtain ⟨parent, hparent, hindex, hlt, hparentRange⟩ := h.exists_parent hposition horigin
    rw [← (h.entry hposition).index_eq, ← hindex] at hlt
    have hparentMem := mem_of_getElem? hparent
    refine ⟨parent, ?_, hindex⟩
    cases hkind : parent.origin with
    | none =>
      -- The only root of the range is the root of the group.
      have hself := h.range_eq_index (mem_filter.mpr ⟨hparentMem, by rw [hkind]; rfl⟩)
      have heq : parent = root :=
        h.eq_of_index_eq hparentMem hrootMem (by rw [← hself, hparentRange, hrange])
      exact heq ▸ .head _
    | some grandOrigin =>
      have hjoined : parent ∈ s.joinedIn root.element.index :=
        mem_joinedIn.mpr ⟨hparentMem, by rw [hkind]; rfl, hparentRange.trans hrange⟩
      have hpairwise : (s.joinedIn root.element.index).Pairwise
          fun entry later => entry.element.index < later.element.index :=
        h.pairwise_index.sublist (filter_sublist.trans filter_sublist)
      rw [hsplit] at hjoined hpairwise
      exact .tail _ (mem_before_of_pairwise Nat.lt_asymm hpairwise hjoined hlt)

end EntityQuery
