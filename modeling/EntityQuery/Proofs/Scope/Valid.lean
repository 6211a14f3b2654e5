import EntityQuery.Proofs.Scope.Growth

/-!
# Valid scopes

In a valid scope every table knows its own position, a root is its own
range, a joined table comes after the table it is joined from and lies in
the same range, and all names lead to tables that are there. `Scope.Valid`
holds of the empty scope and is kept by every step of a growing scope, and
by a condition put on a join (`Valid.step`, `Valid.addCondition`). So it
holds of every scope that compiling a statement goes through.

What other proofs take from it: a table is found at its own index
(`Valid.getElem?_index`), and the range of every table is the position of a
root (`Valid.exists_root`), which is why each joined table is written in
the range of exactly one root.
-/

namespace EntityQuery

open List

namespace Scope

variable {context : Context} {s s' : Scope}

variable {entry : ScopeEntry} {position : Nat}

/-! ## What steps keep -/

/-- The new tables of a step come after the old ones. -/
theorem Step.entries_append (h : Step context s s') :
    ∃ added, s'.entries = s.entries ++ added ∧ ∀ entry ∈ added, entry.Fresh context := by
  cases h with
  | root hentity hfree =>
    rename_i name entity alias?
    exact ⟨[s.rootEntry entity], entries_withRoot ..,
      forall_mem_singleton.mpr ⟨⟨name, hentity⟩, forall_mem_nil _⟩⟩
  | joined hjoin =>
    cases hjoin with
    | join hparent hproperty hkind htarget horigin hfree hbulk =>
      rename_i s₁ kind parent name property association target tableAlias origin alias?
      obtain ⟨hleads, hsame⟩ := joinOrigin_run horigin
      exact ⟨[⟨⟨s.entries.length, parent.range, target, some tableAlias⟩, some origin⟩],
        hsame.entries_withEntry .., forall_mem_singleton.mpr ⟨⟨_, htarget⟩, hleads.entry_bare⟩⟩
    | remember helement => exact ⟨[], (append_nil _).symm, forall_mem_nil _⟩
  | table | giveAlias => exact ⟨[], (append_nil _).symm, forall_mem_nil _⟩

theorem Step.bulk_eq (h : Step context s s') : s'.bulk = s.bulk := by
  cases h with
  | root hentity hfree =>
    simp only [withRoot, withEntry]
    split <;> rfl
  | joined hjoin =>
    cases hjoin with
    | join hparent hproperty hkind htarget horigin hfree hbulk =>
      exact (joinOrigin_run horigin).2.bulk_eq
    | remember helement => rfl
  | table | giveAlias => rfl

theorem Steps.entries_append (h : Steps context s s') :
    ∃ added, s'.entries = s.entries ++ added ∧ ∀ entry ∈ added, entry.Fresh context := by
  induction h with
  | refl => exact ⟨[], (append_nil _).symm, forall_mem_nil _⟩
  | tail _ hstep ih =>
    obtain ⟨added, hadded, hfresh⟩ := ih
    obtain ⟨added', hadded', hfresh'⟩ := hstep.entries_append
    refine ⟨added ++ added', by rw [hadded', hadded, append_assoc], ?_⟩
    exact forall_mem_append.mpr ⟨hfresh, hfresh'⟩

theorem Steps.bulk_eq (h : Steps context s s') : s'.bulk = s.bulk := by
  induction h with
  | refl => rfl
  | tail _ hstep ih => rw [hstep.bulk_eq, ih]

theorem Steps.elements_subset (h : Steps context s s') : s.elements ⊆ s'.elements := by
  obtain ⟨added, hadded, -⟩ := h.entries_append
  rw [elements, elements, hadded]
  exact map_subset _ (subset_append_left ..)

/-! ## The invariant -/

/-- An entry in its place: it knows its position; as a root it is its own
range, as a joined table it comes after its parent and lies in the range of
that; and it is joined under the alias that its columns are written with. -/
structure EntryValid (bulk : Bool) (elements : List Element) (position : Nat)
    (entry : ScopeEntry) : Prop where
  index_eq : entry.element.index = position
  alias_isSome : bulk = false → entry.element.tableAlias.isSome
  root_range : entry.origin = none → entry.element.range = position
  parent : ∀ origin, entry.origin = some origin →
    ∃ parent, elements[origin.parent]? = some parent
      ∧ origin.parent < position ∧ entry.element.range = parent.range
  joined : ∀ origin, entry.origin = some origin →
    entry.element.tableAlias = some origin.target.tableAlias
      ∧ entry.element.entity.table = origin.target.table

/-- All entries are in their places, and all names lead to tables of the
scope. -/
structure Valid (scope : Scope) : Prop where
  entry : ∀ {position entry}, scope.entries[position]? = some entry →
    EntryValid scope.bulk scope.elements position entry
  aliases : ∀ p ∈ scope.aliases, p.2 ∈ scope.elements
  implicit : ∀ p ∈ scope.implicit, p.2 ∈ scope.elements

theorem Valid.empty (bulk : Bool) : Valid { bulk := bulk } where
  entry h := by simp at h
  aliases p hp := by cases hp
  implicit p hp := by cases hp

theorem Valid.of_sameTables (hsame : SameTables s s') (h : s.Valid) : s'.Valid := by
  have helements : s'.elements = s.elements := by
    rw [elements, hsame.entries_eq, elements]
  constructor
  · intro position entry hentry
    rw [hsame.entries_eq] at hentry
    rw [hsame.bulk_eq, helements]
    exact h.entry hentry
  · rw [hsame.aliases_eq, helements]
    exact h.aliases
  · rw [hsame.implicit_eq, helements]
    exact h.implicit

theorem Valid.getElem?_index (h : s.Valid) {element : Element}
    (helement : element ∈ s.elements) : s.elements[element.index]? = some element := by
  obtain ⟨position, hposition⟩ := mem_iff_getElem?.mp helement
  obtain ⟨entry, hentry, rfl⟩ : ∃ entry, s.entries[position]? = some entry
      ∧ entry.element = element := by
    simpa [elements] using hposition
  rw [(h.entry hentry).index_eq]
  exact hposition

theorem getElem?_elements_append {found : Element} (h : s.elements[position]? = some found) :
    ((s.entries ++ [entry]).map (·.element))[position]? = some found := by
  rw [map_append]
  exact (List.getElem?_append_left (List.getElem?_eq_some_iff.mp h).1).trans h

theorem Valid.withEntry (h : s.Valid) {alias? : Option String}
    (hentry : EntryValid s.bulk s.elements s.entries.length entry) :
    (s.withEntry entry alias?).Valid := by
  have hsubset : s.elements ⊆ (s.withEntry entry alias?).elements :=
    map_subset _ (subset_append_left ..)
  have hkeep : ∀ {position found}, EntryValid s.bulk s.elements position found →
      EntryValid s.bulk (s.withEntry entry alias?).elements position found := by
    intro position found hfound
    refine ⟨hfound.index_eq, hfound.alias_isSome, hfound.root_range, ?_, hfound.joined⟩
    intro origin horigin
    obtain ⟨parent, hparent, hlt, hrange⟩ := hfound.parent origin horigin
    exact ⟨parent, getElem?_elements_append hparent, hlt, hrange⟩
  constructor
  · intro position found hfound
    have hfound' : (s.entries ++ [entry])[position]? = some found := hfound
    rcases Nat.lt_or_ge position s.entries.length with hlt | hge
    · rw [List.getElem?_append_left hlt] at hfound'
      exact hkeep (h.entry hfound')
    · rw [List.getElem?_append_right hge, List.getElem?_singleton] at hfound'
      split at hfound'
      · rename_i hzero
        obtain rfl := Option.some.inj hfound'
        rw [show position = s.entries.length by omega]
        exact hkeep hentry
      · cases hfound'
  · intro p hp
    rcases mem_append.mp hp with hold | hnew
    · exact hsubset (h.aliases p hold)
    · obtain ⟨name, -, rfl⟩ := mem_map.mp hnew
      simp [elements, Scope.withEntry]
  · intro p hp
    exact hsubset (h.implicit p hp)

theorem Valid.joinStep (hstep : JoinStep context s s') (h : s.Valid) : s'.Valid := by
  cases hstep with
  | join hparent hproperty hkind htarget horigin hfree hbulk =>
    rename_i s₁ kind parent name property association target tableAlias origin alias?
    obtain ⟨hleads, hsame⟩ := joinOrigin_run horigin
    have hsame' : SameTables s (s₁.addTable target.table) :=
      ⟨hsame.entries_eq, hsame.aliases_eq, hsame.implicit_eq, hsame.bulk_eq⟩
    refine (h.of_sameTables hsame').withEntry ⟨?_, ?_, ?_, ?_, ?_⟩
    · rw [hsame'.entries_eq]
    · intro _
      rfl
    · intro hroot
      cases hroot
    · rintro _ ⟨rfl⟩
      have hfound := h.getElem?_index hparent
      refine ⟨parent, ?_, ?_, rfl⟩
      · rw [hleads.parent_eq, elements, hsame'.entries_eq]
        exact hfound
      · rw [hleads.parent_eq, hsame'.entries_eq]
        simpa [elements] using (List.getElem?_eq_some_iff.mp hfound).1
    · rintro _ ⟨rfl⟩
      exact ⟨by rw [hleads.alias_eq], hleads.table_eq.symm⟩
  | remember helement =>
    refine ⟨fun hentry => h.entry hentry, h.aliases, ?_⟩
    intro p hp
    rcases mem_append.mp hp with hold | hnew
    · exact h.implicit p hold
    · rw [mem_singleton.mp hnew]
      exact helement

theorem Valid.step (hstep : Step context s s') (h : s.Valid) : s'.Valid := by
  cases hstep with
  | root hentity hfree =>
    rename_i name entity alias?
    have hsame : SameTables s ((if s.bulk then s else s.countAlias).addTable entity.table) := by
      constructor <;> split <;> rfl
    refine (h.of_sameTables hsame).withEntry ⟨?_, ?_, ?_, ?_, ?_⟩
    · rw [hsame.entries_eq]
      rfl
    · intro hbulk
      rw [hsame.bulk_eq] at hbulk
      simp [rootEntry, hbulk]
    · intro _
      rw [hsame.entries_eq]
      rfl
    · intro origin horigin
      cases horigin
    · intro origin horigin
      cases horigin
  | joined hjoin => exact h.joinStep hjoin
  | table | giveAlias => exact ⟨fun hentry => h.entry hentry, h.aliases, h.implicit⟩

/-- Conditions change the origin of an entry only, and of that the conditions
only. -/
theorem EntryValid.restrict {bulk : Bool} {elements : List Element}
    (h : EntryValid bulk elements position entry) (conditions : List Sql.Condition) :
    EntryValid bulk elements position (entry.restrict conditions) := by
  obtain ⟨element, origin⟩ := entry
  cases origin with
  | none => exact h
  | some origin =>
    refine ⟨h.index_eq, h.alias_isSome, fun hnone => (nomatch hnone), ?_, ?_⟩
    · rintro _ ⟨rfl⟩
      exact h.parent origin rfl
    · rintro _ ⟨rfl⟩
      exact h.joined origin rfl

@[simp] theorem elements_addCondition (index : Nat) (condition : Sql.Condition) :
    (s.addCondition index condition).elements = s.elements := by
  apply ext_getElem?
  intro position
  simp only [elements, addCondition, List.getElem?_map, List.getElem?_modify]
  cases s.entries[position]? with
  | none => rfl
  | some entry =>
    simp only [Option.map_some]
    split <;> rfl

theorem Valid.addCondition (h : s.Valid) (index : Nat) (condition : Sql.Condition) :
    (s.addCondition index condition).Valid := by
  constructor
  · intro position entry hentry
    rw [elements_addCondition]
    simp only [Scope.addCondition, List.getElem?_modify, Option.map_eq_map,
      Option.map_eq_some_iff] at hentry
    obtain ⟨old, hold, rfl⟩ := hentry
    split
    · exact (h.entry hold).restrict _
    · exact h.entry hold
  · rw [elements_addCondition]
    exact h.aliases
  · rw [elements_addCondition]
    exact h.implicit

theorem Valid.steps (hsteps : Steps context s s') (h : s.Valid) : s'.Valid := by
  induction hsteps with
  | refl => exact h
  | tail _ hstep ih => exact ih.step hstep

theorem Valid.joins (hjoins : Joins context s s') (h : s.Valid) : s'.Valid :=
  h.steps hjoins.steps

/-- The range of a table is the position of a root, which is reached from the
table by going from parent to parent. -/
theorem Valid.exists_root (h : s.Valid) : ∀ {position : Nat} {entry : ScopeEntry},
    s.entries[position]? = some entry →
      ∃ root, s.entries[entry.element.range]? = some root ∧ root.origin = none := by
  intro position
  induction position using Nat.strongRecOn with
  | ind position ih =>
    intro entry hentry
    have hvalid := h.entry hentry
    cases horigin : entry.origin with
    | none => exact ⟨entry, hvalid.root_range horigin ▸ hentry, horigin⟩
    | some origin =>
      obtain ⟨parent, hparent, hlt, hrange⟩ := hvalid.parent origin horigin
      obtain ⟨parentEntry, hparentEntry, rfl⟩ : ∃ parentEntry,
          s.entries[origin.parent]? = some parentEntry
            ∧ parentEntry.element = parent := by
        simpa [elements] using hparent
      rw [hrange]
      exact ih origin.parent hlt hparentEntry

end Scope

end EntityQuery
