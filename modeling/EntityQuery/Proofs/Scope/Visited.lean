import Mathlib.Data.List.Nodup
import EntityQuery.Proofs.Scope.Twins

/-!
# The scopes that compiling goes through

Once the tables of a query are in the scope, all that the clauses do to it is ask for
implicit joins, and use tables in subqueries (`Scope.Refers`, and `Scope.Later` for any
number of these steps). Before that, roots and joins of the query come in, and
conditions are put on the joins. `Scope.Visited` holds of the scopes that come about
in these ways, so what its cases keep is true while any statement is compiled.

Nothing else has grown from such a scope yet (`Visited.grown`), and it holds one
implicit join at most for an owner and a property (`Visited.joinsOnce`,
`JoinsOnce.unique`). Every table that comes in later is an implicit join
(`Later.exists_added`).
-/

namespace EntityQuery

open List

/-- The table that an entry is joined from and the property it is joined along. -/
def ScopeEntry.joinedFor? (entry : ScopeEntry) : Option (Nat × String) :=
  entry.origin.map fun origin => (origin.parent, origin.property)

@[simp] theorem ScopeEntry.joinedFor?_restrict (entry : ScopeEntry)
    (conditions : List Sql.Condition) :
    (entry.restrict conditions).joinedFor? = entry.joinedFor? := by
  simp only [joinedFor?, restrict, Option.map_map]
  rfl

namespace Scope

variable {context : Context} {base s s' : Scope}

/-! ## The steps of clauses -/

/-- One step of a clause: an implicit join is asked for, which is made or found again,
or a subquery uses a table, under an alias that is given out. -/
inductive Refers (context : Context) : Scope → Scope → Prop where
  | implicitJoin {s s' : Scope} {owner element : Element} {property : String} {path : List String}
      (howner : owner ∈ s.elements)
      (hrun : (implicitJoin context owner property path).run s = .ok (element, s')) :
      Refers context s s'
  | addTable {s : Scope} {table : String} : Refers context s (s.addTable table)
  | countAlias {s : Scope} : Refers context s s.countAlias

/-- The second scope comes after the first, with any number of such steps between. -/
abbrev Later (context : Context) : Scope → Scope → Prop :=
  Relation.ReflTransGen (Refers context)

theorem Grown.refers (hstep : Refers context s s') (h : Grown context base s) :
    Grown context base s' := by
  cases hstep with
  | implicitJoin howner hrun => exact h.joins (implicitJoin_run h.valid howner hrun).1
  | addTable => exact h.of_sameTables (.addTable ..)
  | countAlias => exact h.of_sameTables (.countAlias _)

/-- A scope that has grown from another can be grown from. -/
theorem Grown.self (h : Grown context base s) : Grown context s s :=
  .refl h.valid h.remembers h.mapped

theorem Joins.later (h : Joins context s s') : Later context s s' := by
  induction h with
  | refl => exact .refl
  | tail _ himplicit ih =>
    obtain ⟨-, -, -, -, howner, -, path, hrun⟩ := himplicit
    exact ih.tail (.implicitJoin howner hrun)

/-! ## The scopes of statements -/

/-- A scope that compiling a statement may go through. -/
inductive Visited (context : Context) : Scope → Prop where
  | empty (bulk : Bool) : Visited context { bulk := bulk }
  | addRoot {s s' : Scope} {name : String} {alias? : Option String} {root : Element}
      (h : Visited context s) (hrun : (addRoot context name alias?).run s = .ok (root, s')) :
      Visited context s'
  /-- Bulk statements have no joins. -/
  | addJoin {s s' : Scope} {parent element : Element} {property : String}
      {kind : Query.JoinKind} {alias? : Option String} (h : Visited context s)
      (hbulk : s.bulk = false) (hparent : parent ∈ s.elements)
      (hrun : (addJoin context parent property kind alias?).run s = .ok (element, s')) :
      Visited context s'
  | addCondition {s : Scope} (h : Visited context s) (index : Nat) (condition : Sql.Condition) :
      Visited context (s.addCondition index condition)
  | refers {s s' : Scope} (h : Visited context s) (hstep : Refers context s s') : Visited context s'

theorem Visited.later (h : Visited context s) (hlater : Later context s s') :
    Visited context s' := by
  induction hlater with
  | refl => exact h
  | tail _ hstep ih => exact ih.refers hstep

/-- A step that remembers no implicit join leaves a scope that can be grown from. -/
theorem Grown.step_self (hstep : Step context s s') (himplicit : s'.implicit = s.implicit)
    (h : Grown context s s) : Grown context s' s' := by
  have hsubset := Steps.elements_subset (.single hstep)
  obtain ⟨added, hadded, hfresh⟩ := hstep.entries_append
  refine .refl (h.valid.step hstep) (h.remembers.mono himplicit hsubset) ?_
  intro element helement
  rw [elements, hadded, map_append] at helement
  rcases mem_append.mp helement with hold | hnew
  · exact h.mapped element hold
  · obtain ⟨entry, hentry, rfl⟩ := mem_map.mp hnew
    exact (hfresh entry hentry).mapped

theorem implicit_withRoot (s : Scope) (entity : Entity) (alias? : Option String) :
    (s.withRoot entity alias?).implicit = s.implicit := by
  unfold withRoot withEntry
  split <;> rfl

/-- Nothing has grown yet from a scope of a statement. -/
theorem Visited.grown (h : Visited context s) : Grown context s s := by
  induction h with
  | empty bulk => exact .refl (.empty bulk) (forall_mem_nil _) (forall_mem_nil _)
  | addRoot _ hrun ih =>
    obtain ⟨entity, -, -, -, rfl⟩ := addRoot_eq_ok hrun
    exact ih.step_self (addRoot_run hrun).1 (implicit_withRoot ..)
  | addJoin _ hbulk hparent hrun ih =>
    obtain ⟨hstep, origin, -, himplicit, -⟩ := addJoin_run hbulk hparent hrun
    exact ih.step_self (.joined hstep) himplicit
  | addCondition _ index condition ih =>
    refine .refl (ih.valid.addCondition index condition) (ih.remembers.mono rfl ?_) ?_
    · rw [elements_addCondition]
      exact List.Subset.refl _
    · rw [elements_addCondition]
      exact ih.mapped
  | refers _ hstep ih => exact (ih.refers hstep).self

/-! ## Implicit joins are made once -/

/-- Each implicit join is remembered for one owner and property, for which no other is
remembered, and is a table of the scope that is joined for these. -/
structure JoinsOnce (scope : Scope) : Prop where
  nodup : (scope.implicit.map (·.1)).Nodup
  joined : ∀ found ∈ scope.implicit, ∃ entry ∈ scope.entries,
    entry.element = found.2 ∧ entry.joinedFor? = some found.1

/-- The entry came in by an implicit join. -/
def IsImplicit (scope : Scope) (entry : ScopeEntry) : Prop :=
  entry ∈ scope.entries ∧ entry.element ∈ scope.implicit.map (·.2)

theorem JoinsOnce.mono (h : s.JoinsOnce) (himplicit : s'.implicit = s.implicit)
    (hentries : ∀ entry ∈ s.entries, ∃ other ∈ s'.entries,
      other.element = entry.element ∧ other.joinedFor? = entry.joinedFor?) : s'.JoinsOnce where
  nodup := himplicit ▸ h.nodup
  joined found hfound := by
    rw [himplicit] at hfound
    obtain ⟨entry, hentry, helement, hfor⟩ := h.joined found hfound
    obtain ⟨other, hother, helement', hfor'⟩ := hentries entry hentry
    exact ⟨other, hother, helement'.trans helement, hfor'.trans hfor⟩

theorem JoinsOnce.append {added : List ScopeEntry} (h : s.JoinsOnce)
    (himplicit : s'.implicit = s.implicit) (hentries : s'.entries = s.entries ++ added) :
    s'.JoinsOnce :=
  h.mono himplicit fun entry hentry =>
    ⟨entry, hentries ▸ mem_append_left _ hentry, rfl, rfl⟩

theorem JoinsOnce.addCondition (h : s.JoinsOnce) (index : Nat) (condition : Sql.Condition) :
    (s.addCondition index condition).JoinsOnce := by
  refine h.mono rfl fun entry hentry => ?_
  obtain ⟨position, hposition⟩ := mem_iff_getElem?.mp hentry
  have hfound : (s.addCondition index condition).entries[position]?
      = some (if index = position then entry.restrict [condition] else entry) := by
    simp only [Scope.addCondition, getElem?_modify, hposition, Option.map_eq_map, Option.map_some]
  refine ⟨_, mem_of_getElem? hfound, ?_⟩
  split
  · exact ⟨rfl, entry.joinedFor?_restrict _⟩
  · exact ⟨rfl, rfl⟩

/-- What a join brings into the scope. -/
theorem addJoin_entry {parent element : Element} {property : String} {kind : Query.JoinKind}
    {alias? : Option String}
    (h : (Scope.addJoin context parent property kind alias?).run s = .ok (element, s')) :
    ∃ origin, s'.entries = s.entries ++ [⟨element, some origin⟩] ∧ s'.implicit = s.implicit
      ∧ s'.bulk = s.bulk ∧ origin.parent = parent.index ∧ origin.property = property := by
  obtain ⟨_, _, target, tableAlias, origin, s₁, -, -, -, horigin, -, rfl, rfl⟩ := addJoin_eq_ok h
  obtain ⟨hleads, hsame⟩ := joinOrigin_run horigin
  exact ⟨origin, hsame.entries_withEntry .., hsame.implicit_eq, hsame.bulk_eq, hleads.parent_eq,
    hleads.property_eq⟩

/-- A join is only made for an owner and a property that none is remembered for. -/
theorem JoinsOnce.implicitJoin {owner element : Element} {property : String} {path : List String}
    (hrun : (Scope.implicitJoin context owner property path).run s = .ok (element, s'))
    (h : s.JoinsOnce) : s'.JoinsOnce := by
  obtain ⟨-, ⟨-, rfl⟩ | ⟨hnone, s₁, hjoin, rfl⟩⟩ := implicitJoin_eq_ok.mp hrun
  · exact h
  · obtain ⟨origin, hentries, himplicit, -, hparent, hproperty⟩ := addJoin_entry hjoin
    have hjoined := h.append himplicit hentries
    constructor
    · have hfresh : (owner.index, property) ∉ s₁.implicit.map (·.1) := by
        rw [himplicit, ← Keyed.isSome_lookup_iff, hnone]
        exact Bool.false_ne_true
      rw [remember, map_append, map_singleton]
      refine nodup_append.mpr ⟨hjoined.nodup, nodup_singleton _, ?_⟩
      rintro key hkey _ hnew rfl
      obtain rfl := mem_singleton.mp hnew
      exact hfresh hkey
    · intro found hfound
      rcases mem_append.mp hfound with hold | hnew
      · exact hjoined.joined found hold
      · obtain rfl := mem_singleton.mp hnew
        refine ⟨⟨element, some origin⟩, ?_, rfl, ?_⟩
        · exact hentries ▸ mem_append_right _ (mem_singleton.mpr rfl)
        · simp only [ScopeEntry.joinedFor?, Option.map_some, hparent, hproperty]

theorem JoinsOnce.refers (hstep : Refers context s s') (h : s.JoinsOnce) : s'.JoinsOnce := by
  cases hstep with
  | implicitJoin howner hrun => exact h.implicitJoin hrun
  | addTable | countAlias => exact h.append rfl (append_nil _).symm

theorem Visited.joinsOnce (h : Visited context s) : s.JoinsOnce := by
  induction h with
  | empty bulk => exact ⟨nodup_nil, forall_mem_nil _⟩
  | addRoot _ hrun ih =>
    obtain ⟨entity, -, -, -, rfl⟩ := addRoot_eq_ok hrun
    exact ih.append (implicit_withRoot ..) (entries_withRoot ..)
  | addJoin _ _ _ hrun ih =>
    obtain ⟨origin, hentries, himplicit, -⟩ := addJoin_entry hrun
    exact ih.append himplicit hentries
  | addCondition _ index condition ih => exact ih.addCondition index condition
  | refers _ hstep ih => exact ih.refers hstep

/-- A table of a valid scope is that of one entry alone. -/
theorem Valid.entry_inj (h : s.Valid) {entry other : ScopeEntry} (hentry : entry ∈ s.entries)
    (hother : other ∈ s.entries) (helement : entry.element = other.element) : entry = other := by
  obtain ⟨position, hposition⟩ := mem_iff_getElem?.mp hentry
  obtain ⟨position', hposition'⟩ := mem_iff_getElem?.mp hother
  have hsame : position = position' := by
    rw [← (h.entry hposition).index_eq, ← (h.entry hposition').index_eq, helement]
  subst hsame
  exact Option.some.inj (hposition.symm.trans hposition')

/-- Two implicit joins for the same owner and property are one. -/
theorem JoinsOnce.unique (h : s.JoinsOnce) (hvalid : s.Valid) {entry other : ScopeEntry}
    (hentry : s.IsImplicit entry) (hother : s.IsImplicit other)
    (hfor : entry.joinedFor? = other.joinedFor?) : entry = other := by
  -- An implicit join is remembered for what its entry says it is joined for.
  have hkey : ∀ {entry : ScopeEntry}, s.IsImplicit entry →
      ∃ found ∈ s.implicit, found.2 = entry.element ∧ entry.joinedFor? = some found.1 := by
    rintro entry ⟨hmem, himplicit⟩
    obtain ⟨found, hfound, hsame⟩ := mem_map.mp himplicit
    obtain ⟨joined, hjoined, helement, hjoinedFor⟩ := h.joined found hfound
    obtain rfl := hvalid.entry_inj hjoined hmem (helement.trans hsame)
    exact ⟨found, hfound, hsame, hjoinedFor⟩
  obtain ⟨found, hfound, helement, hkey₁⟩ := hkey hentry
  obtain ⟨found', hfound', helement', hkey₂⟩ := hkey hother
  have hsame : found.1 = found'.1 := Option.some.inj (hkey₁.symm.trans (hfor.trans hkey₂))
  obtain rfl := inj_on_of_nodup_map h.nodup hfound hfound' hsame
  exact hvalid.entry_inj hentry.1 hother.1 (helement.symm.trans helement')

/-! ## What comes in later -/

theorem Refers.exists_added (hstep : Refers context s s') :
    ∃ added, s'.entries = s.entries ++ added ∧ s.implicit ⊆ s'.implicit
      ∧ ∀ entry ∈ added, entry.element ∈ s'.implicit.map (·.2) := by
  cases hstep with
  | implicitJoin howner hrun =>
    obtain ⟨-, ⟨-, rfl⟩ | ⟨-, s₁, hjoin, rfl⟩⟩ := implicitJoin_eq_ok.mp hrun
    · exact ⟨[], (append_nil _).symm, List.Subset.refl _, forall_mem_nil _⟩
    · rename_i element property path
      obtain ⟨origin, hentries, himplicit, -⟩ := addJoin_entry hjoin
      refine ⟨[⟨element, some origin⟩], hentries, ?_, forall_mem_singleton.mpr ?_⟩
      · rw [← himplicit]
        exact subset_append_left ..
      · rw [remember, map_append]
        exact mem_append_right _ (mem_singleton.mpr rfl)
  | addTable | countAlias => exact ⟨[], (append_nil _).symm, List.Subset.refl _, forall_mem_nil _⟩

/-- Every table that comes in later is an implicit join. -/
theorem Later.exists_added (hlater : Later context s s') :
    ∃ added, s'.entries = s.entries ++ added ∧ ∀ entry ∈ added, s'.IsImplicit entry := by
  have hkept : ∃ added, s'.entries = s.entries ++ added
      ∧ ∀ entry ∈ added, entry.element ∈ s'.implicit.map (·.2) := by
    induction hlater with
    | refl => exact ⟨[], (append_nil _).symm, forall_mem_nil _⟩
    | tail _ hstep ih =>
      obtain ⟨added, hadded, hremembered⟩ := ih
      obtain ⟨added', hadded', hsubset, hremembered'⟩ := hstep.exists_added
      refine ⟨added ++ added', by rw [hadded', hadded, append_assoc], ?_⟩
      refine forall_mem_append.mpr ⟨fun entry hentry => ?_, hremembered'⟩
      exact map_subset _ hsubset (hremembered entry hentry)
  obtain ⟨added, hadded, hremembered⟩ := hkept
  refine ⟨added, hadded, fun entry hentry => ⟨?_, hremembered entry hentry⟩⟩
  exact hadded ▸ mem_append_right _ hentry

end Scope

end EntityQuery
