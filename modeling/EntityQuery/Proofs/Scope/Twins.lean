import EntityQuery.Proofs.Scope.Path

/-!
# Scopes that have grown from the same one

While expressions are resolved, a scope only grows by implicit joins
(`Scope.Grown`). Two scopes that have grown from one need not hold the same tables,
and a table that is in both can have different aliases there. But names start at the
same tables in both, and the implicit join for an owner and a property leads to the
same entity, whenever it was made. So a path that has a meaning in one of them has
one in the other, and the two meanings differ only in which table they belong to.

What else is known of the two scopes is a relation that is kept while both of them
grow in the same way (`Scope.Kinship`), and it holds of the scopes that the path leaves
(`Kinship.resolve`). One such relation is that the second scope has no entities but
those of the first (`Scope.Twins`).
-/

namespace EntityQuery

open List

variable {target : Entity} {name : String} {owner element : Element} {path : List String}
  {meaning : Meaning}

/-- Meanings that differ in the table alone, which is one of the same entity. -/
inductive Meaning.Alike : Meaning → Meaning → Prop where
  | column {owner twin : Element} {column : String} {type : SemanticType}
      (h : twin.entity = owner.entity) :
      Alike (.column owner column type) (.column twin column type)
  | component {owner twin : Element} {component : String} {fields : List ColumnMapping}
      (h : twin.entity = owner.entity) :
      Alike (.component owner component fields) (.component twin component fields)
  | entity {element twin : Element} (h : twin.entity = element.entity) :
      Alike (.entity element) (.entity twin)
  | reference {owner twin : Element} {property target column : String}
      (h : twin.entity = owner.entity) :
      Alike (.reference owner property target column) (.reference twin property target column)
  | collection {owner twin : Element} {association : Association} (h : twin.entity = owner.entity) :
      Alike (.collection owner association) (.collection twin association)

theorem Entity.Reaches.unique {model : Metamodel} {entity target' : Entity}
    (h : entity.Reaches model name target) (h' : entity.Reaches model name target') :
    target = target' := by
  obtain ⟨property, association, hproperty, hkind, htarget⟩ := h
  obtain ⟨property', association', hproperty', hkind', htarget'⟩ := h'
  obtain rfl := Except.ok.inj (hproperty.symm.trans hproperty')
  obtain rfl := PropertyKind.association.inj (hkind.symm.trans hkind')
  exact Except.ok.inj (htarget.symm.trans htarget')

namespace Scope

open Scoped

variable {context : Context} {base s s' t t' : Scope}

/-! ## What implicit joins keep -/

/-- Each implicit join leads where the property of its owner leads. -/
def Remembers (context : Context) (scope : Scope) : Prop :=
  ∀ found ∈ scope.implicit, ∃ owner ∈ scope.elements, owner.index = found.1.1
    ∧ owner.entity.Reaches context.model found.1.2 found.2.entity

theorem Remembers.mono (h : s.Remembers context) (himplicit : s'.implicit = s.implicit)
    (helements : s.elements ⊆ s'.elements) : s'.Remembers context := by
  intro found hfound
  rw [himplicit] at hfound
  obtain ⟨owner, howner, hreaches⟩ := h found hfound
  exact ⟨owner, helements howner, hreaches⟩

theorem Remembers.implicitJoin (hjoin : ImplicitJoin context s s') (h : s.Remembers context) :
    s'.Remembers context := by
  obtain ⟨-, hentries, himplicit, -, howner, hreaches, -⟩ := hjoin
  rename_i s₁ owner element property origin
  have hsubset : s.elements ⊆ s₁.elements := by
    rw [elements, elements, hentries, map_append]
    exact subset_append_left ..
  have hbefore := h.mono himplicit hsubset
  intro found hfound
  rcases mem_append.mp hfound with hold | hnew
  · exact hbefore found hold
  · rw [mem_singleton.mp hnew]
    exact ⟨owner, hsubset howner, rfl, hreaches⟩

/-- The scope has grown from another by implicit joins, and by nothing that names
or paths could tell. -/
structure Grown (context : Context) (base scope : Scope) : Prop where
  valid : scope.Valid
  remembers : scope.Remembers context
  mapped : ∀ element ∈ scope.elements, ∃ name, context.model.entity name = .ok element.entity
  aliases_eq : scope.aliases = base.aliases
  bulk_eq : scope.bulk = base.bulk
  entries_append : ∃ added, scope.entries = base.entries ++ added
    ∧ ∀ entry ∈ added, entry.Bare ∧ entry.origin.isSome
  /-- Bulk statements have no joins. -/
  entries_of_bulk : base.bulk = true → scope.entries = base.entries

namespace Grown

theorem refl (hvalid : base.Valid) (hremembers : base.Remembers context)
    (hmapped : ∀ element ∈ base.elements, ∃ name, context.model.entity name = .ok element.entity) :
    Grown context base base :=
  ⟨hvalid, hremembers, hmapped, rfl, rfl, ⟨[], (append_nil _).symm, forall_mem_nil _⟩, fun _ => rfl⟩

theorem of_sameTables (hsame : SameTables s s') (h : Grown context base s) :
    Grown context base s' where
  valid := h.valid.of_sameTables hsame
  remembers := by
    refine h.remembers.mono hsame.implicit_eq ?_
    rw [elements, elements, hsame.entries_eq]
    exact List.Subset.refl _
  mapped := by
    rw [elements, hsame.entries_eq]
    exact h.mapped
  aliases_eq := hsame.aliases_eq.trans h.aliases_eq
  bulk_eq := hsame.bulk_eq.trans h.bulk_eq
  entries_append := by
    rw [hsame.entries_eq]
    exact h.entries_append
  entries_of_bulk hbulk := hsame.entries_eq.trans (h.entries_of_bulk hbulk)

theorem implicitJoin (hjoin : ImplicitJoin context s s') (h : Grown context base s) :
    Grown context base s' := by
  have hsteps : Joins context s s' := .single hjoin
  have hremembers := h.remembers.implicitJoin hjoin
  have hvalid := h.valid.joins hsteps
  obtain ⟨hjoin, hentries, -, haliases, -, -, -⟩ := hjoin
  rename_i s₁ owner element property origin
  obtain ⟨added, hadded, hkept⟩ := h.entries_append
  have hnew : ScopeEntry.Fresh context ⟨element, some origin⟩ := by
    obtain ⟨joined, hjoined, hfresh⟩ := (Step.joined hjoin).entries_append
    obtain rfl := append_cancel_left (hentries.symm.trans hjoined)
    exact forall_mem_singleton.mp hfresh
  refine ⟨hvalid, hremembers, ?_, haliases.trans h.aliases_eq,
    hsteps.steps.bulk_eq.trans h.bulk_eq, ⟨added ++ [⟨element, some origin⟩], ?_, ?_⟩, ?_⟩
  · have helements : s₁.elements = s.elements ++ [element] := by
      rw [elements, hentries, map_append]
      rfl
    intro other hother
    rcases mem_append.mp (helements ▸ hother) with hold | hlast
    · exact h.mapped other hold
    · rw [mem_singleton.mp hlast]
      exact hnew.mapped
  · rw [← append_assoc, ← hadded]
    exact hentries
  · exact forall_mem_append.mpr ⟨hkept, forall_mem_singleton.mpr ⟨hnew.bare, rfl⟩⟩
  · intro hbulk
    cases hjoin with
    | join _ _ _ _ _ _ hjoined => cases (h.bulk_eq.trans hbulk).symm.trans hjoined
    | remember helement =>
      have hlength := congrArg List.length hentries
      simp [remember] at hlength

theorem joins (hjoins : Joins context s s') (h : Grown context base s) : Grown context base s' := by
  induction hjoins with
  | refl => exact h
  | tail _ hjoin ih => exact ih.implicitJoin hjoin

theorem roots_eq (h : Grown context base s) : s.roots = base.roots := by
  obtain ⟨added, hadded, hjoined⟩ := h.entries_append
  have hnone : added.filter (·.origin.isNone) = [] := by
    rw [filter_eq_nil_iff]
    intro entry hentry
    simpa using Option.isSome_iff_ne_none.mp (hjoined entry hentry).2
  rw [roots, hadded, filter_append, hnone, append_nil, roots]

end Grown

/-! ## Twins -/

/-- Two scopes that have grown from one. The second has no entities but those of
the first. -/
structure Twins (context : Context) (base s t : Scope) : Prop where
  left : Grown context base s
  right : Grown context base t
  covered : ∀ element ∈ t.elements, ∃ twin ∈ s.elements, twin.entity = element.entity

theorem Grown.twins_of_bulk (hbulk : base.bulk) (hs : Grown context base s)
    (ht : Grown context base t) : Twins context base s t where
  left := hs
  right := ht
  covered element helement := by
    have hentries : t.entries = s.entries :=
      (ht.entries_of_bulk hbulk).trans (hs.entries_of_bulk hbulk).symm
    rw [elements, hentries] at helement
    exact ⟨element, helement, rfl⟩

theorem Twins.of_sameTables (h : Twins context base s t) (hs : SameTables s s')
    (ht : SameTables t t') : Twins context base s' t' where
  left := h.left.of_sameTables hs
  right := h.right.of_sameTables ht
  covered := by
    rw [elements, elements, hs.entries_eq, ht.entries_eq]
    exact h.covered

theorem Twins.joins_left (hjoins : Joins context s s') (h : Twins context base s t) :
    Twins context base s' t where
  left := h.left.joins hjoins
  right := h.right
  covered element helement := by
    obtain ⟨twin, htwin, heq⟩ := h.covered element helement
    exact ⟨twin, hjoins.steps.elements_subset htwin, heq⟩

/-! ## Joins -/

theorem exists_addJoin {parent : Element} (h : parent.entity.Reaches context.model name target)
    (kind : Query.JoinKind) (s : Scope) :
    ∃ element s', (addJoin context parent name kind none).run s = .ok (element, s') := by
  obtain ⟨property, association, hproperty, hkind, htarget⟩ := h
  obtain ⟨⟨tableAlias, origin⟩, s₁, horigin⟩ : ∃ found s₁,
      (joinOrigin kind parent name association target).run s = .ok (found, s₁) := by
    cases association <;> exact ⟨_, _, rfl⟩
  obtain ⟨element, s', hpush⟩ : ∃ element s', (push context
      ⟨⟨s₁.entries.length, parent.range, target, some tableAlias⟩, some origin⟩ none).run
      (s₁.addTable target.table) = .ok (element, s') := ⟨_, _, rfl⟩
  refine ⟨element, s', ?_⟩
  simp only [addJoin, run_bind, run_ofMapping]
  refine ⟨property, s, ⟨hproperty, rfl⟩, ?_⟩
  simp only [hkind, run_bind, run_ofMapping, run_modify, run_get]
  exact ⟨target, s, ⟨htarget, rfl⟩, _, s₁, horigin, (), _, rfl, _, _, ⟨rfl, rfl⟩, hpush⟩

theorem implicitJoin_reaches {property : String} (hvalid : s.Valid)
    (hremembers : s.Remembers context) (howner : owner ∈ s.elements)
    (h : (implicitJoin context owner property path).run s = .ok (element, s')) :
    owner.entity.Reaches context.model property element.entity := by
  obtain ⟨-, ⟨hfound, rfl⟩ | ⟨-, s₁, hjoin, rfl⟩⟩ := implicitJoin_eq_ok.mp h
  · obtain ⟨found, hmem, hindex, hreaches⟩ := hremembers _ (Keyed.lookup_mem hfound)
    have hsame : found = owner := by
      refine Option.some.inj ((hvalid.getElem?_index hmem).symm.trans ?_)
      rw [hindex]
      exact hvalid.getElem?_index howner
    rwa [hsame] at hreaches
  · exact addJoin_reaches hjoin

theorem exists_implicitJoin {property : String} (hbulk : s.bulk = false)
    (h : owner.entity.Reaches context.model property target) (path : List String) :
    ∃ element s', (implicitJoin context owner property path).run s = .ok (element, s') := by
  cases hlookup : s.implicit.lookup (owner.index, property) with
  | some element =>
    exact ⟨element, s, implicitJoin_eq_ok.mpr ⟨hbulk, .inl ⟨hlookup, rfl⟩⟩⟩
  | none =>
    obtain ⟨element, s₁, hjoin⟩ := exists_addJoin h .inner s
    exact ⟨element, _, implicitJoin_eq_ok.mpr ⟨hbulk, .inr ⟨hlookup, s₁, hjoin, rfl⟩⟩⟩

/-- No table comes in but the one that the join leads to. -/
theorem implicitJoin_elements {property : String} (howner : owner ∈ s.elements)
    (h : (implicitJoin context owner property path).run s = .ok (element, s')) :
    ∀ other ∈ s'.elements, other ∈ s.elements ∨ other = element := by
  intro other hother
  obtain ⟨hbulk, ⟨-, rfl⟩ | ⟨-, s₁, hjoin, rfl⟩⟩ := implicitJoin_eq_ok.mp h
  · exact .inl hother
  · obtain ⟨-, origin, hentries, -⟩ := addJoin_run hbulk howner hjoin
    have hmem : other ∈ s₁.elements := hother
    rw [elements, hentries, map_append] at hmem
    exact (mem_append.mp hmem).imp_right mem_singleton.mp

/-! ## Relations of scopes that grow together -/

/-- A relation of scopes that have grown from one, which is kept while both of them
grow in the same way. -/
structure Kinship (context : Context) (base : Scope) (T : Scope → Scope → Prop) : Prop where
  left : ∀ {s t : Scope}, T s t → Grown context base s
  right : ∀ {s t : Scope}, T s t → Grown context base t
  addTable : ∀ {s t : Scope} (table : String), T s t → T (s.addTable table) (t.addTable table)
  countAlias : ∀ {s t : Scope}, T s t → T s.countAlias t.countAlias
  implicitJoin : ∀ {s t s' t' : Scope} {owner twin element found : Element} {property : String}
    {path : List String}, T s t → owner ∈ s.elements → twin ∈ t.elements →
    (Scope.implicitJoin context owner property path).run s = .ok (element, s') →
    (Scope.implicitJoin context twin property path).run t = .ok (found, t') →
    found.entity = element.entity → T s' t'

theorem SameTables.addTable (s : Scope) (table : String) : SameTables s (s.addTable table) :=
  ⟨rfl, rfl, rfl, rfl⟩

theorem SameTables.countAlias (s : Scope) : SameTables s s.countAlias :=
  ⟨rfl, rfl, rfl, rfl⟩

/-- Growing from one scope is all that some proofs ask of two scopes. -/
theorem Grown.kinship :
    Kinship context base fun s t => Grown context base s ∧ Grown context base t where
  left h := h.1
  right h := h.2
  addTable table h :=
    ⟨h.1.of_sameTables (.addTable _ table), h.2.of_sameTables (.addTable _ table)⟩
  countAlias h := ⟨h.1.of_sameTables (.countAlias _), h.2.of_sameTables (.countAlias _)⟩
  implicitJoin h howner htwin hrun hfound _ :=
    ⟨h.1.joins (implicitJoin_run h.1.valid howner hrun).1,
      h.2.joins (implicitJoin_run h.2.valid htwin hfound).1⟩

theorem Twins.kinship : Kinship context base (Twins context base) where
  left h := h.left
  right h := h.right
  addTable table h := h.of_sameTables (.addTable _ table) (.addTable _ table)
  countAlias h := h.of_sameTables (.countAlias _) (.countAlias _)
  implicitJoin {s t s' t' owner twin element found property path} h howner htwin hrun hfound
      hentity := by
    obtain ⟨hjoins, helement⟩ := implicitJoin_run h.left.valid howner hrun
    obtain ⟨hjoins', -⟩ := implicitJoin_run h.right.valid htwin hfound
    refine ⟨h.left.joins hjoins, h.right.joins hjoins', ?_⟩
    intro other hother
    rcases implicitJoin_elements htwin hfound other hother with hold | rfl
    · exact (h.joins_left hjoins).covered other hold
    · exact ⟨element, helement, hentity.symm⟩

/-- A join that can be made in one scope can be made in the other. -/
theorem Kinship.exists_implicitJoin {T : Scope → Scope → Prop} (hT : Kinship context base T)
    {twin : Element} {property : String} (h : T s t) (htwin : twin.entity = owner.entity)
    (howner : owner ∈ s.elements) (hmem : twin ∈ t.elements)
    (hrun : (Scope.implicitJoin context owner property path).run s = .ok (element, s')) :
    ∃ found t', (Scope.implicitJoin context twin property path).run t = .ok (found, t')
      ∧ found.entity = element.entity ∧ T s' t' := by
  have hleft := hT.left h
  have hright := hT.right h
  have hreaches := implicitJoin_reaches hleft.valid hleft.remembers howner hrun
  have hbulk : t.bulk = false := by
    rw [hright.bulk_eq, ← hleft.bulk_eq]
    exact (implicitJoin_eq_ok.mp hrun).1
  obtain ⟨found, t', hfound⟩ := Scope.exists_implicitJoin hbulk (htwin ▸ hreaches) path
  have hreaches' := implicitJoin_reaches hright.valid hright.remembers hmem hfound
  have hentity : found.entity = element.entity := (htwin ▸ hreaches').unique hreaches
  exact ⟨found, t', hfound, hentity, hT.implicitJoin h howner hmem hrun hfound hentity⟩

/-! ## Paths -/

theorem property_twins {twin : Element} (htwin : twin.entity = owner.entity)
    (h : property owner name = .ok meaning) :
    ∃ found, property twin name = .ok found ∧ meaning.Alike found := by
  simp only [property] at h ⊢
  rw [htwin]
  split at h
  · obtain rfl := Except.ok.inj h
    rw [if_pos ‹_›]
    exact ⟨_, rfl, .column htwin⟩
  · rw [if_neg ‹_›]
    cases hproperty : owner.entity.property name with
    | error fault =>
      rw [hproperty] at h
      cases h
    | ok found =>
      rw [hproperty] at h
      simp only at h ⊢
      cases hkind : found.kind with
      | basic column type =>
        rw [hkind] at h
        obtain rfl := Except.ok.inj h
        exact ⟨_, rfl, .column htwin⟩
      | component component fields =>
        rw [hkind] at h
        obtain rfl := Except.ok.inj h
        exact ⟨_, rfl, .component htwin⟩
      | association association =>
        rw [hkind] at h
        cases association with
        | manyToOne target column =>
          obtain rfl := Except.ok.inj h
          exact ⟨_, rfl, .reference htwin⟩
        | oneToMany target keyColumn | manyToMany target table keyColumn elementColumn =>
          obtain rfl := Except.ok.inj h
          exact ⟨_, rfl, .collection htwin⟩

namespace Kinship

variable {T : Scope → Scope → Prop}

theorem step {other reached : Meaning} (hT : Kinship context base T) (h : T s t)
    (halike : meaning.Alike other) (hmem : meaning.element ∈ s.elements)
    (hother : other.element ∈ t.elements)
    (hrun : (Scope.step context path meaning name).run s = .ok (reached, s')) :
    ∃ found t', (Scope.step context path other name).run t = .ok (found, t')
      ∧ reached.Alike found ∧ T s' t' := by
  cases halike with
  | entity htwin =>
    cases step_eq_ok.mp hrun with
    | property hproperty =>
      obtain ⟨found, hfound, halike⟩ := property_twins htwin hproperty
      exact ⟨found, t, step_eq_ok.mpr (.property hfound), halike, h⟩
  | reference htwin =>
    cases step_eq_ok.mp hrun with
    | identifier htarget hname =>
      exact ⟨_, t, step_eq_ok.mpr (.identifier htarget hname), .column htwin, h⟩
    | joined htarget hname hjoin hproperty =>
      obtain ⟨joined', t', hjoin', hjoined, h'⟩ :=
        hT.exists_implicitJoin h htwin hmem hother hjoin
      obtain ⟨found, hfound, halike⟩ := property_twins hjoined hproperty
      exact ⟨found, t', step_eq_ok.mpr (.joined htarget hname hjoin' hfound), halike, h'⟩
  | component htwin =>
    cases step_eq_ok.mp hrun with
    | field hfield => exact ⟨_, t, step_eq_ok.mpr (.field hfield), .column htwin, h⟩
  | collection | column => cases step_eq_ok.mp hrun

theorem steps (hT : Kinship context base T) :
    ∀ {rest : List String} {meaning other reached : Meaning} {s s' t : Scope}, T s t →
    meaning.Alike other → meaning.element ∈ s.elements → other.element ∈ t.elements →
    (rest.foldlM (Scope.step context path) meaning).run s = .ok (reached, s') →
    ∃ found t', (rest.foldlM (Scope.step context path) other).run t = .ok (found, t')
      ∧ reached.Alike found ∧ T s' t'
  | [], _, _, _, _, _, _, h, halike, _, _, hrun => by
    rw [foldlM_nil] at hrun ⊢
    obtain ⟨rfl, rfl⟩ := run_pure.mp hrun
    exact ⟨_, _, run_pure.mpr ⟨rfl, rfl⟩, halike, h⟩
  | name :: rest, meaning, other, reached, s, s', t, h, halike, hmem, hother, hrun => by
    rw [foldlM_cons] at hrun ⊢
    obtain ⟨next, s₁, hstep, hrest⟩ := run_bind.mp hrun
    obtain ⟨next', t₁, hstep', halike', h'⟩ := hT.step h halike hmem hother hstep
    have hmem' := (step_run (hT.left h).valid hmem hstep).2
    have hother' := (step_run (hT.right h).valid hother hstep').2
    obtain ⟨found, t', hrest', hfound⟩ := hT.steps h' halike' hmem' hother' hrest
    exact ⟨found, t', run_bind.mpr ⟨next', t₁, hstep', hrest'⟩, hfound⟩

/-- A path that has a meaning in one scope has one like it in the other. -/
theorem resolve (hT : Kinship context base T) (h : T s t)
    (hrun : (Scope.resolve context path).run s = .ok (meaning, s')) :
    ∃ found t', (Scope.resolve context path).run t = .ok (found, t')
      ∧ meaning.Alike found ∧ T s' t' := by
  have hleft := hT.left h
  have hright := hT.right h
  obtain ⟨⟨element, rest⟩, _, hstart, hrest⟩ := run_bind.mp hrun
  obtain ⟨hmem, rfl⟩ := start_run hleft.valid hstart
  have hstart' : (start context path).run t = .ok ((element, rest), t) := by
    rw [start_eq_ok, hleft.aliases_eq, hleft.roots_eq] at hstart
    rw [start_eq_ok, hright.aliases_eq, hright.roots_eq]
    exact ⟨rfl, hstart.2⟩
  have hmem' := (start_run hright.valid hstart').1
  obtain ⟨found, t', hrest', hfound⟩ := hT.steps h (.entity rfl) hmem hmem' hrest
  exact ⟨found, t', run_bind.mpr ⟨_, t, hstart', hrest'⟩, hfound⟩

end Kinship

end Scope

end EntityQuery
