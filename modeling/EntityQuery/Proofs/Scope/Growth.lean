import Mathlib.Logic.Relation
import EntityQuery.Proofs.Scoped
import EntityQuery.Scope.Path

/-!
# How a scope grows

Everything that compiling does to a scope, apart from putting a condition
on a join, is one of a few steps (`Scope.Step`): a root comes in, a join
comes in, an implicit join is remembered, or an alias is given out for a
subquery. Each operation on scopes is shown to take such steps
(`addRoot_run`, `addJoin_run`), so that a property of all scopes is proved
by looking at the steps alone. Paths take only those steps that have to do
with joins (`Scope.JoinStep`), and make implicit joins of them
(`Scope.ImplicitJoin`).
-/

namespace EntityQuery

open List

namespace Scope

open Scoped

variable {s s' : Scope} {tableAlias name : String} {context : Context} {alias? : Option String}
  {element : Element} {kind : Query.JoinKind}

/-! ## What the basic operations leave behind -/

def elements (scope : Scope) : List Element :=
  scope.entries.map (·.element)

def freshAlias (scope : Scope) (stem : String) : String :=
  stem ++ toString scope.counter ++ "_"

def Free (scope : Scope) (alias? : Option String) : Prop :=
  ∀ name, alias? = some name → scope.aliases.lookup name = none

def withEntry (scope : Scope) (entry : ScopeEntry) (alias? : Option String) : Scope :=
  { scope with
    entries := scope.entries ++ [entry]
    aliases := scope.aliases ++ alias?.toList.map fun name => (name, entry.element) }

def rootEntry (scope : Scope) (entity : Entity) : ScopeEntry :=
  let position := scope.entries.length
  let tableAlias := if scope.bulk then none else some (scope.freshAlias entity.stem)
  ⟨⟨position, position, entity, tableAlias⟩, none⟩

def withRoot (scope : Scope) (entity : Entity) (alias? : Option String) : Scope :=
  let named := if scope.bulk then scope else scope.countAlias
  (named.addTable entity.table).withEntry (scope.rootEntry entity) alias?

/-- The scope that remembers an implicit join. -/
def remember (scope : Scope) (owner : Element) (property : String) (element : Element) : Scope :=
  { scope with implicit := scope.implicit ++ [((owner.index, property), element)] }

theorem nextAlias_run {stem : String} (h : (nextAlias stem).run s = .ok (tableAlias, s')) :
    tableAlias = s.freshAlias stem ∧ s' = s.countAlias := by
  simp only [nextAlias, run_bind, run_get, run_set, run_pure] at h
  obtain ⟨_, _, ⟨rfl, rfl⟩, _, _, rfl, rfl, rfl⟩ := h
  exact ⟨rfl, rfl⟩

theorem push_run {entry : ScopeEntry} (h : (push context entry alias?).run s = .ok (element, s')) :
    s.Free alias? ∧ element = entry.element ∧ s' = s.withEntry entry alias? := by
  simp only [push, run_bind, run_get] at h
  obtain ⟨_, _, ⟨rfl, rfl⟩, h⟩ := h
  cases alias? with
  | none =>
    simp only [run_bind, run_set, run_pure] at h
    obtain ⟨_, _, rfl, rfl, rfl⟩ := h
    exact ⟨fun _ hname => (nomatch hname), rfl, by simp [withEntry]⟩
  | some name =>
    simp only at h
    split at h
    · obtain ⟨_, _, hfail, -⟩ := run_bind.mp h
      exact (not_run_misuse hfail).elim
    · rename_i hfree
      simp only [run_bind, run_set, run_pure] at h
      obtain ⟨_, _, rfl, rfl, rfl⟩ := h
      refine ⟨?_, rfl, rfl⟩
      rintro _ ⟨rfl⟩
      exact Option.not_isSome_iff_eq_none.mp hfree

/-! ## The join that an association makes -/

/-- Two scopes with the same tables and names. -/
structure SameTables (s s' : Scope) : Prop where
  entries_eq : s'.entries = s.entries
  aliases_eq : s'.aliases = s.aliases
  implicit_eq : s'.implicit = s.implicit
  bulk_eq : s'.bulk = s.bulk

end Scope

/-- The join that an association makes from a parent to a target, for the alias of
the target and, where there is a table in between, the alias of that. -/
def Association.origin (association : Association) (kind : Query.JoinKind) (parent : Element)
    (property : String) (target : Entity) (linkAlias tableAlias : String) : JoinOrigin :=
  match association with
  | .manyToOne _ column =>
    ⟨parent.index, property, none, ⟨kind, target.table, tableAlias, parent.column column,
      ⟨some tableAlias, target.identifier.column⟩, []⟩⟩
  | .oneToMany _ keyColumn =>
    ⟨parent.index, property, none, ⟨kind, target.table, tableAlias, parent.identifier,
      ⟨some tableAlias, keyColumn⟩, []⟩⟩
  | .manyToMany _ table keyColumn elementColumn =>
    ⟨parent.index, property,
      some ⟨kind, table, linkAlias, parent.identifier, ⟨some linkAlias, keyColumn⟩, []⟩,
      ⟨kind, target.table, tableAlias, ⟨some linkAlias, elementColumn⟩,
        ⟨some tableAlias, target.identifier.column⟩, []⟩⟩

/-- The aliases of stems that are numbered from a start on. -/
def aliasesFrom (start : Nat) (stems : List String) : List String :=
  (stems.zipIdx start).map fun entry => entry.1 ++ toString entry.2 ++ "_"

/-- The starts of the aliases of the tables in between. -/
def Association.linkStems : Association → List String
  | .manyToMany _ table _ _ => [aliasStem Scope.isLinkAliasChar table]
  | .manyToOne .. | .oneToMany .. => []

/-- The origin of a table joined from a parent: it leads to the table of the
target entity under the given alias, with no conditions yet. -/
structure JoinOrigin.LeadsTo (origin : JoinOrigin) (parent : Element)
    (property : String) (target : Entity) (tableAlias : String) : Prop where
  parent_eq : origin.parent = parent.index
  property_eq : origin.property = property
  table_eq : origin.target.table = target.table
  alias_eq : origin.target.tableAlias = tableAlias
  bare : origin.target.conditions = []
  link_bare : ∀ link, origin.link = some link → link.conditions = []

/-- An association of the entity leads to the other entity. -/
def Entity.Reaches (model : Metamodel) (entity : Entity) (name : String) (target : Entity) : Prop :=
  ∃ property association, entity.property name = .ok property
    ∧ property.kind = .association association ∧ model.entity association.target = .ok target

/-- No condition is on the join of the table. -/
def ScopeEntry.Bare (entry : ScopeEntry) : Prop :=
  ∀ joined ∈ entry.joinedTables, joined.conditions = []

/-- An entry as it comes in: a table of an entity of the model, with no condition
on its join. -/
structure ScopeEntry.Fresh (context : Context) (entry : ScopeEntry) : Prop where
  mapped : ∃ name, context.model.entity name = .ok entry.element.entity
  bare : entry.Bare

theorem JoinOrigin.LeadsTo.entry_bare {origin : JoinOrigin} {parent : Element} {property : String}
    {target : Entity} (h : origin.LeadsTo parent property target tableAlias) :
    ScopeEntry.Bare ⟨element, some origin⟩ := by
  intro joined hjoined
  rcases mem_append.mp hjoined with hlink | htarget
  · exact h.link_bare joined (Option.mem_toList.mp hlink)
  · rw [mem_singleton.mp htarget]
    exact h.bare

namespace Scope

open Scoped

variable {parent : Element} {property : String} {association : Association} {target : Entity}
  {origin : JoinOrigin}

/-- The aliases of a join are given out in order, that of the table in between
first. That table is listed here, and the other one when it comes in. -/
theorem joinOrigin_eq (h : (joinOrigin kind parent property association target).run s
      = .ok ((tableAlias, origin), s')) :
    SameTables s s' ∧ ∃ linkAlias,
      origin = association.origin kind parent property target linkAlias tableAlias
      ∧ (origin.link.toList ++ [origin.target]).map (·.tableAlias)
        = aliasesFrom s.counter (association.linkStems ++ [target.stem])
      ∧ s'.counter = s.counter + (association.linkStems ++ [target.stem]).length
      ∧ s'.tables = (origin.link.toList.map (·.table)).foldl
        (fun tables table => Keyed.insertKey table tables) s.tables := by
  cases association with
  | manyToOne targetName column | oneToMany targetName keyColumn =>
    simp only [joinOrigin, run_bind, run_pure] at h
    obtain ⟨_, _, halias, hresult, rfl⟩ := h
    obtain ⟨rfl, rfl⟩ := Prod.mk.inj hresult
    obtain ⟨rfl, rfl⟩ := nextAlias_run halias
    exact ⟨⟨rfl, rfl, rfl, rfl⟩, "", rfl, rfl, rfl, rfl⟩
  | manyToMany targetName table keyColumn elementColumn =>
    simp only [joinOrigin, run_bind, run_modify, run_pure] at h
    obtain ⟨_, _, rfl, _, _, hlinkAlias, _, _, halias, hresult, rfl⟩ := h
    obtain ⟨rfl, rfl⟩ := Prod.mk.inj hresult
    obtain ⟨rfl, rfl⟩ := nextAlias_run hlinkAlias
    obtain ⟨rfl, rfl⟩ := nextAlias_run halias
    exact ⟨⟨rfl, rfl, rfl, rfl⟩, _, rfl, rfl, rfl, rfl⟩

theorem joinOrigin_run (h : (joinOrigin kind parent property association target).run s
      = .ok ((tableAlias, origin), s')) :
    origin.LeadsTo parent property target tableAlias ∧ SameTables s s' := by
  obtain ⟨hsame, linkAlias, rfl, -⟩ := joinOrigin_eq h
  refine ⟨?_, hsame⟩
  cases association with
  | manyToMany =>
    refine ⟨rfl, rfl, rfl, rfl, rfl, ?_⟩
    rintro _ ⟨rfl⟩
    rfl
  | _ => exact ⟨rfl, rfl, rfl, rfl, rfl, fun _ hlink => nomatch hlink⟩

theorem SameTables.entries_withEntry (h : SameTables s s') (table : String) (entry : ScopeEntry)
    (alias? : Option String) :
    ((s'.addTable table).withEntry entry alias?).entries = s.entries ++ [entry] := by
  rw [← h.entries_eq]
  rfl

theorem SameTables.elements_withEntry (h : SameTables s s') (table : String) (entry : ScopeEntry)
    (alias? : Option String) :
    ((s'.addTable table).withEntry entry alias?).elements = s.elements ++ [entry.element] := by
  rw [elements, h.entries_withEntry, map_append]
  rfl

/-! ## The steps -/

/-- One step that paths take. -/
inductive JoinStep (context : Context) : Scope → Scope → Prop where
  /-- A table comes in that is joined from a table of the scope. Bulk statements
  have no joins. -/
  | join {s s₁ : Scope} {kind : Query.JoinKind} {parent : Element}
      {name : String} {property : Property} {association : Association}
      {target : Entity} {tableAlias : String} {origin : JoinOrigin}
      {alias? : Option String} (hparent : parent ∈ s.elements)
      (hproperty : parent.entity.property name = .ok property)
      (hkind : property.kind = .association association)
      (htarget : context.model.entity association.target = .ok target)
      (horigin : (joinOrigin kind parent name association target).run s
        = .ok ((tableAlias, origin), s₁))
      (hfree : s.Free alias?) (hbulk : s.bulk = false) :
      JoinStep context s ((s₁.addTable target.table).withEntry
        ⟨⟨s.entries.length, parent.range, target, some tableAlias⟩, some origin⟩ alias?)
  /-- An implicit join is remembered for its owner and property. -/
  | remember {s : Scope} {owner element : Element} {property : String}
      (helement : element ∈ s.elements) :
      JoinStep context s (s.remember owner property element)

/-- One step of a growing scope. -/
inductive Step (context : Context) : Scope → Scope → Prop where
  /-- A root comes in. -/
  | root {s : Scope} {name : String} {entity : Entity} {alias? : Option String}
      (hentity : context.model.entity name = .ok entity) (hfree : s.Free alias?) :
      Step context s (s.withRoot entity alias?)
  | joined {s s' : Scope} (h : JoinStep context s s') : Step context s s'
  /-- A table is used that no entry of the scope stands for. -/
  | table {s : Scope} {table : String} : Step context s (s.addTable table)
  /-- An alias is given out for such a table. -/
  | giveAlias {s : Scope} : Step context s s.countAlias

abbrev Steps (context : Context) : Scope → Scope → Prop :=
  Relation.ReflTransGen (Step context)

/-- An implicit join: a table is joined, and remembered for its owner and
property. -/
inductive ImplicitJoin (context : Context) : Scope → Scope → Prop where
  | intro {s s₁ : Scope} {owner element : Element} {property : String} {origin : JoinOrigin}
      (hjoin : JoinStep context s s₁)
      (hentries : s₁.entries = s.entries ++ [⟨element, some origin⟩])
      (himplicit : s₁.implicit = s.implicit) (haliases : s₁.aliases = s.aliases)
      (howner : owner ∈ s.elements)
      (hreaches : owner.entity.Reaches context.model property element.entity)
      (hrun : ∃ path, (implicitJoin context owner property path).run s
        = .ok (element, s₁.remember owner property element)) :
      ImplicitJoin context s (s₁.remember owner property element)

abbrev Joins (context : Context) : Scope → Scope → Prop :=
  Relation.ReflTransGen (ImplicitJoin context)

/-- What each step of a join keeps is kept by implicit joins. -/
theorem Joins.induction {P : Scope → Prop}
    (hstep : ∀ {s s' : Scope}, JoinStep context s s' → P s → P s') (h : Joins context s s')
    (hs : P s) : P s' := by
  induction h with
  | refl => exact hs
  | tail _ himplicit ih =>
    obtain ⟨hjoin, hentries, -⟩ := himplicit
    refine hstep (.remember ?_) (hstep hjoin ih)
    rw [elements, hentries, map_append]
    exact mem_append_right _ (mem_singleton.mpr rfl)

theorem Joins.steps (h : Joins context s s') : Steps context s s' :=
  h.induction (fun hjoin hsteps => hsteps.tail (.joined hjoin)) .refl

/-- A join brings in the table that the association leads to. -/
theorem addJoin_eq_ok (h : (addJoin context parent name kind alias?).run s = .ok (element, s')) :
    ∃ property association target tableAlias origin s₁,
      parent.entity.property name = .ok property ∧ property.kind = .association association
      ∧ context.model.entity association.target = .ok target
      ∧ (joinOrigin kind parent name association target).run s = .ok ((tableAlias, origin), s₁)
      ∧ s.Free alias? ∧ element = ⟨s.entries.length, parent.range, target, some tableAlias⟩
      ∧ s' = (s₁.addTable target.table).withEntry ⟨element, some origin⟩ alias? := by
  simp only [addJoin, run_bind, run_ofMapping] at h
  obtain ⟨property, _, ⟨hproperty, rfl⟩, h⟩ := h
  cases hkind : property.kind with
  | association association =>
    simp only [hkind, run_bind, run_ofMapping, run_modify, run_get] at h
    obtain ⟨target, _, ⟨htarget, rfl⟩, ⟨tableAlias, origin⟩, s₁, horigin, _, _, rfl,
      _, _, ⟨rfl, rfl⟩, hpush⟩ := h
    obtain ⟨-, hsame⟩ := joinOrigin_run horigin
    obtain ⟨hfree, rfl, rfl⟩ := push_run hpush
    have hlength : (s₁.addTable target.table).entries.length = s.entries.length := by
      rw [show (s₁.addTable target.table).entries = s₁.entries from rfl, hsame.entries_eq]
    rw [hlength]
    have hfree' : s.Free alias? := by
      intro name hname
      rw [← hsame.aliases_eq]
      exact hfree name hname
    exact ⟨property, association, target, tableAlias, origin, s₁, hproperty, hkind, htarget,
      horigin, hfree', rfl, rfl⟩
  | basic column type | component component fields =>
    simp only [hkind, run_ofMapping] at h
    cases h.1

theorem addJoin_reaches (h : (addJoin context parent name kind alias?).run s = .ok (element, s')) :
    parent.entity.Reaches context.model name element.entity := by
  obtain ⟨property, association, target, tableAlias, origin, s₁, hproperty, hkind, htarget, -, -,
    rfl, -⟩ := addJoin_eq_ok h
  exact ⟨property, association, hproperty, hkind, htarget⟩

/-- A join that the query gives no alias leaves the names as they are. -/
theorem addJoin_aliases (h : (addJoin context parent name kind none).run s = .ok (element, s')) :
    s'.aliases = s.aliases := by
  obtain ⟨property, association, target, tableAlias, origin, s₁, -, -, -, horigin, -, -, rfl⟩ :=
    addJoin_eq_ok h
  rw [withEntry, Option.toList_none, map_nil, append_nil]
  exact (joinOrigin_run horigin).2.aliases_eq

/-- The join step brings in a table at the end. -/
theorem addJoin_run (hbulk : s.bulk = false) (hparent : parent ∈ s.elements)
    (h : (addJoin context parent name kind alias?).run s = .ok (element, s')) :
    JoinStep context s s' ∧ ∃ origin, s'.entries = s.entries ++ [⟨element, some origin⟩]
      ∧ s'.implicit = s.implicit ∧ element.index = s.entries.length
      ∧ ScopeEntry.Fresh context ⟨element, some origin⟩ := by
  obtain ⟨property, association, target, tableAlias, origin, s₁, hproperty, hkind, htarget,
    horigin, hfree, rfl, rfl⟩ := addJoin_eq_ok h
  obtain ⟨hleads, hsame⟩ := joinOrigin_run horigin
  exact ⟨.join hparent hproperty hkind htarget horigin hfree hbulk, origin,
    hsame.entries_withEntry .., hsame.implicit_eq, rfl, ⟨_, htarget⟩, hleads.entry_bare⟩

theorem addRoot_eq_ok (h : (addRoot context name alias?).run s = .ok (element, s')) :
    ∃ entity, context.model.entity name = .ok entity ∧ s.Free alias?
      ∧ element = (s.rootEntry entity).element ∧ s' = s.withRoot entity alias? := by
  simp only [addRoot, run_bind, run_ofMapping, run_get] at h
  obtain ⟨entity, _, ⟨hentity, rfl⟩, _, _, ⟨rfl, rfl⟩, h⟩ := h
  refine ⟨entity, hentity, ?_⟩
  -- Both branches push the same entry; they differ in who has given out the alias.
  split at h
  · rename_i hbulk
    simp only [run_bind, run_pure, run_modify, run_get] at h
    obtain ⟨_, _, ⟨rfl, rfl⟩, _, _, rfl, _, _, ⟨rfl, rfl⟩, hpush⟩ := h
    obtain ⟨hfree, rfl, rfl⟩ := push_run hpush
    refine ⟨hfree, ?_, ?_⟩ <;> simp [rootEntry, withRoot, hbulk, addTable]
  · rename_i hbulk
    simp only [run_bind, run_map, run_modify, run_get] at h
    obtain ⟨_, _, ⟨tableAlias, halias, rfl⟩, _, _, rfl, _, _, ⟨rfl, rfl⟩, hpush⟩ := h
    obtain ⟨rfl, rfl⟩ := nextAlias_run halias
    obtain ⟨hfree, rfl, rfl⟩ := push_run hpush
    refine ⟨hfree, ?_, ?_⟩ <;> simp [rootEntry, withRoot, hbulk, addTable, countAlias]

theorem entries_withRoot (s : Scope) (entity : Entity) (alias? : Option String) :
    (s.withRoot entity alias?).entries = s.entries ++ [s.rootEntry entity] := by
  unfold withRoot withEntry
  split <;> rfl

theorem elements_withRoot (s : Scope) (entity : Entity) (alias? : Option String) :
    (s.withRoot entity alias?).elements = s.elements ++ [(s.rootEntry entity).element] := by
  rw [elements, entries_withRoot, map_append]
  rfl

theorem addRoot_run (h : (addRoot context name alias?).run s = .ok (element, s')) :
    Step context s s' ∧ s'.entries = s.entries ++ [⟨element, none⟩] := by
  obtain ⟨entity, hentity, hfree, rfl, rfl⟩ := addRoot_eq_ok h
  exact ⟨.root hentity hfree, entries_withRoot ..⟩

end Scope

end EntityQuery
