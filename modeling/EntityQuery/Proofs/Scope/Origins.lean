import EntityQuery.Proofs.Scope.Ranges

/-!
# How tables are joined

A joined table keeps how it is joined: from which table, along which property,
and by which SQL. The SQL is what the association of the parent says, for the
aliases of the tables (`Association.origin`), and stays so: of a join, only the
conditions ever change (`Scope.Linked`).
-/

namespace EntityQuery

open List Sql

variable {parent : Element} {association : Association} {tableAlias : String} {model : Metamodel}

namespace JoinOrigin

variable {joined : JoinedTable} {origin : JoinOrigin} {linkAlias : String} {element : Element}

/-- The join without conditions. -/
def unconditional (origin : JoinOrigin) : JoinOrigin :=
  { origin with target := { origin.target with conditions := [] } }

/-- The join of the element is that of an association of the parent. -/
structure Follows (origin : JoinOrigin) (parent element : Element) (association : Association)
    (linkAlias tableAlias : String) : Prop where
  property : ∃ property, parent.entity.property origin.property = .ok property
    ∧ property.kind = .association association
  alias_eq : element.tableAlias = some tableAlias
  origin_eq : origin.unconditional = association.origin origin.target.kind parent origin.property
    element.entity linkAlias tableAlias

theorem eq_of_singleton_split {α : Type} {before after : List α} {a b : α}
    (h : [a] = before ++ b :: after) : before = [] ∧ b = a := by
  cases before with
  | nil => exact ⟨rfl, (List.cons.inj h).1.symm⟩
  | cons first rest => exact absurd (List.cons.inj h).2.symm (by simp)

/-- The key of a join is equal to one of the parent, or of the table in between
that is joined before it. -/
theorem Follows.keys (h : origin.Follows parent element association linkAlias tableAlias)
    {before after : List JoinedTable}
    (hsplit : origin.link.toList ++ [origin.target] = before ++ joined :: after) :
    joined.right.qualifier = some joined.tableAlias
      ∧ (joined.left.qualifier = parent.tableAlias
        ∨ ∃ link ∈ before, joined.left.qualifier = some link.tableAlias) := by
  obtain ⟨index, name, link, target⟩ := origin
  have hlink := congrArg JoinOrigin.link h.origin_eq
  have htarget := congrArg JoinOrigin.target h.origin_eq
  have halias := congrArg JoinedTable.tableAlias htarget
  have hleft := congrArg JoinedTable.left htarget
  have hright := congrArg JoinedTable.right htarget
  simp only [unconditional] at hlink halias hleft hright
  cases association with
  | manyToMany targetName table keyColumn elementColumn =>
    obtain rfl := hlink
    cases before with
    | nil =>
      obtain ⟨rfl, -⟩ := List.cons.inj hsplit
      exact ⟨rfl, .inl rfl⟩
    | cons first rest =>
      obtain ⟨rfl, hrest⟩ := List.cons.inj hsplit
      obtain ⟨rfl, rfl⟩ := eq_of_singleton_split hrest
      exact ⟨by rw [hright, halias]; rfl, .inr ⟨_, .head _, by rw [hleft]; rfl⟩⟩
  | manyToOne targetName column | oneToMany targetName keyColumn =>
    obtain rfl := hlink
    obtain ⟨rfl, rfl⟩ := eq_of_singleton_split hsplit
    exact ⟨by rw [hright, halias]; rfl, .inl (by rw [hleft]; rfl)⟩

/-- Only the join of the table itself has conditions. -/
theorem Follows.alias_of_condition
    (h : origin.Follows parent element association linkAlias tableAlias) {condition : Condition}
    (hjoined : joined ∈ origin.link.toList ++ [origin.target])
    (hcondition : condition ∈ joined.conditions) : element.tableAlias = some joined.tableAlias := by
  have hlink := congrArg JoinOrigin.link h.origin_eq
  have halias := congrArg (·.target.tableAlias) h.origin_eq
  simp only [unconditional] at hlink halias
  rw [h.alias_eq]
  rcases mem_append.mp hjoined with hbetween | htarget
  · rw [hlink] at hbetween
    cases association with
    | manyToMany target table keyColumn elementColumn =>
      obtain rfl := mem_singleton.mp hbetween
      cases hcondition
    | manyToOne target column | oneToMany target keyColumn => cases hbetween
  · obtain rfl := mem_singleton.mp htarget
    rw [halias]
    cases association <;> rfl

end JoinOrigin

namespace Scope

variable {context : Context} {s s' : Scope}

/-- Every joined table is joined along an association of a table of the scope, and
every entity is one of the model. -/
structure Linked (model : Metamodel) (scope : Scope) : Prop where
  mapped : ∀ element ∈ scope.elements, ∃ name, model.entity name = .ok element.entity
  follows : ∀ entry ∈ scope.entries, ∀ origin, entry.origin = some origin →
    ∃ parent association linkAlias tableAlias, scope.elements[origin.parent]? = some parent
      ∧ origin.Follows parent entry.element association linkAlias tableAlias

theorem Linked.empty (model : Metamodel) : Linked model {} :=
  ⟨forall_mem_nil _, forall_mem_nil _⟩

/-- The join of one more table leads to a table that was there before. -/
theorem Linked.append {entry : ScopeEntry} (h : s.Linked model)
    (hentries : s'.entries = s.entries ++ [entry])
    (hmapped : ∃ name, model.entity name = .ok entry.element.entity)
    (hentry : ∀ origin, entry.origin = some origin →
      ∃ parent association linkAlias tableAlias, s.elements[origin.parent]? = some parent
        ∧ origin.Follows parent entry.element association linkAlias tableAlias) :
    s'.Linked model := by
  have hkeep : ∀ {position : Nat} {found : Element}, s.elements[position]? = some found →
      s'.elements[position]? = some found := by
    intro position found hfound
    rw [elements, hentries]
    exact getElem?_elements_append hfound
  constructor
  · rw [elements, hentries, map_append]
    exact forall_mem_append.mpr ⟨h.mapped, forall_mem_singleton.mpr hmapped⟩
  · rw [hentries]
    intro old hold origin horigin
    have hfollows : ∃ parent association linkAlias tableAlias,
        s.elements[origin.parent]? = some parent
          ∧ origin.Follows parent old.element association linkAlias tableAlias := by
      rcases mem_append.mp hold with hmem | hmem
      · exact h.follows old hmem origin horigin
      · obtain rfl := mem_singleton.mp hmem
        exact hentry origin horigin
    obtain ⟨parent, association, linkAlias, tableAlias, hparent, hfollows⟩ := hfollows
    exact ⟨parent, association, linkAlias, tableAlias, hkeep hparent, hfollows⟩

theorem Linked.of_entries (h : s.Linked model) (hentries : s'.entries = s.entries) :
    s'.Linked model := by
  constructor
  · rw [elements, hentries]
    exact h.mapped
  · rw [elements, hentries]
    exact h.follows

theorem Linked.joinStep (hvalid : s.Valid) (h : s.Linked context.model)
    (hstep : JoinStep context s s') : s'.Linked context.model := by
  cases hstep with
  | join hparent hproperty hkind htarget horigin hfree hbulk =>
    rename_i s₁ kind parent name property association target tableAlias origin alias?
    obtain ⟨-, linkAlias, horiginEq, -⟩ := joinOrigin_eq horigin
    obtain ⟨hleads, hsame⟩ := joinOrigin_run horigin
    refine h.append (hsame.entries_withEntry ..) ⟨_, htarget⟩ ?_
    rintro _ ⟨rfl⟩
    refine ⟨parent, association, linkAlias, tableAlias, ?_, ⟨property, ?_, hkind⟩, rfl, ?_⟩
    · rw [hleads.parent_eq]
      exact hvalid.getElem?_index hparent
    · rwa [hleads.property_eq]
    · rw [horiginEq]
      cases association <;> rfl
  | remember helement => exact h.of_entries rfl

theorem Linked.step (hvalid : s.Valid) (h : s.Linked context.model)
    (hstep : Step context s s') : s'.Linked context.model := by
  cases hstep with
  | root hentity hfree => exact h.append (entries_withRoot ..) ⟨_, hentity⟩ nofun
  | joined hjoin => exact h.joinStep hvalid hjoin
  | table | giveAlias => exact h.of_entries rfl

/-- Conditions leave the join as it is. -/
theorem Linked.restricted (h : s.Linked model) (helements : s'.elements = s.elements)
    (hentries : ∀ entry' ∈ s'.entries, ∃ entry ∈ s.entries, ∃ conditions,
      entry' = entry.restrict conditions) : s'.Linked model := by
  constructor
  · rw [helements]
    exact h.mapped
  · rw [helements]
    intro entry' hentry' origin' horigin'
    obtain ⟨⟨element, origin⟩, hentry, conditions, rfl⟩ := hentries entry' hentry'
    cases origin with
    | none => cases horigin'
    | some origin =>
      obtain rfl := Option.some.inj horigin'
      obtain ⟨parent, association, linkAlias, tableAlias, hparent, hfollows⟩ :=
        h.follows _ hentry origin rfl
      exact ⟨parent, association, linkAlias, tableAlias, hparent, hfollows.property,
        hfollows.alias_eq, hfollows.origin_eq⟩

theorem Linked.addCondition (h : s.Linked model) (index : Nat) (condition : Condition) :
    (s.addCondition index condition).Linked model := by
  refine h.restricted (elements_addCondition ..) fun entry' hentry' => ?_
  obtain ⟨position, hposition⟩ := mem_iff_getElem?.mp hentry'
  simp only [Scope.addCondition, getElem?_modify, Option.map_eq_map,
    Option.map_eq_some_iff] at hposition
  obtain ⟨entry, hentry, rfl⟩ := hposition
  refine ⟨entry, mem_of_getElem? hentry, ?_⟩
  split
  · exact ⟨[condition], rfl⟩
  · exact ⟨[], by obtain ⟨element, origin⟩ := entry; cases origin <;> simp [ScopeEntry.restrict]⟩

theorem Linked.filtered {enabled : EnabledFilters} {rooted : List Template}
    (h : s.Linked model) (hfiltered : s.filtered enabled = .ok (s', rooted)) : s'.Linked model := by
  refine h.restricted (filtered_elements hfiltered) fun entry' hentry' => ?_
  obtain ⟨tables, hentries, -, rfl, -⟩ := filtered_eq_ok hfiltered
  obtain ⟨table, htable, rfl⟩ := mem_map.mp hentry'
  refine ⟨table.entry, ?_, _, rfl⟩
  rw [hentries]
  exact mem_map_of_mem htable

end Scope

end EntityQuery
