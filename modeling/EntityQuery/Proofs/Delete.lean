import EntityQuery.Proofs.Bulk
import EntityQuery.Proofs.Mirror

/-!
# The conditions of a delete

A delete of an entity with many-to-many associations is compiled to several
statements, and its condition is resolved anew for each of them, in a scope that
has given out more aliases by then. `DeleteRun.Renders` says that a condition is
what came of it once. All that did are the same but for the numbers in the
aliases of lookups (`Renders.unnumbered_eq`), so they ask for the same parameters
(`Renders.slots_eq`), and none of them names a column together with its table
(`Renders.unqualified`).
-/

namespace EntityQuery

open List Sql

open Sql (Atom)

namespace Lowered

variable {context : Context}

variable {condition : Option Query.Expr} {properties : List Property} {unlinks : List Unlink}
  {entity : Entity}

/-- The condition is resolved in scopes that have grown from one. -/
theorem Unlinking.renders {base s s' : Scope} (hbulk : base.bulk)
    (h : Unlinking context entity condition s properties unlinks s')
    (hgrown : Scope.Grown context base s) :
    (∀ unlink ∈ unlinks, ∃ s₁ s₂, Scope.Grown context base s₁
      ∧ (Typed.condition context condition).run s₁ = .ok (unlink.condition, s₂))
      ∧ Scope.Grown context base s' := by
  induction h with
  | nil => exact ⟨forall_mem_nil _, hgrown⟩
  | @link s _ _ _ _ table _ _ _ _ hfound _ ih =>
    have hsame : Scope.SameTables s (s.addTable table) := ⟨rfl, rfl, rfl, rfl⟩
    have hstart := hgrown.of_sameTables hsame
    obtain ⟨_, _, -, -, htwins⟩ :=
      Typed.condition_mirrors Scope.Twins.kinship condition
        (hstart.twins_of_bulk hbulk hstart) hfound
    obtain ⟨hrest, hgrown'⟩ := ih htwins.left
    exact ⟨forall_mem_cons.mpr ⟨⟨_, _, hstart, hfound⟩, hrest⟩, hgrown'⟩
  | skip _ _ ih => exact ih hgrown

/-- All that the statements differ in are the associations and the conditions. -/
theorem Unlinking.unlinks_eq {s s' : Scope}
    (h : Unlinking context entity condition s properties unlinks s') :
    unlinks = List.zipWith
      (fun link found => ⟨link.1, link.2, entity.table, entity.identifier.column, found⟩)
      (properties.filterMap Property.link?) (unlinks.map (·.condition)) := by
  induction h with
  | nil => rfl
  | link hlink _ _ ih =>
    rw [filterMap_cons_some hlink, map_cons, zipWith_cons_cons, ← ih]
  | skip hlink _ ih =>
    rw [filterMap_cons_none hlink]
    exact ih

namespace DeleteRun

variable {delete : Query.Delete} (run : DeleteRun context delete)

def conditions : List (Option Term) :=
  run.unlinks.map (·.condition) ++ [run.condition]

/-- The condition of the delete is resolved to this in a scope that has grown from
the root. -/
def Renders (found : Option Term) : Prop :=
  ∃ s s', Scope.Grown context run.afterRoot s
    ∧ (Typed.condition context delete.condition).run s = .ok (found, s')

theorem afterRoot_eq : ∃ entity, run.root = ⟨0, 0, entity, none⟩
    ∧ run.afterRoot = Scope.withRoot { bulk := true } entity delete.alias? := by
  obtain ⟨entity, -, -, hroot, hscope⟩ := Scope.addRoot_eq_ok run.rootRun
  exact ⟨entity, hroot, hscope⟩

theorem tableAlias_root : run.root.tableAlias = none := by
  obtain ⟨entity, hroot, -⟩ := run.afterRoot_eq
  rw [hroot]

theorem bulk_afterRoot : run.afterRoot.bulk = true := by
  obtain ⟨entity, -, hscope⟩ := run.afterRoot_eq
  rw [hscope]
  rfl

theorem elements_afterRoot : run.afterRoot.elements = [run.root] := by
  obtain ⟨entity, hroot, hscope⟩ := run.afterRoot_eq
  rw [hroot, hscope]
  rfl

theorem grown_afterRoot : Scope.Grown context run.afterRoot run.afterRoot := by
  refine .refl run.valid_afterRoot ?_ ?_
  · obtain ⟨entity, -, hscope⟩ := run.afterRoot_eq
    rw [hscope]
    exact forall_mem_nil _
  · rw [run.elements_afterRoot]
    exact forall_mem_singleton.mpr ⟨_, run.entity_eq⟩

theorem renders : ∀ found ∈ run.conditions, run.Renders found := by
  obtain ⟨hunlinks, hgrown⟩ := run.unlinking.renders run.bulk_afterRoot run.grown_afterRoot
  refine forall_mem_append.mpr ⟨forall_mem_map.mpr fun unlink hunlink => ?_,
    forall_mem_singleton.mpr ⟨_, _, hgrown, run.conditionRun⟩⟩
  obtain ⟨s, s', hs, hrun⟩ := hunlinks unlink hunlink
  exact ⟨s, s', hs, hrun⟩

namespace Renders

variable {run} {found other : Option Term}

/-- The only table that a condition refers to is the root. -/
theorem resolves (h : run.Renders found) : ∃ s s',
    Resolves context s delete.condition.toList (optionAtoms found) s'
      ∧ s'.elements = [run.root] := by
  obtain ⟨s, s', hgrown, hrun⟩ := h
  have hresolves := (Typed.condition_resolves delete.condition).resolves hgrown.valid hrun
  have hbulk := run.bulk_afterRoot
  refine ⟨s, s', hresolves, ?_⟩
  rw [Scope.elements, hresolves.entries_of_bulk (hgrown.bulk_eq.trans hbulk),
    hgrown.entries_of_bulk hbulk]
  exact run.elements_afterRoot

theorem unqualified (h : run.Renders found) {ref : ColumnRef}
    (href : .column ref ∈ optionAtoms found) : ref.qualifier = none := by
  obtain ⟨s, s', hresolves, helements⟩ := h.resolves
  obtain ⟨owner, howner, hqualifier⟩ := hresolves.refers _ href
  rw [helements] at howner
  rw [hqualifier, mem_singleton.mp howner]
  exact run.tableAlias_root

/-- What is looked up are the elements of collections of the entity that the
condition tests. -/
theorem finds (h : run.Renders found) {lookup : KeyLookup}
    (hlookup : .lookup lookup ∈ optionAtoms found) :
    ∃ path ∈ Query.tested delete.condition.toList,
      lookup.Finds context.model [run.root] path := by
  obtain ⟨s, s', hresolves, helements⟩ := h.resolves
  obtain ⟨tests, htested, hlookups, hfinds⟩ := hresolves.lookups
  have hmem : lookup ∈ Atom.lookups (optionAtoms found) :=
    mem_filterMap.mpr ⟨_, hlookup, rfl⟩
  obtain ⟨test, htest, rfl⟩ := mem_map.mp (hlookups.mem_iff.mpr hmem)
  exact ⟨test.1, htested.mem_iff.mp (mem_map_of_mem htest), helements ▸ hfinds test htest⟩

theorem bare_eq (h : run.Renders found) (hother : run.Renders other) :
    other.map Term.bare = found.map Term.bare := by
  obtain ⟨s, s', hgrown, hrun⟩ := h
  obtain ⟨t, t', hgrown', hrun'⟩ := hother
  have htwins := hgrown.twins_of_bulk run.bulk_afterRoot hgrown'
  obtain ⟨twin, _, htwin, hbare, -⟩ :=
    Typed.condition_mirrors Scope.Twins.kinship delete.condition htwins hrun
  obtain ⟨rfl, -⟩ := Prod.mk.inj (Except.ok.inj (htwin.symm.trans hrun'))
  exact hbare

/-- The names that a bare condition had in the scope of the root, without the
numbers. -/
def requalified (table : String) : Renaming where
  column := id
  lookup found := { found with
    tableAlias := aliasStem Char.isAlphanum found.table
    owner := { found.owner with qualifier := some table } }

theorem unnumbered_eq_rename (h : run.Renders found) :
    found.map Term.unnumbered
      = (found.map Term.bare).map (Term.rename (requalified run.root.entity.table)) := by
  rw [Option.map_map]
  refine Option.map_congr fun term hterm => ?_
  obtain rfl := Option.mem_def.mp hterm
  have hatoms : optionAtoms (some term) = term.atoms := flatMap_singleton ..
  rw [Function.comp_apply, Term.rename_rename]
  refine Term.rename_congr fun atom hatom => ?_
  rw [← hatoms] at hatom
  cases atom with
  | slot parameter => rfl
  | column ref =>
    have hnone := h.unqualified hatom
    obtain ⟨qualifier, column⟩ := ref
    obtain rfl : qualifier = none := hnone
    rfl
  | lookup lookup =>
    obtain ⟨path, -, hfinds⟩ := h.finds hatom
    obtain ⟨owner, howner, hcolumn, -⟩ := hfinds.collection
    obtain rfl := mem_singleton.mp howner
    have hqualifier : lookup.owner.qualifier = some run.root.entity.table := by
      rw [hcolumn, Element.outerColumn, run.tableAlias_root]
      rfl
    obtain ⟨table, tableAlias, keyColumn, ⟨qualifier, column⟩⟩ := lookup
    obtain rfl : qualifier = some run.root.entity.table := hqualifier
    rfl

/-- Up to the numbers in the aliases of lookups the condition is always the same. -/
theorem unnumbered_eq (h : run.Renders found) (hother : run.Renders other) :
    other.map Term.unnumbered = found.map Term.unnumbered := by
  rw [h.unnumbered_eq_rename, hother.unnumbered_eq_rename, h.bare_eq hother]

theorem slots_eq (h : run.Renders found) (hother : run.Renders other) :
    Atom.slots (optionAtoms other) = Atom.slots (optionAtoms found) := by
  have hbare : ∀ term : Option Term,
      Atom.slots (optionAtoms (term.map Term.bare)) = Atom.slots (optionAtoms term) := by
    rintro (_ | term)
    · rfl
    · simp only [optionAtoms, Option.map_some, Option.toList_some, flatMap_singleton,
        Term.slots_rename]
  rw [← hbare other, h.bare_eq hother, hbare found]

end Renders

end DeleteRun

end Lowered

end EntityQuery
