import EntityQuery.Model.Entity
import EntityQuery.Proofs.Sql.Atoms

/-!
# Terms in which tables are named differently

Which name a table goes by in a term is a matter of the scope that the term was
resolved in. A `Renaming` puts other names into a term and leaves all else as it
is. Two of them are of use: `Renaming.bare` leaves the names out, so that terms of
different scopes can be compared, and `Renaming.unnumbered` leaves out only the
numbers in the aliases of lookups.

What a renaming does to a term is decided by what the term refers to
(`Term.atoms_rename`, `Term.rename_congr`), and parameters are never touched
(`Term.slots_rename`).
-/

namespace EntityQuery.Sql

open List

/-- Other names for the tables that a term refers to. -/
structure Renaming where
  column : ColumnRef → ColumnRef
  lookup : KeyLookup → KeyLookup

namespace Renaming

def same : Renaming where
  column := id
  lookup := id

def comp (second first : Renaming) : Renaming where
  column := second.column ∘ first.column
  lookup := second.lookup ∘ first.lookup

/-- Leaves out the names of tables and all aliases. -/
def bare : Renaming where
  column ref := { ref with qualifier := none }
  lookup found := { found with tableAlias := "", owner := { found.owner with qualifier := none } }

/-- Leaves out the numbers in the aliases of lookups. -/
def unnumbered : Renaming where
  column := id
  lookup found := { found with tableAlias := aliasStem Char.isAlphanum found.table }

def atom (names : Renaming) : Atom → Atom
  | .slot parameter => .slot parameter
  | .column ref => .column (names.column ref)
  | .lookup found => .lookup (names.lookup found)

theorem slots_map_atom (names : Renaming) (atoms : List Atom) :
    Atom.slots (atoms.map names.atom) = Atom.slots atoms := by
  rw [Atom.slots, filterMap_map, Atom.slots]
  congr 1
  funext found
  cases found <;> rfl

end Renaming

mutual
def Term.rename (names : Renaming) : Term → Term
  | .literal value => .literal value
  | .column ref => .column (names.column ref)
  | .slot parameter => .slot parameter
  | .group inner => .group (inner.rename names)
  | .negate inner => .negate (inner.rename names)
  | .not inner => .not (inner.rename names)
  | .logical op left right => .logical op (left.rename names) (right.rename names)
  | .compare op left right => .compare op (left.rename names) (right.rename names)
  | .arithmetic op left right => .arithmetic op (left.rename names) (right.rename names)
  | .concat parts => .concat (Term.renameAll names parts)
  | .like subject pattern none negated =>
    .like (subject.rename names) (pattern.rename names) none negated
  | .like subject pattern (some escape) negated =>
    .like (subject.rename names) (pattern.rename names) (some (escape.rename names)) negated
  | .inList subject items negated =>
    .inList (subject.rename names) (Term.renameAll names items) negated
  | .between subject low high negated =>
    .between (subject.rename names) (low.rename names) (high.rename names) negated
  | .isNull subject negated => .isNull (subject.rename names) negated
  | .areNull columns negated => .areNull (columns.map names.column) negated
  | .noneFound found negated => .noneFound (names.lookup found) negated
  | .call function arguments => .call function (Term.renameAll names arguments)
  | .aggregate function distinct none => .aggregate function distinct none
  | .aggregate function distinct (some argument) =>
    .aggregate function distinct (some (argument.rename names))

def Term.renameAll (names : Renaming) : List Term → List Term
  | [] => []
  | term :: rest => term.rename names :: Term.renameAll names rest
end

/-- A term without the names of its tables. -/
abbrev Term.bare (term : Term) : Term :=
  term.rename .bare

/-- A term without the numbers in the aliases of its lookups. -/
abbrev Term.unnumbered (term : Term) : Term :=
  term.rename .unnumbered

namespace Term

theorem rename_asListItem (names : Renaming) (term : Term) :
    term.asListItem.rename names = (term.rename names).asListItem := by
  cases term with
  | like subject pattern escape negated => cases escape <;> simp only [asListItem, rename]
  | aggregate function distinct argument => cases argument <;> simp only [asListItem, rename]
  | _ => simp only [asListItem, rename]

theorem atoms_rename (names : Renaming) (term : Term) :
    (term.rename names).atoms = term.atoms.map names.atom := by
  have hall : (∀ term : Term, (term.rename names).atoms = term.atoms.map names.atom)
      ∧ ∀ terms, atomsOf (renameAll names terms) = (atomsOf terms).map names.atom := by
    apply rename.mutual_induct <;> simp_all [rename, renameAll, atoms, atomsOf, Renaming.atom]
  exact hall.1 term

theorem slots_rename (names : Renaming) (term : Term) :
    Atom.slots (term.rename names).atoms = Atom.slots term.atoms := by
  rw [atoms_rename, Renaming.slots_map_atom]

theorem slots_eq_of_bare {term other : Term} (h : other.bare = term.bare) :
    Atom.slots other.atoms = Atom.slots term.atoms := by
  rw [← slots_rename .bare other, ← slots_rename .bare term]
  exact congrArg (fun found => Atom.slots found.atoms) h

theorem rename_rename (second first : Renaming) (term : Term) :
    (term.rename first).rename second = term.rename (second.comp first) := by
  have hall : (∀ term : Term, (term.rename first).rename second = term.rename (second.comp first))
      ∧ ∀ terms, renameAll second (renameAll first terms) = renameAll (second.comp first) terms := by
    apply rename.mutual_induct <;> simp_all [rename, renameAll, Renaming.comp]
  exact hall.1 term

theorem rename_same (term : Term) : term.rename .same = term := by
  have hall : (∀ term : Term, term.rename .same = term)
      ∧ ∀ terms, renameAll .same terms = terms := by
    apply rename.mutual_induct <;> simp_all [rename, renameAll, Renaming.same]
  exact hall.1 term

mutual
/-- Renamings that agree on what a term refers to rename it alike. -/
theorem rename_congr {first second : Renaming} : ∀ {term : Term},
    (∀ found ∈ term.atoms, first.atom found = second.atom found) →
      term.rename first = term.rename second
  | .literal _, _ | .slot _, _ | .aggregate _ _ none, _ => by simp only [rename]
  | .column ref, h => by
    rw [atoms, forall_mem_singleton] at h
    simp only [rename, Atom.column.inj h]
  | .noneFound found _, h => by
    rw [atoms, forall_mem_singleton] at h
    simp only [rename, Atom.lookup.inj h]
  | .areNull columns _, h => by
    rw [atoms, forall_mem_map] at h
    have hcolumns : columns.map first.column = columns.map second.column :=
      map_congr_left fun ref href => Atom.column.inj (h ref href)
    simp only [rename, hcolumns]
  | .group inner, h | .negate inner, h | .not inner, h | .isNull inner _, h
  | .aggregate _ _ (some inner), h => by
    rw [atoms] at h
    simp only [rename, rename_congr h]
  | .logical _ left right, h | .compare _ left right, h | .arithmetic _ left right, h
  | .like left right none _, h => by
    rw [atoms, forall_mem_append] at h
    simp only [rename, rename_congr h.1, rename_congr h.2]
  | .like _ _ (some _) _, h | .between _ _ _ _, h => by
    rw [atoms, forall_mem_append, forall_mem_append] at h
    simp only [rename, rename_congr h.1.1, rename_congr h.1.2, rename_congr h.2]
  | .concat items, h | .call _ items, h => by
    rw [atoms] at h
    simp only [rename, renameAll_congr h]
  | .inList _ items _, h => by
    rw [atoms, forall_mem_append] at h
    simp only [rename, rename_congr h.1, renameAll_congr h.2]

theorem renameAll_congr {first second : Renaming} : ∀ {terms : List Term},
    (∀ found ∈ atomsOf terms, first.atom found = second.atom found) →
      renameAll first terms = renameAll second terms
  | [], _ => by simp only [renameAll]
  | _ :: _, h => by
    rw [atomsOf, forall_mem_append] at h
    simp only [renameAll, rename_congr h.1, renameAll_congr h.2]
end

end Term

end EntityQuery.Sql
