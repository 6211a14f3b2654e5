import EntityQuery.Proofs.Collection
import EntityQuery.Proofs.Number.Digits

/-!
# Which aliases are given out

An alias is a stem, a number and an underscore. The number counts all aliases of
a statement, so no two aliases have the same one, but nothing stands between the
stem and the number: `t1` with the number 0 and `t` with the number 10 are both
`t10_`. `nodup_aliasesFrom_iff` tells which stems and numbers run together like
that.

`Scope.Counted` is what holds while a statement is compiled: the aliases that have
been given out are stems of the model with the numbers that the counter has gone
through, each of them once.
-/

namespace EntityQuery

open List Sql ScopeEntry

open Sql (Atom)

/-! ## Stems and numbers -/

/-- The alias with the number `i` is the one with the number `j`: the digits that
`j` has more are at the end of the stem of the other. -/
def RunTogether (stems : List String) (i j : Nat) : Prop :=
  ∃ stem stem' digits, stems[i]? = some stem ∧ stems[j]? = some stem' ∧ digits ≠ []
    ∧ stem.toList = stem'.toList ++ digits
    ∧ (toString j).toList = digits ++ (toString i).toList

theorem length_toString_mono {i j : Nat} (h : i ≤ j) :
    (toString i).toList.length ≤ (toString j).toList.length := by
  rw [toList_toString_nat, toList_toString_nat]
  have hj : j < 10 ^ (Nat.toDigits 10 j).length :=
    (Nat.length_toDigits_le_iff (by decide) Nat.length_toDigits_pos).mp le_rfl
  exact (Nat.length_toDigits_le_iff (by decide) Nat.length_toDigits_pos).mpr (lt_of_le_of_lt h hj)

theorem alias_eq_iff {stem stem' : String} {i j : Nat} (hlt : i < j) :
    stem ++ toString i ++ "_" = stem' ++ toString j ++ "_" ↔
      ∃ digits, digits ≠ [] ∧ stem.toList = stem'.toList ++ digits
        ∧ (toString j).toList = digits ++ (toString i).toList := by
  have hchars : stem ++ toString i ++ "_" = stem' ++ toString j ++ "_"
      ↔ stem.toList ++ (toString i).toList = stem'.toList ++ (toString j).toList := by
    rw [← String.toList_inj]
    simp only [String.toList_append]
    exact append_left_inj _
  rw [hchars]
  constructor
  · intro h
    have hlength := length_toString_mono (le_of_lt hlt)
    rcases append_eq_append_iff.mp h with ⟨more, hstem, hi⟩ | ⟨digits, hstem, hj⟩
    · -- The smaller number has no more digits than the other.
      have hmore : more = [] := by
        rw [hi, length_append] at hlength
        exact length_eq_zero_iff.mp (by omega)
      rw [hmore, nil_append] at hi
      exact absurd (toString_nat_inj hi) (ne_of_lt hlt)
    · refine ⟨digits, ?_, hstem, hj⟩
      rintro rfl
      exact absurd (toString_nat_inj hj).symm (ne_of_lt hlt)
  · rintro ⟨digits, -, hstem, hj⟩
    rw [hstem, hj, append_assoc]

theorem aliasesFrom_append (start : Nat) (stems more : List String) :
    aliasesFrom start (stems ++ more)
      = aliasesFrom start stems ++ aliasesFrom (start + stems.length) more := by
  rw [aliasesFrom, zipIdx_append, map_append]
  rfl

theorem getElem?_aliasesFrom (stems : List String) (i : Nat) :
    (aliasesFrom 0 stems)[i]? = stems[i]?.map fun stem => stem ++ toString i ++ "_" := by
  rw [aliasesFrom, List.getElem?_map, List.getElem?_zipIdx, Option.map_map, Nat.zero_add]
  rfl

/-- The aliases are all different unless two of them run together. -/
theorem nodup_aliasesFrom_iff (stems : List String) :
    (aliasesFrom 0 stems).Nodup ↔ ∀ i j, i < j → ¬RunTogether stems i j := by
  rw [nodup_iff_getElem?_ne_getElem?]
  have hlength : (aliasesFrom 0 stems).length = stems.length := by simp [aliasesFrom]
  constructor
  · rintro h i j hlt ⟨stem, stem', digits, hi, hj, hne, hstem, hdigits⟩
    have hbound := (List.getElem?_eq_some_iff.mp hj).1
    refine h i j hlt (hlength ▸ hbound) ?_
    rw [getElem?_aliasesFrom, getElem?_aliasesFrom, hi, hj]
    exact congrArg some ((alias_eq_iff hlt).mpr ⟨digits, hne, hstem, hdigits⟩)
  · intro h i j hlt hbound heq
    rw [hlength] at hbound
    have hj := List.getElem?_eq_getElem hbound
    have hi := List.getElem?_eq_getElem (Nat.lt_trans hlt hbound)
    rw [getElem?_aliasesFrom, getElem?_aliasesFrom, hi, hj] at heq
    obtain ⟨digits, hrest⟩ := (alias_eq_iff hlt).mp (Option.some.inj heq)
    exact h i j hlt ⟨_, _, digits, hi, hj, hrest⟩

/-- Ten numbers have one digit each. -/
theorem nodup_aliasesFrom_of_length_le {stems : List String} (h : stems.length ≤ 10) :
    (aliasesFrom 0 stems).Nodup := by
  rw [nodup_aliasesFrom_iff]
  rintro i j - ⟨stem, stem', digits, -, hj, hne, -, hdigits⟩
  have hbound := (List.getElem?_eq_some_iff.mp hj).1
  have hlength : (toString j).toList.length ≤ 1 := length_toString_le (by decide) (by omega)
  rw [hdigits, length_append] at hlength
  have hi := length_pos_of_ne_nil (toString_nat_ne_nil i)
  have hpos := length_pos_of_ne_nil hne
  omega

def endsInDigit (stem : String) : Bool :=
  stem.toList.getLast?.any Char.isDigit

/-- Where no stem ends in a digit, the number is all the digits at the end. -/
theorem nodup_aliasesFrom_of_endsInDigit {stems : List String}
    (h : ∀ stem ∈ stems, endsInDigit stem = false) : (aliasesFrom 0 stems).Nodup := by
  rw [nodup_aliasesFrom_iff]
  rintro i j - ⟨stem, stem', digits, hi, -, hne, hstem, hdigits⟩
  have hlast : stem.toList.getLast? = some (digits.getLast hne) := by
    rw [hstem, List.getLast?_append_of_ne_nil _ hne, List.getLast?_eq_some_getLast]
  have hmem : digits.getLast hne ∈ (toString j).toList := by
    rw [hdigits]
    exact mem_append_left _ (getLast_mem hne)
  have hnot := h stem (mem_of_getElem? hi)
  rw [endsInDigit, hlast, Option.any_some, isDigit_of_mem_toString hmem] at hnot
  cases hnot

/-! ## The stems of a model -/

def PropertyKind.linkTable? : PropertyKind → Option String
  | .association (.manyToMany _ table _ _) => some table
  | _ => none

/-- The starts of the aliases that an entity can give rise to: those of its own
table and of the tables between it and others, in the from clause and in
subqueries. -/
def Entity.stems (entity : Entity) : List String :=
  [entity.stem, aliasStem Char.isAlphanum entity.table]
    ++ (entity.properties.filterMap (·.kind.linkTable?)).flatMap fun table =>
      [aliasStem Scope.isLinkAliasChar table, aliasStem Char.isAlphanum table]

def Metamodel.stems (model : Metamodel) : List String :=
  model.entities.flatMap Entity.stems

namespace Metamodel

variable {model : Metamodel} {entity : Entity} {name table stem : String}

theorem stem_mem (h : entity ∈ model.entities) (hstem : stem ∈ entity.stems) : stem ∈ model.stems :=
  mem_flatMap.mpr ⟨entity, h, hstem⟩

theorem linkStems_subset {property : Property} {association : Association}
    (h : entity ∈ model.entities) (hproperty : property ∈ entity.properties)
    (hkind : property.kind = .association association) : association.linkStems ⊆ model.stems := by
  intro stem hstem
  cases association with
  | manyToMany target table keyColumn elementColumn =>
    obtain rfl := mem_singleton.mp hstem
    refine stem_mem h (mem_append_right _ (mem_flatMap.mpr ⟨table, ?_, .head _⟩))
    exact mem_filterMap.mpr ⟨property, hproperty, by rw [hkind]; rfl⟩
  | manyToOne target column | oneToMany target keyColumn => cases hstem

theorem lookupStem_mem {path : List String} {association : Association} {keyColumn : String}
    (h : entity ∈ model.entities) (hdeclares : entity.Declares path association)
    (hholds : model.Holds association table keyColumn) :
    aliasStem Char.isAlphanum table ∈ model.stems := by
  cases hholds with
  | oneToMany hentity => exact stem_mem (mem_entities hentity) (.tail _ (.head _))
  | manyToMany =>
    obtain ⟨name, property, -, hproperty, hkind⟩ := hdeclares
    refine stem_mem h (mem_append_right _ (mem_flatMap.mpr ⟨table, ?_, .tail _ (.head _)⟩))
    exact mem_filterMap.mpr ⟨property, Entity.mem_of_property hproperty, by rw [hkind]; rfl⟩

end Metamodel

/-! ## The aliases of a scope -/

def Sql.Atom.aliases (atoms : List Atom) : List String :=
  (Atom.lookups atoms).map (·.tableAlias)

def Sql.JoinedTable.aliases (joined : JoinedTable) : List String :=
  joined.tableAlias :: Atom.aliases joined.atoms

def aliasCollection : Collection KeyLookup String :=
  .ofTables (fun _ tableAlias => tableAlias.toList) (·.tableAlias)

namespace Scope

/-- The aliases that have been given out are numbered through, with stems of the
model. -/
structure Counted (model : Metamodel) (scope : Scope) (given : List String) : Prop where
  mapped : ∀ element ∈ scope.elements, element.entity ∈ model.entities
  numbered : ∃ stems, stems ⊆ model.stems ∧ stems.length = scope.counter
    ∧ given.Perm (aliasesFrom 0 stems)

variable {model : Metamodel} {context : Context} {s s' : Scope} {given : List String}

theorem Counted.give (h : s.Counted model given) (new : List String) {added : List Element}
    (helements : s'.elements = s.elements ++ added)
    (hmapped : ∀ element ∈ added, element.entity ∈ model.entities) (hstems : new ⊆ model.stems)
    (hcounter : s'.counter = s.counter + new.length) :
    s'.Counted model (given ++ aliasesFrom s.counter new) := by
  obtain ⟨stems, hsubset, hlength, hnumbered⟩ := h.numbered
  refine ⟨helements ▸ forall_mem_append.mpr ⟨h.mapped, hmapped⟩, stems ++ new,
    append_subset.mpr ⟨hsubset, hstems⟩, ?_, ?_⟩
  · rw [length_append, hlength, hcounter]
  · rw [aliasesFrom_append, hlength, Nat.zero_add]
    exact hnumbered.append_right _

theorem Counted.withRoot {name : String} {entity : Entity} (alias? : Option String)
    (hentity : context.model.entity name = .ok entity) (h : s.Counted context.model given) :
    (s.withRoot entity alias?).Counted context.model
      (given ++ aliasCollection.ofEntry (s.rootEntry entity)) := by
  have hmem := Metamodel.mem_entities hentity
  have haliases : aliasCollection.ofEntry (s.rootEntry entity)
      = aliasesFrom s.counter (if s.bulk then [] else [entity.stem]) := by
    by_cases hbulk : s.bulk <;> simp [Collection.ofEntry, aliasCollection, Collection.ofTables,
      ScopeEntry.joinedTables, rootEntry, hbulk, aliasesFrom, freshAlias]
  rw [haliases]
  refine h.give _ (s.elements_withRoot ..) (forall_mem_singleton.mpr hmem) ?_ ?_
  · split
    · exact nil_subset _
    · simpa using Metamodel.stem_mem hmem (.head _)
  · by_cases hbulk : s.bulk <;>
      simp [Scope.withRoot, withEntry, addTable, hbulk, countAlias]

/-- Every alias of a statement is counted. -/
theorem kept_counted :
    aliasCollection.Kept context fun s _ given => s.Counted context.model given where
  empty _ := ⟨forall_mem_nil _, [], nil_subset _, rfl, .refl _⟩
  same helements hcounter _ h := ⟨helements ▸ h.mapped, hcounter ▸ h.numbered⟩
  perm _ hperm h := by
    obtain ⟨stems, hsubset, hlength, hnumbered⟩ := h.numbered
    exact ⟨h.mapped, stems, hsubset, hlength, hperm.symm.trans hnumbered⟩
  root := Counted.withRoot
  join alias? hparent hproperty hkind htarget horigin h := by
    obtain ⟨hsame, linkAlias, -, haliases, hcounter, -⟩ := joinOrigin_eq horigin
    have hmem := Metamodel.mem_entities htarget
    have hlinks := Metamodel.linkStems_subset (h.mapped _ hparent)
      (Entity.mem_of_property hproperty) hkind
    rw [show aliasCollection.ofKeys = fun joined => [joined.tableAlias] from rfl,
      ← map_eq_flatMap, haliases]
    refine h.give _ (hsame.elements_withEntry ..) (forall_mem_singleton.mpr hmem) ?_ hcounter
    exact append_subset.mpr ⟨hlinks, by simpa using Metamodel.stem_mem hmem (.head _)⟩
  parameter _ _ _ h := (append_nil _).symm ▸ h
  column _ _ h := (append_nil _).symm ▸ h
  lookup _ howner hdeclares hholds h := by
    have hstem := Metamodel.lookupStem_mem (h.mapped _ howner) hdeclares hholds
    exact h.give [aliasStem Char.isAlphanum _] (append_nil _).symm (forall_mem_nil _)
      (by simpa using hstem) rfl
  children _ h := h

end Scope

end EntityQuery
