import EntityQuery.Proofs.Model
import EntityQuery.Proofs.Scope.Valid

/-!
# Paths lead to tables of the scope

Resolving a path lets the scope grow by implicit joins only, and what the
path denotes belongs to a table of the scope that is left (`resolve_run`).
The same holds of the owner of a join path (`joinOwner_run`). A collection or a
reference is the property of its owner that the path ends with
(`resolve_declared`).
-/

namespace EntityQuery

open List

variable {owner : Element} {path rest : List String} {name : String} {meaning : Meaning}

/-- The table that the meaning of a path belongs to. -/
def Meaning.element : Meaning → Element
  | .column owner _ _ => owner
  | .component owner _ _ => owner
  | .entity element => element
  | .reference owner _ _ _ => owner
  | .collection owner _ => owner

/-- The association is the property of the entity that the path ends with. -/
def Entity.Declares (entity : Entity) (path : List String) (association : Association) : Prop :=
  ∃ name property, path.getLast? = some name ∧ entity.property name = .ok property
    ∧ property.kind = .association association

/-- A collection or a reference is the property of its owner that the path ends
with. -/
def Meaning.Declared (path : List String) : Meaning → Prop
  | .collection owner association => owner.entity.Declares path association
  | .reference owner property target key =>
    path.getLast? = some property ∧ owner.entity.Declares path (.manyToOne target key)
  | _ => True

namespace Scope

open Scoped

variable {context : Context} {s s' : Scope}

/-- An implicit join is made once for each owner and property. -/
theorem implicitJoin_eq_ok {element : Element} {property : String} :
    (implicitJoin context owner property path).run s = .ok (element, s') ↔ s.bulk = false
      ∧ (s.implicit.lookup (owner.index, property) = some element ∧ s = s'
        ∨ s.implicit.lookup (owner.index, property) = none
          ∧ ∃ s₁, (addJoin context owner property .inner none).run s = .ok (element, s₁)
            ∧ s₁.remember owner property element = s') := by
  simp only [implicitJoin, run_bind, run_get]
  constructor
  · rintro ⟨_, _, ⟨rfl, rfl⟩, h⟩
    split at h
    · exact (not_run_misuse h).elim
    · rename_i hbulk
      refine ⟨Bool.not_eq_true _ ▸ hbulk, ?_⟩
      split at h
      · rename_i found hfound
        obtain ⟨rfl, rfl⟩ := run_pure.mp h
        exact .inl ⟨hfound, rfl⟩
      · rename_i hnone
        simp only [run_bind, run_modify, run_pure] at h
        obtain ⟨joined, s₁, hjoin, _, _, rfl, rfl, rfl⟩ := h
        exact .inr ⟨hnone, s₁, hjoin, rfl⟩
  · rintro ⟨hbulk, ⟨hfound, rfl⟩ | ⟨hnone, s₁, hjoin, rfl⟩⟩
    · refine ⟨s, s, ⟨rfl, rfl⟩, ?_⟩
      simp only [hbulk, hfound, Bool.false_eq_true, if_false]
      exact run_pure.mpr ⟨rfl, rfl⟩
    · refine ⟨s, s, ⟨rfl, rfl⟩, ?_⟩
      simp only [hbulk, hnone, Bool.false_eq_true, if_false, run_bind, run_modify, run_pure]
      exact ⟨element, s₁, hjoin, (), _, rfl, rfl, rfl⟩

theorem implicitJoin_run {element : Element} {property : String} (hvalid : s.Valid)
    (howner : owner ∈ s.elements)
    (h : (implicitJoin context owner property path).run s = .ok (element, s')) :
    Joins context s s' ∧ element ∈ s'.elements := by
  obtain ⟨hbulk, ⟨hfound, rfl⟩ | ⟨-, s₁, hjoin, rfl⟩⟩ := implicitJoin_eq_ok.mp h
  · exact ⟨.refl, hvalid.implicit _ (Keyed.lookup_mem hfound)⟩
  · obtain ⟨hstep, origin, hentries, himplicit, -⟩ := addJoin_run hbulk howner hjoin
    have hmem : element ∈ s₁.elements := by
      rw [elements, hentries, map_append]
      exact mem_append_right _ (mem_singleton.mpr rfl)
    exact ⟨.single (.intro hstep hentries himplicit (addJoin_aliases hjoin) howner
      (addJoin_reaches hjoin) ⟨path, h⟩), hmem⟩

theorem property_element (h : property owner name = .ok meaning) : meaning.element = owner := by
  simp only [property] at h
  split at h
  · obtain rfl := Except.ok.inj h
    rfl
  · split at h
    · cases h
    · split at h <;> (obtain rfl := Except.ok.inj h; rfl)

theorem property_declared (h : property owner name = .ok meaning) (names : List String) :
    meaning.Declared (names ++ [name]) := by
  simp only [property] at h
  split at h
  · obtain rfl := Except.ok.inj h
    trivial
  · split at h
    · cases h
    · rename_i found hfound
      have hlast : (names ++ [name]).getLast? = some name := getLast?_concat
      split at h
      · obtain rfl := Except.ok.inj h
        trivial
      · obtain rfl := Except.ok.inj h
        trivial
      · rename_i hkind
        obtain rfl := Except.ok.inj h
        exact ⟨hlast, name, found, hlast, hfound, hkind⟩
      · rename_i hkind
        obtain rfl := Except.ok.inj h
        exact ⟨name, found, hlast, hfound, hkind⟩

theorem roots_subset (scope : Scope) : scope.roots ⊆ scope.elements :=
  map_subset _ filter_sublist.subset

theorem soleRoot_eq_ok {root : Element} :
    (soleRoot context path).run s = .ok (root, s') ↔ s.roots = [root] ∧ s = s' := by
  simp only [soleRoot, run_bind, run_get]
  constructor
  · rintro ⟨_, _, ⟨rfl, rfl⟩, h⟩
    split at h
    · rename_i found hroots
      obtain ⟨rfl, rfl⟩ := run_pure.mp h
      exact ⟨hroots, rfl⟩
    · exact (not_run_misuse h).elim
  · rintro ⟨hroots, rfl⟩
    refine ⟨s, s, ⟨rfl, rfl⟩, ?_⟩
    rw [hroots]
    exact run_pure.mpr ⟨rfl, rfl⟩

theorem soleRoot_run {root : Element} (h : (soleRoot context path).run s = .ok (root, s')) :
    root ∈ s.elements ∧ s = s' := by
  obtain ⟨hroots, rfl⟩ := soleRoot_eq_ok.mp h
  exact ⟨s.roots_subset (hroots ▸ mem_singleton.mpr rfl), rfl⟩

/-- A path starts at a declared alias, which is left out of it then, or at the only
root. -/
theorem start_eq_ok {element : Element} :
    (start context path).run s = .ok ((element, rest), s') ↔ s = s'
      ∧ ((∃ first, path = first :: rest ∧ s.aliases.lookup first = some element)
        ∨ rest = path ∧ s.roots = [element]
          ∧ ∀ first, path.head? = some first → s.aliases.lookup first = none) := by
  cases path with
  | nil =>
    simp only [start, run_bind, run_pure, soleRoot_eq_ok, Prod.mk.injEq]
    constructor
    · rintro ⟨_, _, ⟨hroots, rfl⟩, ⟨rfl, rfl⟩, rfl⟩
      exact ⟨rfl, .inr ⟨rfl, hroots, nofun⟩⟩
    · rintro ⟨rfl, ⟨_, hpath, -⟩ | ⟨rfl, hroots, -⟩⟩
      · cases hpath
      · exact ⟨element, s, ⟨hroots, rfl⟩, ⟨rfl, rfl⟩, rfl⟩
  | cons first names =>
    simp only [start, run_bind, run_get]
    constructor
    · rintro ⟨_, _, ⟨rfl, rfl⟩, h⟩
      split at h
      · rename_i found hfound
        obtain ⟨heq, rfl⟩ := run_pure.mp h
        obtain ⟨rfl, rfl⟩ := Prod.mk.inj heq
        exact ⟨rfl, .inl ⟨first, rfl, hfound⟩⟩
      · rename_i hnone
        simp only [run_bind, run_pure, soleRoot_eq_ok, Prod.mk.injEq] at h
        obtain ⟨_, _, ⟨hroots, rfl⟩, ⟨rfl, rfl⟩, rfl⟩ := h
        refine ⟨rfl, .inr ⟨rfl, hroots, ?_⟩⟩
        rintro _ ⟨rfl⟩
        exact hnone
    · rintro ⟨rfl, ⟨_, hpath, hfound⟩ | ⟨rfl, hroots, hnone⟩⟩
      · obtain ⟨rfl, rfl⟩ := List.cons.inj hpath
        refine ⟨s, s, ⟨rfl, rfl⟩, ?_⟩
        rw [hfound]
        exact run_pure.mpr ⟨rfl, rfl⟩
      · refine ⟨s, s, ⟨rfl, rfl⟩, ?_⟩
        rw [hnone first rfl]
        simp only [run_bind, run_pure, soleRoot_eq_ok]
        exact ⟨element, s, ⟨hroots, rfl⟩, rfl, rfl⟩

theorem start_run {element : Element} (hvalid : s.Valid)
    (h : (start context path).run s = .ok ((element, rest), s')) :
    element ∈ s.elements ∧ s = s' := by
  obtain ⟨rfl, ⟨first, -, hfound⟩ | ⟨-, hroots, -⟩⟩ := start_eq_ok.mp h
  · exact ⟨hvalid.aliases _ (Keyed.lookup_mem hfound), rfl⟩
  · exact ⟨s.roots_subset (hroots ▸ mem_singleton.mpr rfl), rfl⟩

/-- The names that are left are the end of the path. -/
theorem start_suffix {element : Element}
    (h : (start context path).run s = .ok ((element, rest), s')) : rest <:+ path := by
  obtain ⟨-, ⟨first, rfl, -⟩ | ⟨rfl, -⟩⟩ := start_eq_ok.mp h
  · exact suffix_cons ..
  · exact suffix_refl _

/-- One more name of a path, in the scope `s`. Only a name behind a reference makes
a join, unless it is that of the identifier. -/
inductive Stepped (context : Context) (path : List String) (name : String) (s : Scope) :
    Meaning → Meaning → Scope → Prop where
  | property {element meaning'} : property element name = .ok meaning' →
    Stepped context path name s (.entity element) meaning' s
  | identifier {owner association targetName column target} :
    context.model.entity targetName = .ok target → name = target.identifier.name →
    Stepped context path name s (.reference owner association targetName column)
      (.column owner column target.identifier.type) s
  | joined {owner association targetName column target element meaning' s'} :
    context.model.entity targetName = .ok target → name ≠ target.identifier.name →
    (implicitJoin context owner association path).run s = .ok (element, s') →
    property element name = .ok meaning' →
    Stepped context path name s (.reference owner association targetName column) meaning' s'
  | field {owner component fields field} : fields.find? (·.name == name) = some field →
    Stepped context path name s (.component owner component fields)
      (.column owner field.column field.type) s

theorem step_eq_ok {meaning' : Meaning} :
    (step context path meaning name).run s = .ok (meaning', s')
      ↔ Stepped context path name s meaning meaning' s' := by
  constructor
  · intro h
    unfold step at h
    cases meaning with
    | entity element =>
      obtain ⟨hproperty, rfl⟩ := run_ofMapping.mp h
      exact .property hproperty
    | reference owner association targetName column =>
      simp only [run_bind, run_ofMapping] at h
      obtain ⟨target, _, ⟨htarget, rfl⟩, h⟩ := h
      split at h
      · rename_i hname
        obtain ⟨rfl, rfl⟩ := run_pure.mp h
        exact .identifier htarget hname
      · rename_i hname
        simp only [run_bind, run_ofMapping] at h
        obtain ⟨joined, _, hjoin, hproperty, rfl⟩ := h
        exact .joined htarget hname hjoin hproperty
    | component owner component fields =>
      simp only at h
      split at h
      · rename_i hfield
        obtain ⟨rfl, rfl⟩ := run_pure.mp h
        exact .field hfield
      · cases (run_ofMapping.mp h).1
    | collection owner association | column owner column type => exact (not_run_misuse h).elim
  · intro h
    unfold step
    cases h with
    | property hproperty => exact run_ofMapping.mpr ⟨hproperty, rfl⟩
    | identifier htarget hname =>
      refine run_bind.mpr ⟨_, s, run_ofMapping.mpr ⟨htarget, rfl⟩, ?_⟩
      rw [if_pos hname]
      exact run_pure.mpr ⟨rfl, rfl⟩
    | joined htarget hname hjoin hproperty =>
      refine run_bind.mpr ⟨_, s, run_ofMapping.mpr ⟨htarget, rfl⟩, ?_⟩
      rw [if_neg hname]
      exact run_bind.mpr ⟨_, _, hjoin, run_ofMapping.mpr ⟨hproperty, rfl⟩⟩
    | field hfield =>
      simp only [hfield]
      exact run_pure.mpr ⟨rfl, rfl⟩

theorem step_run {meaning' : Meaning} (hvalid : s.Valid) (hmem : meaning.element ∈ s.elements)
    (h : (step context path meaning name).run s = .ok (meaning', s')) :
    Joins context s s' ∧ meaning'.element ∈ s'.elements := by
  cases step_eq_ok.mp h with
  | property hproperty => exact ⟨.refl, property_element hproperty ▸ hmem⟩
  | identifier | field => exact ⟨.refl, hmem⟩
  | joined _ _ hjoin hproperty =>
    obtain ⟨hjoins, hjoined⟩ := implicitJoin_run hvalid hmem hjoin
    exact ⟨hjoins, property_element hproperty ▸ hjoined⟩

/-- What a path denotes belongs to a table of the scope that is left. -/
theorem resolve_run (hvalid : s.Valid) (h : (resolve context path).run s = .ok (meaning, s')) :
    Joins context s s' ∧ meaning.element ∈ s'.elements := by
  obtain ⟨⟨element, rest⟩, _, hstart, hrest⟩ := run_bind.mp h
  obtain ⟨hmem, rfl⟩ := start_run hvalid hstart
  -- Along the path, the scope has grown and holds the table reached so far.
  refine foldlM_invariant
    (motive := fun _ meaning s₁ => Joins context s s₁ ∧ meaning.element ∈ s₁.elements)
    (fun _ hreached hstep => ?_) ⟨.refl, hmem⟩ hrest
  obtain ⟨hjoins, hmem₁⟩ := hreached
  obtain ⟨hjoins', hmem'⟩ := step_run (hvalid.joins hjoins) hmem₁ hstep
  exact ⟨hjoins.trans hjoins', hmem'⟩

theorem step_declared {names : List String} {meaning' : Meaning}
    (h : (step context path meaning name).run s = .ok (meaning', s')) :
    meaning'.Declared (names ++ [name]) := by
  cases step_eq_ok.mp h with
  | property hproperty | joined _ _ _ hproperty => exact property_declared hproperty names
  | identifier | field => trivial

theorem resolve_declared (h : (resolve context path).run s = .ok (meaning, s')) :
    meaning.Declared path := by
  obtain ⟨⟨element, rest⟩, _, hstart, hrest⟩ := run_bind.mp h
  have hdeclared : meaning.Declared rest :=
    foldlM_invariant (motive := fun names meaning _ => meaning.Declared names)
      (fun _ _ hstep => step_declared hstep) trivial hrest
  obtain ⟨before, rfl⟩ := start_suffix hstart
  have hlast : ∀ {name : String}, rest.getLast? = some name →
      (before ++ rest).getLast? = some name := by
    intro name hname
    rw [getLast?_append, hname]
    rfl
  cases meaning with
  | collection owner association =>
    obtain ⟨name, property, hname, hproperty⟩ := hdeclared
    exact ⟨name, property, hlast hname, hproperty⟩
  | reference owner association target column =>
    obtain ⟨hassociation, name, property, hname, hproperty⟩ := hdeclared
    exact ⟨hlast hassociation, name, property, hlast hname, hproperty⟩
  | _ => trivial

/-- The owner of a join path is a table of the scope that is left. -/
theorem joinOwner_run {property : String} (hvalid : s.Valid)
    (h : (joinOwner context path).run s = .ok ((owner, property), s')) :
    Joins context s s' ∧ owner ∈ s'.elements := by
  unfold joinOwner at h
  split at h
  · exact (not_run_misuse h).elim
  · simp only [run_bind, run_pure] at h
    obtain ⟨_, _, hroot, heq, rfl⟩ := h
    obtain ⟨rfl, rfl⟩ := Prod.mk.inj heq
    obtain ⟨hmem, rfl⟩ := soleRoot_run hroot
    exact ⟨.refl, hmem⟩
  · obtain ⟨meaning, s₁, hresolve, h⟩ := run_bind.mp h
    obtain ⟨hjoins, hmem⟩ := resolve_run hvalid hresolve
    cases meaning with
    | entity element =>
      obtain ⟨heq, rfl⟩ := run_pure.mp h
      obtain ⟨rfl, rfl⟩ := Prod.mk.inj heq
      exact ⟨hjoins, hmem⟩
    | reference referenceOwner association target column =>
      simp only [run_bind, run_pure] at h
      obtain ⟨_, _, hjoin, heq, rfl⟩ := h
      obtain ⟨rfl, rfl⟩ := Prod.mk.inj heq
      obtain ⟨hjoins', hmem'⟩ := implicitJoin_run (hvalid.joins hjoins) hmem hjoin
      exact ⟨hjoins.trans hjoins', hmem'⟩
    | column _ _ _ | component _ _ _ | collection _ _ => exact (not_run_misuse h).elim

end Scope

end EntityQuery
