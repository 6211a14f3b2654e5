import EntityQuery.Proofs.Scope.Visited

/-!
# Paths resolved again

A path that has been resolved is resolved to the same meaning in every scope that
comes later, and changes nothing there (`resolve_again`): where it starts does not
change, and the joins it needs are remembered. So much is kept by a scope that
extends another (`Scope.Extends`).

How many tables a path brings in can be read off the model. Of the names of a path
some go along a many-to-one association (`Metamodel.manyToOneSteps`). Such a step
needs a join when it is followed by a name other than the identifier of its target,
and no other step does. The tables of the scope and the joins that are still needed
are no more after a step than before it (`step_pending`), hence the bound for whole
paths (`resolve_length_le`).
-/

namespace EntityQuery

open List

namespace Scope

open Scoped

variable {owner element : Element} {path : List String} {meaning reached : Meaning} {name : String}

variable {context : Context} {s s' t u : Scope}

/-! ## Scopes that extend others -/

/-- Names start at the same tables in both scopes, and the second remembers the implicit
joins of the first. -/
structure Extends (s t : Scope) : Prop where
  aliases_eq : t.aliases = s.aliases
  roots_eq : t.roots = s.roots
  bulk_eq : t.bulk = s.bulk
  lookup : ∀ {key : Nat × String} {element : Element},
    s.implicit.lookup key = some element → t.implicit.lookup key = some element

namespace Extends

theorem refl (s : Scope) : Extends s s :=
  ⟨rfl, rfl, rfl, id⟩

theorem trans (h : Extends s t) (h' : Extends t u) : Extends s u :=
  ⟨h'.aliases_eq.trans h.aliases_eq, h'.roots_eq.trans h.roots_eq, h'.bulk_eq.trans h.bulk_eq,
    fun hlookup => h'.lookup (h.lookup hlookup)⟩

/-- A join comes in at the end, and is remembered after the others. -/
theorem implicitJoin {property : String}
    (h : (Scope.implicitJoin context owner property path).run s = .ok (element, s')) :
    Extends s s' := by
  obtain ⟨-, ⟨-, rfl⟩ | ⟨-, s₁, hjoin, rfl⟩⟩ := implicitJoin_eq_ok.mp h
  · exact .refl _
  · obtain ⟨origin, hentries, himplicit, hbulk, -⟩ := addJoin_entry hjoin
    have haliases : s₁.aliases = s.aliases := addJoin_aliases hjoin
    refine ⟨haliases, ?_, hbulk, fun hlookup => ?_⟩
    · have hroots : (s₁.entries.filter (·.origin.isNone)) = s.entries.filter (·.origin.isNone) := by
        rw [hentries, filter_append]
        exact append_nil _
      exact congrArg (List.map (·.element)) hroots
    · rw [remember, lookup_append, himplicit, hlookup]
      rfl

theorem refers (hstep : Refers context s s') : Extends s s' := by
  cases hstep with
  | implicitJoin howner hrun => exact implicitJoin hrun
  | addTable | countAlias => exact ⟨rfl, rfl, rfl, id⟩

theorem later (hlater : Later context s s') : Extends s s' := by
  induction hlater with
  | refl => exact .refl _
  | tail _ hstep ih => exact ih.trans (refers hstep)

theorem step (h : (Scope.step context path meaning name).run s = .ok (reached, s')) :
    Extends s s' := by
  cases step_eq_ok.mp h with
  | property | identifier | field => exact .refl _
  | joined _ _ hjoin => exact implicitJoin hjoin

theorem steps {names : List String}
    (h : (names.foldlM (Scope.step context path) meaning).run s = .ok (reached, s')) :
    Extends s s' :=
  foldlM_invariant (motive := fun _ _ s₁ => Extends s s₁)
    (fun _ hdone hstep => hdone.trans (step hstep)) (.refl s) h

end Extends

/-! ## Once more -/

/-- An implicit join that has been made is found again. -/
theorem implicitJoin_again {property : String}
    (h : (implicitJoin context owner property path).run s = .ok (element, s'))
    (hextends : Extends s' t) :
    (implicitJoin context owner property path).run t = .ok (element, t) := by
  have hbulk : t.bulk = false := by
    rw [hextends.bulk_eq, (Extends.implicitJoin h).bulk_eq]
    exact (implicitJoin_eq_ok.mp h).1
  refine implicitJoin_eq_ok.mpr ⟨hbulk, .inl ⟨hextends.lookup ?_, rfl⟩⟩
  obtain ⟨-, ⟨hfound, rfl⟩ | ⟨hnone, s₁, hjoin, rfl⟩⟩ := implicitJoin_eq_ok.mp h
  · exact hfound
  · obtain ⟨-, -, himplicit, -⟩ := addJoin_entry hjoin
    rw [remember, lookup_append, himplicit, hnone]
    simp

theorem step_again (h : (step context path meaning name).run s = .ok (reached, s'))
    (hextends : Extends s' t) : (step context path meaning name).run t = .ok (reached, t) := by
  refine step_eq_ok.mpr ?_
  cases step_eq_ok.mp h with
  | property hproperty => exact .property hproperty
  | identifier htarget hname => exact .identifier htarget hname
  | joined htarget hname hjoin hproperty =>
    exact .joined htarget hname (implicitJoin_again hjoin hextends) hproperty
  | field hfield => exact .field hfield

theorem steps_again : ∀ {names : List String} {meaning reached : Meaning}
    {s : Scope}, (names.foldlM (step context path) meaning).run s = .ok (reached, s') →
    Extends s' t → (names.foldlM (step context path) meaning).run t = .ok (reached, t)
  | [], _, _, _, h, _ => by
    rw [foldlM_nil] at h ⊢
    exact run_pure.mpr ⟨(run_pure.mp h).1, rfl⟩
  | name :: rest, _, _, _, h, hextends => by
    rw [foldlM_cons] at h ⊢
    obtain ⟨next, s₁, hstep, hrest⟩ := run_bind.mp h
    have hnext := step_again hstep ((Extends.steps hrest).trans hextends)
    exact run_bind.mpr ⟨next, t, hnext, steps_again hrest hextends⟩

theorem start_again {rest : List String}
    (h : (start context path).run s = .ok ((element, rest), s')) (hextends : Extends s t) :
    (start context path).run t = .ok ((element, rest), t) := by
  rw [start_eq_ok] at h ⊢
  rw [hextends.aliases_eq, hextends.roots_eq]
  exact ⟨rfl, h.2⟩

/-- A path that has been resolved is resolved to the same again, and nothing changes. -/
theorem resolve_again (h : (resolve context path).run s = .ok (meaning, s'))
    (hextends : Extends s' t) : (resolve context path).run t = .ok (meaning, t) := by
  obtain ⟨⟨element, rest⟩, s₁, hstart, hrest⟩ := run_bind.mp h
  obtain ⟨rfl, -⟩ := start_eq_ok.mp hstart
  have hstart' := start_again hstart ((Extends.steps hrest).trans hextends)
  exact run_bind.mpr ⟨_, t, hstart', steps_again hrest hextends⟩

/-- Resolving a path is asking for implicit joins. -/
theorem resolve_later (hs : Grown context s s)
    (h : (resolve context path).run s = .ok (meaning, s')) : Later context s s' :=
  (resolve_run hs.valid h).1.later

end Scope

/-! ## The steps that need joins -/

/-- A step of a path along a many-to-one association. -/
structure ManyToOneStep where
  property : String
  /-- A name follows, and it is not that of the target's identifier. -/
  dereferenced : Bool

/-- The entity that a many-to-one association leads to. -/
def PropertyKind.reference? : PropertyKind → Option String
  | .association (.manyToOne target _) => some target
  | _ => none

/-- The entity that a name leads to if it is a many-to-one association of the entity. -/
def Entity.reference? (entity : Entity) (name : String) : Option String :=
  if name = entity.identifier.name then none
  else (entity.property? name).bind (·.kind.reference?)

namespace Metamodel

/-- A step to the entity of a name, and the steps after it from there. -/
def stepsVia (model : Metamodel) (property targetName : String) (rest : List String)
    (further : Entity → List ManyToOneStep) : List ManyToOneStep :=
  (model.entity targetName).toOption.elim [⟨property, false⟩] fun target =>
    ⟨property, rest.head?.any (· != target.identifier.name)⟩ :: further target

/-- The steps along many-to-one associations of a path that starts at an entity. -/
def manyToOneSteps (model : Metamodel) : List String → Entity → List ManyToOneStep
  | [], _ => []
  | name :: rest, entity =>
    (entity.reference? name).elim [] fun targetName =>
      model.stepsVia name targetName rest (model.manyToOneSteps rest)

end Metamodel

/-- The steps that are left of a path, given what the names before denote. A reference is
a step whose join has not been needed so far. -/
def Meaning.pending (model : Metamodel) (names : List String) : Meaning → List ManyToOneStep
  | .entity element => model.manyToOneSteps names element.entity
  | .reference _ property targetName _ =>
    model.stepsVia property targetName names (model.manyToOneSteps names)
  | _ => []

namespace Scope

open Scoped

variable {context : Context} {s s' : Scope}

theorem property_pending {model : Metamodel} (h : property owner name = .ok meaning)
    (rest : List String) :
    meaning.pending model rest = model.manyToOneSteps (name :: rest) owner.entity := by
  simp only [property] at h
  simp only [Metamodel.manyToOneSteps, Entity.reference?]
  split at h
  · rename_i hname
    obtain rfl := Except.ok.inj h
    rw [if_pos hname]
    rfl
  · rename_i hname
    rw [if_neg hname]
    cases hproperty : owner.entity.property? name with
    | none =>
      rw [Entity.property, hproperty] at h
      cases h
    | some found =>
      rw [Entity.property, hproperty] at h
      simp only at h
      simp only [Option.bind_some]
      cases hkind : found.kind with
      | basic column type | component component fields =>
        rw [hkind] at h
        obtain rfl := Except.ok.inj h
        rfl
      | association association =>
        rw [hkind] at h
        cases association with
        | manyToOne target column | oneToMany target keyColumn
        | manyToMany target table keyColumn elementColumn =>
          obtain rfl := Except.ok.inj h
          rfl

/-- The joins that steps need. -/
abbrev joinsNeeded (steps : List ManyToOneStep) : Nat :=
  steps.countP (·.dereferenced)

theorem implicitJoin_length_le {property : String}
    (h : (implicitJoin context owner property path).run s = .ok (element, s')) :
    s'.entries.length ≤ s.entries.length + 1 := by
  obtain ⟨-, ⟨-, rfl⟩ | ⟨-, s₁, hjoin, rfl⟩⟩ := implicitJoin_eq_ok.mp h
  · exact Nat.le_succ _
  · obtain ⟨origin, hentries, -⟩ := addJoin_entry hjoin
    have hlength : s₁.entries.length = s.entries.length + 1 := by
      rw [hentries, length_append, length_singleton]
    exact hlength.le

/-- The tables of the scope and the joins that are still needed are no more after a name
than before it. -/
theorem step_pending {names : List String} (hs : Grown context s s)
    (hmem : meaning.element ∈ s.elements) (hdeclared : meaning.Declared names)
    (h : (step context path meaning name).run s = .ok (reached, s')) (rest : List String) :
    s'.entries.length + joinsNeeded (reached.pending context.model rest)
      ≤ s.entries.length + joinsNeeded (meaning.pending context.model (name :: rest)) := by
  cases step_eq_ok.mp h with
  | property hproperty =>
    rw [property_pending hproperty]
    exact Nat.le_refl _
  | identifier => exact Nat.add_le_add_left (Nat.zero_le _) _
  | @joined owner association targetName column target joined _ _ htarget hname hjoin hproperty =>
    -- The join leads to the target, so the names that follow mean the same from there.
    have hentity : joined.entity = target := by
      obtain ⟨hlast, _, found, hlast', hfound, hkind⟩ := hdeclared
      obtain rfl := Option.some.inj (hlast.symm.trans hlast')
      have hreaches : owner.entity.Reaches context.model association target :=
        ⟨found, _, hfound, hkind, htarget⟩
      exact (implicitJoin_reaches hs.valid hs.remembers hmem hjoin).unique hreaches
    have hpending : joinsNeeded (Meaning.pending context.model (name :: rest)
        (.reference owner association targetName column))
          = joinsNeeded (reached.pending context.model rest) + 1 := by
      rw [property_pending hproperty, hentity]
      simp only [Meaning.pending, Metamodel.stepsVia, htarget, Except.toOption, Option.elim]
      exact countP_cons_of_pos (by simpa using hname)
    have hlength := implicitJoin_length_le hjoin
    omega
  | field => exact Nat.le_refl _

/-- A whole path brings in no more tables than its steps need joins. -/
theorem steps_length_le : ∀ {rest names : List String}
    {meaning reached : Meaning} {s : Scope}, Grown context s s → meaning.element ∈ s.elements →
    meaning.Declared names →
    (rest.foldlM (step context path) meaning).run s = .ok (reached, s') →
    s'.entries.length ≤ s.entries.length + joinsNeeded (meaning.pending context.model rest)
  | [], _, _, _, _, _, _, _, h => by
    rw [foldlM_nil] at h
    obtain ⟨-, rfl⟩ := run_pure.mp h
    exact Nat.le_add_right ..
  | name :: rest, names, meaning, _, s, hs, hmem, hdeclared, h => by
    rw [foldlM_cons] at h
    obtain ⟨next, s₁, hstep, hrest⟩ := run_bind.mp h
    obtain ⟨hjoins, hmem'⟩ := step_run hs.valid hmem hstep
    have hdeclared' : next.Declared (names ++ [name]) := step_declared hstep
    calc s'.entries.length
      _ ≤ s₁.entries.length + joinsNeeded (next.pending context.model rest) :=
        steps_length_le (hs.joins hjoins).self hmem' hdeclared' hrest
      _ ≤ s.entries.length + joinsNeeded (meaning.pending context.model (name :: rest)) :=
        step_pending hs hmem hdeclared hstep rest

/-- A path brings in no more tables than its steps need joins. -/
theorem resolve_length_le (hs : Grown context s s)
    (h : (resolve context path).run s = .ok (meaning, s')) :
    ∃ element rest, (start context path).run s = .ok ((element, rest), s)
      ∧ s'.entries.length ≤ s.entries.length
        + joinsNeeded (context.model.manyToOneSteps rest element.entity) := by
  obtain ⟨⟨element, rest⟩, _, hstart, hrest⟩ := run_bind.mp h
  obtain ⟨hmem, rfl⟩ := start_run hs.valid hstart
  have hentity : (Meaning.entity element).element ∈ s.elements := hmem
  have hdeclared : (Meaning.entity element).Declared [] := trivial
  exact ⟨element, rest, hstart, steps_length_le hs hentity hdeclared hrest⟩

end Scope

end EntityQuery
