import EntityQuery.Proofs.Stages

/-!
# Comparisons with the sides exchanged

The two sides of a comparison type each other, but not alike. The left side is typed
first and its type is the hint for the right side; only a parameter that is the whole left
side waits for the right one. Hints reach the parameters inside parentheses, signs and
calculations, so such an expression can stand on the right where it cannot stand on the
left.

All that a hint does is to help (`Hinting`, `ofExpr_hinting`): it changes nothing for an
expression that can be typed without it, and an expression that needs it lacks the type of
a parameter otherwise. And an expression can be typed in a scope if and only if it can be
in any later one. Hence the law (`compare_exchanged`): when a comparison can be typed, so
can the exchanged one, with the same types for all parameters, unless the right side
cannot be typed alone; then a parameter in it has no type.
-/

namespace EntityQuery

namespace Typed

open Scoped
open Query (Expr)
open Sql (Atom)

variable {expr left right : Expr} {hint : Option SemanticType} {typed : Typed}

variable {α β : Type} {context : Context} {s s' : Scope} {sources : List ParameterSource}

/-! ## Hints -/

/-- Hints only help. What can be run without a hint is run in the same way with any, and
what can be run with one, but not without, fails for want of the type of one of the
parameters. -/
structure Hinting (sources : List ParameterSource) (f : Option SemanticType → Scoped α) : Prop where
  of_none : ∀ {s s' : Scope} {a : α}, (f none).run s = .ok (a, s') →
    ∀ hint, (f hint).run s = .ok (a, s')
  none_of : ∀ {s s' : Scope} {a : α} {hint : Option SemanticType},
    (f hint).run s = .ok (a, s') → (f none).run s = .ok (a, s')
      ∨ ∃ source ∈ sources, (f none).run s = .error (.query (.undetermined source.text))

namespace Hinting

variable {f : Option SemanticType → Scoped α}

theorem of_forall_eq (h : ∀ hint, f hint = f none) :
    Hinting sources f where
  of_none hrun hint := h hint ▸ hrun
  none_of {_ _ _ hint} hrun := .inl (h hint ▸ hrun)

theorem of_eq {f g : Option SemanticType → Scoped α} (h : ∀ hint, f hint = g hint)
    (hg : Hinting sources g) : Hinting sources f :=
  funext h ▸ hg

theorem slot (context : Context) {source : ParameterSource} (hsource : source ∈ sources) :
    Hinting sources (Typed.slot context source) where
  of_none hrun := (not_run_fail hrun).elim
  none_of _ := .inr ⟨source, hsource, rfl⟩

theorem map (h : Hinting sources f) (g : α → β) :
    Hinting sources fun hint => f hint >>= fun a => Pure.pure (g a) where
  of_none hrun hint := by
    obtain ⟨a, s₁, hfirst, hrest⟩ := run_bind.mp hrun
    exact run_bind.mpr ⟨a, s₁, h.of_none hfirst hint, hrest⟩
  none_of hrun := by
    obtain ⟨a, s₁, hfirst, hrest⟩ := run_bind.mp hrun
    rcases h.none_of hfirst with hnone | ⟨source, hsource, herror⟩
    · exact .inl (run_bind.mpr ⟨a, s₁, hnone, hrest⟩)
    · exact .inr ⟨source, hsource, run_bind_of_error herror⟩

/-- The second of two steps is hinted at by the type that the first has found, or else by
the hint for both. -/
theorem both {f g : Option SemanticType → Scoped Typed} (hf : Hinting sources f)
    (hg : Hinting sources g) (pair : Typed → Typed → β) :
    Hinting sources fun hint => f hint >>= fun first =>
      g (first.type.or hint) >>= fun second => Pure.pure (pair first second) where
  of_none hrun hint := by
    obtain ⟨first, s₁, hfirst, hrun⟩ := run_bind.mp hrun
    obtain ⟨second, s₂, hsecond, hrest⟩ := run_bind.mp hrun
    refine run_bind.mpr ⟨first, s₁, hf.of_none hfirst hint, run_bind.mpr ⟨second, s₂, ?_, hrest⟩⟩
    cases htype : first.type with rw [htype] at hsecond
    | some type => exact hsecond
    | none => exact hg.of_none hsecond _
  none_of {_ _ _ hint} hrun := by
    obtain ⟨first, s₁, hfirst, hrun⟩ := run_bind.mp hrun
    obtain ⟨second, s₂, hsecond, hrest⟩ := run_bind.mp hrun
    rcases hf.none_of hfirst with hfirst' | ⟨source, hsource, herror⟩
    · rw [run_bind_of_ok hfirst']
      have hsecond' : (g (first.type.or none)).run s₁ = .ok (second, s₂)
          ∨ ∃ source ∈ sources,
            (g (first.type.or none)).run s₁ = .error (.query (.undetermined source.text)) := by
        cases htype : first.type with rw [htype] at hsecond
        | some type => exact .inl hsecond
        | none => exact hg.none_of hsecond
      rcases hsecond' with hsecond' | ⟨source, hsource, herror⟩
      · exact .inl (run_bind.mpr ⟨second, s₂, hsecond', hrest⟩)
      · exact .inr ⟨source, hsource, run_bind_of_error herror⟩
    · exact .inr ⟨source, hsource, run_bind_of_error herror⟩

theorem operands {left right : Option SemanticType → Scoped Typed} (hleft : Hinting sources left)
    (hright : Hinting sources right) (leftIsParameter rightIsParameter : Bool) :
    Hinting sources (Typed.operands leftIsParameter rightIsParameter left right) := by
  unfold Typed.operands
  split
  · exact hright.both hleft fun second first => (first, second)
  · exact hleft.both hright fun first second => (first, second)

theorem mono {more : List ParameterSource} (h : Hinting sources f) (hsubset : sources ⊆ more) :
    Hinting more f where
  of_none := h.of_none
  none_of hrun := (h.none_of hrun).imp_right fun ⟨source, hsource, herror⟩ =>
    ⟨source, hsubset hsource, herror⟩

end Hinting

theorem parameters_subset_of_mem_children {child : Expr} (h : child ∈ expr.children) :
    child.parameters ⊆ expr.parameters := by
  rw [expr.parameters_eq]
  exact List.subset_append_of_subset_right _ fun source hsource =>
    List.mem_flatMap.mpr ⟨child, h, hsource⟩

theorem ofExpr_hinting (context : Context) : ∀ expr : Expr,
    Hinting expr.parameters (ofExpr context expr)
  | .named _ | .ordinal _ => .of_eq (fun hint => by simp only [ofExpr]) (.slot context (.head _))
  | .nested inner => .of_eq (fun hint => by simp only [ofExpr])
    (((ofExpr_hinting context inner).mono (parameters_subset_of_mem_children (.head _))).map
      fun typed => ⟨.group typed.term, typed.type⟩)
  | .negate inner => .of_eq (fun hint => by simp only [ofExpr])
    (((ofExpr_hinting context inner).mono (parameters_subset_of_mem_children (.head _))).map
      fun typed => ⟨.negate typed.term, typed.type⟩)
  | .arithmetic op left right => by
    by_cases hop : op = .concat
    · subst hop
      exact .of_forall_eq fun hint => by simp only [ofExpr]
    · have hleft : Hinting (Expr.arithmetic op left right).parameters _ :=
        (ofExpr_hinting context left).mono (parameters_subset_of_mem_children (.head _))
      have hright : Hinting (Expr.arithmetic op left right).parameters _ :=
        (ofExpr_hinting context right).mono (parameters_subset_of_mem_children (.tail _ (.head _)))
      exact .of_eq (fun hint => by simp only [ofExpr])
        ((hleft.operands hright left.isParameter right.isParameter).map fun pair =>
          ⟨.arithmetic op pair.1.term pair.2.term, resultType pair.1.type pair.2.type⟩)
  | .literal _ | .legacy | .path _ | .not _ | .logical .. | .compare .. | .like .. | .inList ..
  | .between .. | .isEmpty .. | .call .. | .aggregate _ _ none | .aggregate _ _ (some _) =>
    .of_forall_eq fun hint => by simp only [ofExpr]
  | .isNull subject _ => .of_forall_eq fun hint => by cases subject <;> simp only [ofExpr]

/-! ## Typing in later scopes -/

/-- What can be typed in a scope can be typed alike in any scope that has grown from the
same one. -/
theorem ofExpr_regrown {base t : Scope} (hs : Scope.Grown context base s)
    (ht : Scope.Grown context base t) (h : (ofExpr context expr hint).run s = .ok (typed, s')) :
    ∃ other t', (ofExpr context expr hint).run t = .ok (other, t') ∧ typed.Alike other
      ∧ Scope.Grown context base s' ∧ Scope.Grown context base t' :=
  ofExpr_mirrors Scope.Grown.kinship expr hint ⟨hs, ht⟩ h

/-! ## Comparisons -/

abbrev slotsOf (term : Sql.Term) : List Sql.Slot :=
  Atom.slots term.atoms

/-- A comparison is typed by typing its sides, each the hint for the other. -/
theorem compare_run {op : Query.CompareOp} :
    (ofExpr context (.compare op left right) hint).run s = .ok (typed, s') ↔
      ∃ first second, (operands left.isParameter right.isParameter (ofExpr context left)
          (ofExpr context right) none).run s = .ok ((first, second), s')
        ∧ typed = boolean (.compare op first.term second.term) := by
  simp only [ofExpr, run_bind, run_pure]
  constructor
  · rintro ⟨⟨first, second⟩, _, hrun, rfl, rfl⟩
    exact ⟨first, second, hrun, rfl⟩
  · rintro ⟨first, second, hrun, rfl⟩
    exact ⟨(first, second), s', hrun, rfl, rfl⟩

/-- The sides of a comparison are typed from the left, unless there is a parameter on the
left alone. -/
theorem operands_run {leftIsParameter rightIsParameter : Bool}
    {left right : Option SemanticType → Scoped Typed} {first second : Typed} :
    (operands leftIsParameter rightIsParameter left right none).run s = .ok ((first, second), s') ↔
      if leftIsParameter && !rightIsParameter then
        ∃ s₁, (right none).run s = .ok (second, s₁) ∧ (left second.type).run s₁ = .ok (first, s')
      else
        ∃ s₁, (left none).run s = .ok (first, s₁) ∧ (right first.type).run s₁ = .ok (second, s') := by
  unfold operands
  -- Both orders go alike: one side alone, and then the other with its type.
  split <;>
    · simp only [run_bind, run_pure, Option.or_none, Prod.mk.injEq]
      constructor
      · rintro ⟨_, s₁, halone, _, _, hhinted, ⟨rfl, rfl⟩, rfl⟩
        exact ⟨s₁, halone, hhinted⟩
      · rintro ⟨s₁, halone, hhinted⟩
        exact ⟨_, s₁, halone, _, s', hhinted, ⟨rfl, rfl⟩, rfl⟩

theorem compare_run_error {op : Query.CompareOp} {fault : Error}
    (hleft : left.isParameter = false) (h : (ofExpr context left none).run s = .error fault) :
    (ofExpr context (.compare op left right) hint).run s = .error fault := by
  simp only [ofExpr, operands, hleft, Bool.false_and, Bool.false_eq_true, if_false]
  exact run_bind_of_error (run_bind_of_error h)

theorem not_run_parameter (hparameter : expr.isParameter) :
    (ofExpr context expr none).run s ≠ .ok (typed, s') := by
  cases expr with
  | named name | ordinal position | legacy =>
    simp only [ofExpr]
    exact not_run_fail
  | _ => cases hparameter

/-- Two expressions that can be typed one after the other can be typed in the other order,
with the same types, unless the second needs the first for the type of a parameter. -/
theorem operands_exchanged {first second : Typed} {s₁ : Scope} (hs : Scope.Grown context s s)
    (hfirst : (ofExpr context left none).run s = .ok (first, s₁))
    (hsecond : (ofExpr context right first.type).run s₁ = .ok (second, s')) :
    (∃ second' t₁ first' t, (ofExpr context right none).run s = .ok (second', t₁)
        ∧ (ofExpr context left second'.type).run t₁ = .ok (first', t)
        ∧ first.Alike first' ∧ second.Alike second')
      ∨ ∃ source ∈ right.parameters,
        (ofExpr context right none).run s = .error (.query (.undetermined source.text)) := by
  obtain ⟨_, _, -, -, hs₁, -⟩ := ofExpr_regrown hs hs hfirst
  obtain ⟨second', t₁, hsecond', halike, -, ht₁⟩ := ofExpr_regrown hs₁ hs hsecond
  rcases (ofExpr_hinting context right).none_of hsecond' with hnone | herror
  · obtain ⟨first', t, hfirst', halike', -⟩ := ofExpr_regrown hs ht₁ hfirst
    exact .inl ⟨second', t₁, first', t, hnone, (ofExpr_hinting context left).of_none hfirst' _,
      halike', halike⟩
  · exact .inr herror

/-- The law of exchanging the sides of a comparison. -/
theorem compare_exchanged {op : Query.CompareOp} {left right : Expr} {hint : Option SemanticType}
    {typed : Typed} (hs : Scope.Visited context s)
    (h : (ofExpr context (.compare op left right) hint).run s = .ok (typed, s')) :
    ∃ first second, typed = boolean (.compare op first second)
      ∧ (((right.isParameter = true
            ∨ ∃ alone t, (ofExpr context right none).run s = .ok (alone, t))
          ∧ ∃ first' second' t, (ofExpr context (.compare op right left) hint).run s
              = .ok (boolean (.compare op second' first'), t)
            ∧ slotsOf first' = slotsOf first ∧ slotsOf second' = slotsOf second)
        ∨ (right.isParameter = false
          ∧ ∃ source ∈ right.parameters,
            (ofExpr context right none).run s = .error (.query (.undetermined source.text))
            ∧ (ofExpr context (.compare op right left) hint).run s
              = .error (.query (.undetermined source.text)))) := by
  obtain ⟨first, second, hrun, rfl⟩ := compare_run.mp h
  refine ⟨first.term, second.term, rfl, ?_⟩
  rw [operands_run] at hrun
  cases hleft : left.isParameter with
  | true =>
    cases hright : right.isParameter with
    | true =>
      rw [hleft, hright] at hrun
      obtain ⟨s₁, hfirst, -⟩ := hrun
      exact (not_run_parameter hleft hfirst).elim
    | false =>
      -- The same two runs in the same order.
      rw [hleft, hright] at hrun
      obtain ⟨s₁, hsecond, hfirst⟩ := hrun
      refine .inl ⟨.inr ⟨second, s₁, hsecond⟩, first.term, second.term, s', ?_, rfl, rfl⟩
      refine compare_run.mpr ⟨second, first, operands_run.mpr ?_, rfl⟩
      rw [hleft, hright]
      exact ⟨s₁, hsecond, hfirst⟩
  | false =>
    rw [hleft] at hrun
    obtain ⟨s₁, hfirst, hsecond⟩ := hrun
    cases hright : right.isParameter with
    | true =>
      refine .inl ⟨.inl rfl, first.term, second.term, s', ?_, rfl, rfl⟩
      refine compare_run.mpr ⟨second, first, operands_run.mpr ?_, rfl⟩
      rw [hleft, hright]
      exact ⟨s₁, hfirst, hsecond⟩
    | false =>
      rcases operands_exchanged hs.grown hfirst hsecond with
        ⟨second', t₁, first', t, hsecond', hfirst', halike, halike'⟩ | ⟨source, hsource, herror⟩
      · refine .inl ⟨.inr ⟨second', t₁, hsecond'⟩, first'.term, second'.term, t, ?_,
          Sql.Term.slots_eq_of_bare halike.rename_eq,
          Sql.Term.slots_eq_of_bare halike'.rename_eq⟩
        refine compare_run.mpr ⟨second', first', operands_run.mpr ?_, rfl⟩
        rw [hleft, hright]
        exact ⟨t₁, hsecond', hfirst'⟩
      · exact .inr ⟨rfl, source, hsource, herror, compare_run_error hright herror⟩

end Typed

namespace Sample

def personScope : Scope :=
  ({} : Scope).withRoot person (some "p")

def personContext : Context :=
  compiler.context "from Person p"

theorem visited_personScope : personScope.Visited personContext := by
  obtain ⟨⟨root, s⟩, hroot⟩ := exists_ok_of_isSome
    (x := (Scope.addRoot personContext "Person" (some "p")).run {}) (by decide +kernel)
  obtain ⟨entity, hentity, -, -, rfl⟩ := Scope.addRoot_eq_ok hroot
  have hperson : model.entity "Person" = .ok person := by decide +kernel
  obtain rfl := Except.ok.inj (hentity.symm.trans hperson)
  exact .addRoot (.empty false) hroot

end Sample

namespace Typed

open Query (Expr)
open Sample (personScope personContext visited_personScope)

/-- `p.age = :x + 1` and `:x + 1 = p.age` give `:x` the same type. -/
theorem compare_exchanged_sum : ∃ typed s' first second first' second' t,
    (ofExpr personContext (.compare .eq (.path ["p", "age"])
      (.arithmetic .add (.named "x") (.literal (.int 1)))) none).run personScope
        = .ok (typed, s')
    ∧ typed = boolean (.compare .eq first second)
    ∧ (ofExpr personContext (.compare .eq (.arithmetic .add (.named "x") (.literal (.int 1)))
      (.path ["p", "age"])) none).run personScope
        = .ok (boolean (.compare .eq second' first'), t)
    ∧ slotsOf first' = slotsOf first ∧ slotsOf second' = slotsOf second := by
  obtain ⟨⟨typed, s'⟩, hrun⟩ := exists_ok_of_isSome
    (x := (ofExpr personContext (.compare .eq (.path ["p", "age"])
      (.arithmetic .add (.named "x") (.literal (.int 1)))) none).run personScope) (by decide +kernel)
  obtain ⟨⟨alone, t₁⟩, halone⟩ := exists_ok_of_isSome
    (x := (ofExpr personContext (.arithmetic .add (.named "x") (.literal (.int 1))) none).run
      personScope) (by decide +kernel)
  obtain ⟨first, second, htyped, ⟨-, first', second', t, hexchanged, hslots⟩ |
    ⟨-, source, -, herror, -⟩⟩ := compare_exchanged visited_personScope hrun
  · exact ⟨typed, s', first, second, first', second', t, hrun, htyped, hexchanged, hslots⟩
  · cases halone.symm.trans herror

/-- `p.age = (:x)` gives `:x` a type, and `(:x) = p.age` does not. -/
theorem compare_not_exchanged_parentheses : personScope.Visited personContext
    ∧ (∃ typed s', (ofExpr personContext (.compare .eq (.path ["p", "age"])
      (.nested (.named "x"))) none).run personScope = .ok (typed, s'))
    ∧ (ofExpr personContext (.compare .eq (.nested (.named "x"))
      (.path ["p", "age"])) none).run personScope = .error (.query (.undetermined ":x")) := by
  obtain ⟨⟨typed, s'⟩, hrun⟩ := exists_ok_of_isSome
    (x := (ofExpr personContext (.compare .eq (.path ["p", "age"])
      (.nested (.named "x"))) none).run personScope) (by decide +kernel)
  refine ⟨visited_personScope, ⟨typed, s', hrun⟩, compare_run_error rfl ?_⟩
  simp only [ofExpr]
  rfl

end Typed

end EntityQuery
