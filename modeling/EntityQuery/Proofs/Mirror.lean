import EntityQuery.Proofs.Parallel
import EntityQuery.Proofs.Scope.Twins

/-!
# The same expression in two scopes

An expression that can be typed in one scope can be typed in any that has grown
from the same one, and gets the same type there. The two terms are the same but
for the names of the tables (`ofExpr_mirrors`). As the runs that are compared are
put together in the same way, one judgement carries this, `Scoped.Mirrors`: a run
of the first in one scope is mirrored by a run of the second in a scope related to
it, and the scopes that are left are related again. Any relation will do that is kept
while two scopes grow in the same way (`Scope.Kinship`).
-/

namespace EntityQuery

open List Query

/-- Whenever the first can be run, the second can be run in a scope related to the
first one's, and the results are related. -/
def Scoped.Mirrors {α β : Type} (T : Scope → Scope → Prop) (R : α → β → Prop)
    (x : Scoped α) (y : Scoped β) : Prop :=
  ∀ ⦃s t s' : Scope⦄ ⦃a : α⦄, T s t → x.run s = .ok (a, s') →
    ∃ b t', y.run t = .ok (b, t') ∧ R a b ∧ T s' t'

namespace Scoped.Mirrors

variable {α β γ δ : Type} {context : Context} {base : Scope} {T : Scope → Scope → Prop}
  {R : α → β → Prop} {S : γ → δ → Prop}

variable {x : Scoped α} {y : Scoped β}

theorem pure {a : α} {b : β} (h : R a b) : Mirrors T R (Pure.pure a) (Pure.pure b) := by
  intro s t s' _ hkin hrun
  obtain ⟨rfl, rfl⟩ := run_pure.mp hrun
  exact ⟨b, t, run_pure.mpr ⟨rfl, rfl⟩, h, hkin⟩

theorem bind {f : α → Scoped γ} {g : β → Scoped δ} (hx : Mirrors T R x y)
    (hf : ∀ a b, R a b → Mirrors T S (f a) (g b)) :
    Mirrors T S (x >>= f) (y >>= g) := by
  intro s t s' _ hkin hrun
  obtain ⟨a, s₁, hfirst, hrest⟩ := run_bind.mp hrun
  obtain ⟨b, t₁, hfirst', hab, hkin₁⟩ := hx hkin hfirst
  obtain ⟨d, t', hrest', hd⟩ := hf a b hab hkin₁ hrest
  exact ⟨d, t', run_bind.mpr ⟨b, t₁, hfirst', hrest'⟩, hd⟩

theorem fail {fault : QueryFault} : Mirrors T R (Scoped.fail fault) y :=
  fun _ _ _ _ _ hrun => (not_run_fail hrun).elim

theorem misuse {fault : Misuse} : Mirrors T R (Scoped.misuse context fault) y :=
  fail

theorem ofMapping {result : Except MappingFault α} :
    Mirrors T Eq (Scoped.ofMapping result) (Scoped.ofMapping result) := by
  intro s t s' a hkin hrun
  obtain ⟨hresult, rfl⟩ := run_ofMapping.mp hrun
  exact ⟨a, t, run_ofMapping.mpr ⟨hresult, rfl⟩, rfl, hkin⟩

theorem mono {R' : α → β → Prop} (h : Mirrors T R x y) (himp : ∀ a b, R a b → R' a b) :
    Mirrors T R' x y := by
  intro s t s' a hkin hrun
  obtain ⟨b, t', hrun', hab, hkin'⟩ := h hkin hrun
  exact ⟨b, t', hrun', himp a b hab, hkin'⟩

theorem refl {R : α → α → Prop} (h : ∀ a, R a a) : Mirrors Eq R x x := by
  rintro s _ s' a rfl hrun
  exact ⟨a, s', hrun, h a, rfl⟩

theorem trans {y z : Scoped β} (h : Mirrors T R x y) (h' : Mirrors Eq Eq y z) :
    Mirrors T R x z := by
  intro s t s' a hkin hrun
  obtain ⟨b, t', hrun', hab, hkin'⟩ := h hkin hrun
  obtain ⟨_, _, hrun'', rfl, rfl⟩ := h' rfl hrun'
  exact ⟨b, t', hrun'', hab, hkin'⟩

theorem mapM {f : γ → Scoped α} {g : γ → Scoped β} (hf : ∀ item, Mirrors T R (f item) (g item)) :
    ∀ items : List γ, Mirrors T (List.Forall₂ R) (items.mapM f) (items.mapM g)
  | [] => by
    rw [mapM_nil, mapM_nil]
    exact .pure .nil
  | item :: rest => by
    rw [mapM_cons, mapM_cons]
    exact .bind (hf item) fun _ _ hfirst => .bind (mapM hf rest) fun _ _ hrest =>
      .pure (.cons hfirst hrest)

theorem foldlM {f : α → γ → Scoped α} {g : β → γ → Scoped β}
    (hf : ∀ item a b, R a b → Mirrors T R (f a item) (g b item)) :
    ∀ (items : List γ) {a : α} {b : β}, R a b →
      Mirrors T R (items.foldlM f a) (items.foldlM g b)
  | [], _, _, h => .pure h
  | item :: rest, _, _, h => by
    rw [foldlM_cons, foldlM_cons]
    exact .bind (hf item _ _ h) fun _ _ hnext => foldlM hf rest hnext

theorem resolve (hT : Scope.Kinship context base T) (path : List String) :
    Mirrors T Meaning.Alike (Scope.resolve context path) (Scope.resolve context path) :=
  fun _ _ _ _ hkin hrun => hT.resolve hkin hrun

theorem nextAlias (hT : Scope.Kinship context base T) (stem : String) :
    Mirrors T (fun _ _ => True) (Scope.nextAlias stem) (Scope.nextAlias stem) := by
  intro s t s' tableAlias hkin hrun
  obtain ⟨rfl, rfl⟩ := Scope.nextAlias_run hrun
  exact ⟨t.freshAlias stem, t.countAlias, rfl, trivial, hT.countAlias hkin⟩

theorem addTable (hT : Scope.Kinship context base T) (table : String) :
    Mirrors T (fun _ _ => True) (modify (·.addTable table)) (modify (·.addTable table)) := by
  intro s t s' _ hkin hrun
  obtain rfl := run_modify.mp hrun
  exact ⟨(), t.addTable table, rfl, trivial, hT.addTable table hkin⟩

end Scoped.Mirrors

abbrev Typed.Alike : Typed → Typed → Prop :=
  Like .bare fun _ => True

namespace Typed

open Scoped Sql.Term

variable {context : Context} {base : Scope} {T : Scope → Scope → Prop}

theorem slot_mirrors (source : ParameterSource) (hint : Option SemanticType) :
    Mirrors T Alike (slot context source hint) (slot context source hint) := by
  cases hint with
  | none => exact .fail
  | some type =>
    have htype : Mirrors T Eq (slotType context source type) (slotType context source type) := by
      cases type with
      | entity name => exact .bind .ofMapping fun _ _ h => .pure (h ▸ rfl)
      | component name => exact .misuse
      | _ => exact .pure rfl
    refine .bind htype ?_
    rintro found _ rfl
    exact .pure ⟨rfl, trivial, rfl⟩

theorem denoted_mirrors (path : List String) {meaning other : Meaning} (h : meaning.Alike other) :
    Mirrors T Alike (denoted context path meaning) (denoted context path other) := by
  cases h with
  | column htwin | reference htwin => exact .pure ⟨rfl, trivial, by simp only [rename]; rfl⟩
  | entity htwin =>
    refine .pure ⟨?_, trivial, ?_⟩
    · rw [htwin]
    · simp only [Element.identifier, htwin, rename]
      rfl
  | component htwin | collection htwin => exact .misuse

theorem nullTest_mirrors (hT : Scope.Kinship context base T) (path : List String) (negated : Bool) :
    Mirrors T Alike (nullTest context path negated) (nullTest context path negated) := by
  refine .bind (.resolve hT path) ?_
  intro meaning other halike
  have hdenoted : Mirrors T Alike (denoted context path meaning)
      (denoted context path other) := denoted_mirrors path halike
  cases halike with
  | component htwin =>
    refine .pure ⟨rfl, trivial, ?_⟩
    simp only [boolean, rename, map_map]
    rfl
  | _ =>
    exact .bind hdenoted fun _ _ hfound =>
      .pure ⟨rfl, trivial, by simp only [boolean, rename, hfound.rename_eq]⟩

theorem elementTable?_mirrors (association : Association) :
    Mirrors T Eq (elementTable? context association) (elementTable? context association) := by
  cases association with
  | oneToMany target keyColumn => exact .bind .ofMapping fun _ _ h => .pure (h ▸ rfl)
  | manyToMany target table keyColumn elementColumn | manyToOne target column => exact .pure rfl

theorem emptyTest_mirrors (hT : Scope.Kinship context base T) (expr : Expr) (negated : Bool) :
    Mirrors T Alike (emptyTest context expr negated) (emptyTest context expr negated) := by
  cases expr with
  | path segments =>
    refine .bind (.resolve hT segments) fun meaning other halike => ?_
    cases halike with
    | collection htwin =>
      refine .bind (elementTable?_mirrors _) ?_
      rintro found _ rfl
      cases found with
      | none => exact .misuse
      | some entry =>
        refine .bind (.addTable hT _) fun _ _ _ =>
          .bind (.nextAlias hT _) fun _ _ _ => .pure ?_
        refine ⟨rfl, trivial, ?_⟩
        simp only [boolean, rename, htwin]
        rfl
    | _ => exact .misuse
  | _ => exact .misuse

/-- Expressions are typed in two related scopes side by side. -/
def mirror (hT : Scope.Kinship context base T) : Parallel where
  Holds := Mirrors T
  done := Mirrors.pure
  andThen := Mirrors.bind
  failed {_ _ _ _ _} := Mirrors.fail
  first := context
  second := context
  newName := id
  names := .bare
  known _ _ := True
  covers _ _ := True
  child _ _ := trivial
  known_none := trivial
  known_plain _ := trivial
  known_among _ _ := trivial
  slot _ _ _ _ := slot_mirrors _ _
  path _ := by
    rw [renamePath_id]
    exact .bind (.resolve hT _) fun _ _ halike => denoted_mirrors _ halike
  nullTest negated _ := by
    rw [renamePath_id]
    exact nullTest_mirrors hT _ negated
  emptyTest negated _ := by
    rw [renamePath_id]
    exact emptyTest_mirrors hT _ negated

theorem ofExpr_mirrors (hT : Scope.Kinship context base T) (expr : Expr)
    (hint : Option SemanticType) :
    Mirrors T Alike (ofExpr context expr hint) (ofExpr context expr hint) := by
  have h : Mirrors T Alike (ofExpr context expr hint) (ofExpr context (expr.renamed id) hint) :=
    (mirror hT).ofExpr expr trivial (List.nil_subset []) trivial
  rwa [Expr.renamed_id] at h

theorem determined_mirrors (hT : Scope.Kinship context base T) (expr : Expr) :
    Mirrors T (fun found other => other.2 = found.2 ∧ other.1.bare = found.1.bare)
      (determined context expr) (determined context expr) := by
  have h : Mirrors T _ (determined context expr) (determined context (expr.renamed id)) :=
    (mirror hT).determined trivial
  rwa [Expr.renamed_id] at h

theorem condition_mirrors (hT : Scope.Kinship context base T) (expr : Option Expr) :
    Mirrors T (fun found other => other.map Sql.Term.bare = found.map Sql.Term.bare)
      (condition context expr) (condition context expr) := by
  have h : Mirrors T _ (condition context expr) (condition context (expr.map (Expr.renamed id))) :=
    (mirror hT).condition fun _ _ => trivial
  rwa [funext Expr.renamed_id, Option.map_id'] at h

end Typed

end EntityQuery
