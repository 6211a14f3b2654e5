import EntityQuery.Projection
import EntityQuery.Proofs.Parallel
import EntityQuery.Proofs.Scope.Renaming

/-!
# Typing and selecting under other names

An expression is given the same term and the same type after the aliases are
renamed in it and in the scope (`ofExpr_agrees`), and so is an item of the select
list (`ofTarget_agrees`). Names of aliases get into error messages only.

The type of an expression names an entity only if it is the type of a table, of an
association or of a column that a path in it ends in (`AliasRenaming.Explains`). The
model vouches for the first two, so it is only where it takes its type from a column
that a parameter may look up an entity that is unknown. Selecting an entity never looks up more than the targets of its
associations.
-/

namespace EntityQuery

open Scoped Query

namespace AliasRenaming

variable (naming : AliasRenaming)

/-- The path ends in the name of a column that has this entity as its type. -/
def EndsIn (path : List String) (entity : String) : Prop :=
  ∃ column ∈ path.getLast?, (column, .entity entity) ∈ naming.model.columns

/-- All paths of the expression start safely, and where a parameter in it takes its type from a
column, the model vouches for that type. -/
structure CoversExpr (guides : List Expr) (expr : Expr) : Prop where
  paths : ∀ path ∈ expr.paths, naming.Covers path
  asked : ∀ source path, expr.Takes guides source path →
    ∀ name, naming.EndsIn path name → naming.Vouches name

/-- If the type is an entity, the model vouches for it, or else it is the type of a column that
gives one of these expressions its type. -/
def Explains (guides : List Expr) (type : Option SemanticType) : Prop :=
  ∀ name, type = some (.entity name) →
    naming.Vouches name ∨ ∃ guide ∈ guides, ∃ path, guide.HasTypeOf path ∧ naming.EndsIn path name

/-- What is selected is a table of the model or an expression that is covered. -/
def CoversTarget : Target → Prop
  | .element found => naming.Knows found
  | .expr found => naming.CoversExpr [] found

variable {naming} {guides guides' : List Expr}

theorem CoversExpr.child {expr child : Expr} (h : naming.CoversExpr guides expr)
    (hchild : (child, guides') ∈ expr.guided guides) : naming.CoversExpr guides' child where
  paths path hpath := h.paths path (Expr.paths_subset (Expr.mem_children_of_guided hchild) hpath)
  asked source path htakes := h.asked source path (.inside hchild htakes)

/-- A type that names no entity needs no explanation. -/
theorem explains_plain {type : SemanticType} (h : ∀ name, type ≠ .entity name) :
    naming.Explains guides (some type) :=
  fun name heq => absurd (Option.some.inj heq) (h name)

theorem Explains.among {type : Option SemanticType} (hamong : Expr.Among guides guides')
    (h : naming.Explains guides type) : naming.Explains guides' type := by
  intro name htype
  rcases h name htype with hvouched | ⟨guide, hguide, path, hpath, hends⟩
  · exact .inl hvouched
  · rcases hamong guide hguide with hmem | ⟨expr, hexpr, hgiver⟩
    · exact .inr ⟨guide, hmem, path, hpath, hends⟩
    · exact .inr ⟨expr, hexpr, path, .giver hgiver hpath, hends⟩

/-- The column that a path ends in explains its type. -/
theorem explains_column {path : List String} {type : SemanticType}
    (h : ∃ name ∈ path.getLast?, (name, type) ∈ naming.model.columns) :
    naming.Explains (.path path :: guides) (some type) := by
  rintro name ⟨⟩
  exact .inr ⟨.path path, .head _, path, .path path, h⟩

theorem explains_entity {name : String} (h : naming.Vouches name) :
    naming.Explains guides (some (.entity name)) := by
  rintro _ ⟨⟩
  exact .inl h

end AliasRenaming

namespace Typed

variable {naming : AliasRenaming}

variable {hint : Option SemanticType} {path : List String} {expr : Expr}

variable {guides fewer : List Expr}

theorem slot_agrees {source : ParameterSource} (hcovers : naming.CoversExpr guides expr)
    (hsource : expr.parameter? = some source) (hfewer : fewer ⊆ guides)
    (hhint : naming.Explains fewer hint) :
    Agrees naming (Like .same (naming.Explains (expr :: fewer))) (slot naming.context source hint)
      (slot naming.context' source hint) := by
  cases hint with
  | none => exact .fail
  | some type =>
    have hmore : naming.Explains (expr :: fewer) (some type) :=
      hhint.among (Expr.among_of_subset (List.subset_cons_self _ _))
    refine .andThen ?_ fun found => .pure ⟨rfl, hmore, rfl⟩
    cases type with
    | entity name =>
      have hname : naming.Vouches name := by
        rcases hhint name rfl with hvouched | ⟨guide, hguide, path, hpath, hends⟩
        · exact hvouched
        · exact hcovers.asked source path (.here hsource (hfewer hguide) hpath) name hends
      exact .knowing (.entity hname) fun _ _ => .pure rfl
    | component name => exact .misuse
    | _ => exact .pure rfl

theorem denoted_agrees (guides : List Expr) (path path' : List String) {meaning : Meaning}
    (hmeaning : naming.Mapped path.getLast? meaning) :
    Agrees naming (Like .same (naming.Explains (.path path :: guides)))
      (denoted naming.context path meaning) (denoted naming.context' path' meaning) := by
  cases meaning with
  | column owner column type => exact .pure ⟨rfl, naming.explains_column hmeaning, rfl⟩
  | entity element => exact .pure ⟨rfl, naming.explains_entity (naming.own _ hmeaning), rfl⟩
  | reference owner property target column =>
    exact .pure ⟨rfl, naming.explains_entity hmeaning.2, rfl⟩
  | component owner component fields | collection owner association => exact .misuse

theorem boolean_agrees (term : Sql.Term) :
    Agrees naming (Like .same (naming.Explains guides)) (pure (boolean term))
      (pure (boolean term)) :=
  .pure ⟨rfl, AliasRenaming.explains_plain nofun, rfl⟩

theorem nullTest_agrees (hcovers : naming.Covers path) (negated : Bool) :
    Agrees naming (Like .same (naming.Explains guides)) (nullTest naming.context path negated)
      (nullTest naming.context' (renamePath naming.rename path) negated) := by
  refine .knowing (Scope.resolve_agrees hcovers) fun meaning hmeaning => ?_
  cases meaning with
  | component owner component fields => exact boolean_agrees _
  | _ =>
    exact .bind (denoted_agrees [] _ _ hmeaning) fun _ _ h => h.eq ▸ boolean_agrees _

theorem elementTable?_agrees {association : Association} (h : naming.Vouches association.target) :
    Agrees naming Eq (elementTable? naming.context association)
      (elementTable? naming.context' association) := by
  cases association with
  | oneToMany target keyColumn => exact .knowing (.entity h) fun _ _ => .pure rfl
  | manyToMany target table keyColumn elementColumn | manyToOne target column => exact .pure rfl

theorem emptyTest_agrees (hcovers : naming.Covers path) (negated : Bool) :
    Agrees naming (Like .same (naming.Explains guides))
      (emptyTest naming.context (.path path) negated)
      (emptyTest naming.context' (.path (renamePath naming.rename path)) negated) := by
  refine .knowing (Scope.resolve_agrees hcovers) fun meaning hmeaning => ?_
  cases meaning with
  | collection owner association =>
    refine .andThen (elementTable?_agrees hmeaning) fun found => ?_
    cases found with
    | none => exact .misuse
    | some entry =>
      exact .andThen (.addTable _) fun _ => .andThen (.nextAlias _) fun _ => boolean_agrees _
  | _ => exact .misuse

/-- Expressions are typed side by side with the renamed ones. -/
def besideRenamed (naming : AliasRenaming) : Parallel where
  Holds := Agrees naming
  done := Agrees.pure
  andThen := Agrees.bind
  failed {_ _ _ _ _} := Agrees.fail
  first := naming.context
  second := naming.context'
  newName := naming.rename
  names := .same
  known := naming.Explains
  covers := naming.CoversExpr
  child := AliasRenaming.CoversExpr.child
  known_none _ h := nomatch h
  known_plain := AliasRenaming.explains_plain
  known_among := AliasRenaming.Explains.among
  slot := slot_agrees
  path h := .knowing (Scope.resolve_agrees (h.paths _ (.head _))) fun _ => denoted_agrees _ _ _
  nullTest negated h := nullTest_agrees (h.paths _ (.head _)) negated
  emptyTest negated h := emptyTest_agrees (h.paths _ (.head _)) negated

theorem ofExpr_agrees (hcovers : naming.CoversExpr guides expr)
    (hhint : naming.Explains guides hint) :
    Agrees naming Eq (ofExpr naming.context expr hint)
      (ofExpr naming.context' (expr.renamed naming.rename) hint) :=
  Agrees.mono ((besideRenamed naming).ofExpr expr hcovers (List.Subset.refl _) hhint) fun _ _ h => h.eq

theorem determined_agrees (hcovers : naming.CoversExpr [] expr) :
    Agrees naming Eq (determined naming.context expr)
      (determined naming.context' (expr.renamed naming.rename)) := by
  refine .andThen (ofExpr_agrees hcovers nofun) fun typed => ?_
  cases typed.type with
  | some type => exact .pure rfl
  | none => exact .fail

theorem condition_agrees {expr : Option Expr}
    (hcovers : ∀ found ∈ expr, naming.CoversExpr [] found) :
    Agrees naming Eq (condition naming.context expr)
      (condition naming.context' (expr.map (Expr.renamed naming.rename))) := by
  cases expr with
  | none =>
    simp only [condition, Option.map_none, ofOption, pure_bind]
    exact .pure rfl
  | some expr =>
    simp only [condition, Option.map_some, ofOption, bind_assoc, pure_bind]
    exact .andThen (ofExpr_agrees (hcovers expr rfl) (besideRenamed naming).known_boolean)
      fun typed => .pure rfl

end Typed

/-! ## The select list -/

def Target.renamed (rename : String → String) : Target → Target
  | .element found => .element found
  | .expr found => .expr (found.renamed rename)

namespace Selected

variable {naming : AliasRenaming}

/-- All columns of an entity are found: only targets of associations are looked up. -/
theorem entityColumns_agrees {element : Element} (helement : naming.Knows element) :
    Agrees naming (Common fun _ => True) (ofMapping (entityColumns naming.model element))
      (ofMapping (entityColumns naming.model element)) := by
  refine .ofMapping (fun _ _ => trivial) fun missing hmissing => ?_
  rcases bind_eq_error hmissing with hparts | ⟨parts, -, hpure⟩
  · obtain ⟨property, hproperty, hfault⟩ := exists_error_of_mapM hparts
    unfold propertyColumns at hfault
    split at hfault
    · cases hfault
    · cases hfault
    · rename_i target column hkind
      rcases bind_eq_error hfault with htarget | ⟨entity, -, hpure⟩
      · obtain ⟨rfl, hnone⟩ := Metamodel.entity_eq_error htarget
        exact naming.targets _ helement property hproperty _ hkind hnone
      · cases hpure
    · cases hfault
  · cases hpure

theorem ofElement_agrees {element : Element} (helement : naming.Knows element) :
    Agrees naming Eq (ofElement naming.context element) (ofElement naming.context' element) := by
  have hshallow : naming.context'.shallow = naming.context.shallow := rfl
  simp only [ofElement, hshallow]
  split
  · exact .pure rfl
  · exact .knowing (entityColumns_agrees helement) fun _ _ => .pure rfl

theorem ofMeaning_agrees (path path' : List String) {meaning : Meaning}
    (hmeaning : naming.Mapped path.getLast? meaning) :
    Agrees naming Eq (ofMeaning naming.context path meaning)
      (ofMeaning naming.context' path' meaning) := by
  cases meaning with
  | column owner column type => exact .pure rfl
  | entity element => exact ofElement_agrees hmeaning
  | reference owner property target column =>
    have hshallow : naming.context'.shallow = naming.context.shallow := rfl
    simp only [ofMeaning, hshallow]
    split
    · exact .knowing (.entity hmeaning.2) fun _ _ => .pure rfl
    · exact .knowing (Scope.implicitJoin_agrees hmeaning.1 ..) fun _ => ofElement_agrees
  | component owner component fields => exact .pure rfl
  | collection owner association => exact .misuse

theorem ofTarget_agrees {target : Target} (hcovers : naming.CoversTarget target) :
    Agrees naming Eq (ofTarget naming.context target)
      (ofTarget naming.context' (target.renamed naming.rename)) := by
  cases target with
  | element element => exact ofElement_agrees hcovers
  | expr expr =>
    have hexpr : naming.CoversExpr [] expr := hcovers
    by_cases hpath : ∃ path, expr = .path path
    · obtain ⟨path, rfl⟩ := hpath
      simp only [Target.renamed, Expr.renamed, ofTarget]
      exact .knowing (Scope.resolve_agrees (hexpr.paths path (.head _))) fun _ =>
        ofMeaning_agrees _ _
    · have hplain : ∀ path, expr = .path path → False := fun path h => hpath ⟨path, h⟩
      have hplain' : ∀ path, expr.renamed naming.rename = .path path → False :=
        fun path h => hpath (Expr.exists_path_of_renamed h)
      simp only [Target.renamed, ofTarget]
      exact .andThen (Typed.determined_agrees hexpr) fun found => .pure rfl

end Selected

namespace Projection

variable {naming : AliasRenaming}

theorem selectFetch_agrees (projection : Projection) {join : FetchJoin}
    (hjoin : naming.Knows join.element) :
    Agrees naming Eq (selectFetch naming.context projection join)
      (selectFetch naming.context' projection join) := by
  unfold selectFetch
  cases projection.owner? join.owner with
  | none => exact .misuse
  | some owner => exact .knowing (Selected.entityColumns_agrees hjoin) fun _ _ => .pure rfl

theorem select_agrees {items : List (Target × Option String)}
    (hcovers : ∀ item ∈ items, naming.CoversTarget item.1) {fetches : List FetchJoin}
    (hfetches : ∀ join ∈ fetches, naming.Knows join.element) :
    Agrees naming Eq (select naming.context items fetches)
      (select naming.context'
        (items.map fun item => (item.1.renamed naming.rename, item.2)) fetches) := by
  simp only [select, List.foldlM_map]
  refine .knowing (P := fun _ => True) (.foldlM (fun item hitem projection _ => ?_) trivial)
    fun projection _ => ?_
  · exact .andThen (Selected.ofTarget_agrees (hcovers item hitem)) fun _ => .pure ⟨rfl, trivial⟩
  · refine Agrees.mono (.foldlM (P := fun _ => True) (fun join hjoin projection _ => ?_) trivial)
      fun _ _ h => h.1
    exact (selectFetch_agrees projection (hfetches join hjoin)).mono fun _ _ h => ⟨h, trivial⟩

end Projection

end EntityQuery
