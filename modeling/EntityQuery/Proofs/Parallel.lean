import Mathlib.Data.List.Forall2
import EntityQuery.Proofs.Query.Renaming
import EntityQuery.Proofs.Sql.Renaming
import EntityQuery.Typing

/-!
# Typing an expression twice

An expression is typed in two contexts side by side, in the second one with other
names at the start of its paths. What is said of the two runs may differ: that the
second succeeds whenever the first does, or that both fail alike. All that is asked
of such a statement is that it holds of steps put together from steps of which it
holds (`Scoped.Pairing`). So the way through an expression is gone once
(`Typed.Parallel.ofExpr`): if the statement holds of the leaves, which are
parameters and paths, it holds of the expression, and the two results have the same
type and the same term but for the names of tables.

On the way it is kept in mind where types come from. An expression may have the type
of an expression in it (`Query.Expr.givers`), and a parameter has the type of an
expression beside it (`Query.Expr.guided`); in the end these are paths
(`Query.Expr.Takes`).
-/

namespace EntityQuery

open Query Expr

/-! ## Where types come from -/

namespace Query.Expr

/-- The expressions in this one whose type it may have. -/
def givers : Expr → List Expr
  | .nested inner | .negate inner => [inner]
  | .arithmetic op left right => if op = .concat then [] else [left, right]
  | .call name arguments =>
    match Typed.Function.ofName? name with
    | some (.unary _ none) | some .coalesce => arguments
    | _ => []
  | .aggregate function _ argument =>
    if function = .count ∨ function = .avg then [] else argument.toList
  | _ => []

/-- The expressions that this one is made of, each with those that a parameter there may take
its type from, where the parameter that the expression itself may be has its guides. -/
def guided (guides : List Expr) : Expr → List (Expr × List Expr)
  | .nested inner | .negate inner => [(inner, guides)]
  | .compare _ left right => [(left, [right]), (right, [left])]
  | .arithmetic op left right =>
    let guides := if op = .concat then [] else guides
    [(left, right :: guides), (right, left :: guides)]
  | .inList subject items _ => (subject, []) :: items.map (·, [subject])
  | .between subject low high _ => [(subject, []), (low, [subject]), (high, [subject])]
  | .call name arguments =>
    let others := if Typed.Function.ofName? name = some .coalesce then arguments else []
    arguments.map fun argument => (argument, if argument.isParameter then others else [])
  | e => e.children.map (·, [])

/-- The type of the expression is the one of a path in it. -/
inductive HasTypeOf : Expr → List String → Prop where
  | path (path : List String) : HasTypeOf (.path path) path
  | giver {e giver : Expr} {path : List String} (hgiver : giver ∈ e.givers)
      (h : HasTypeOf giver path) : HasTypeOf e path

/-- In the expression, which has these guides, the parameter takes its type from the path. -/
inductive Takes : List Expr → Expr → ParameterSource → List String → Prop where
  | here {guides : List Expr} {e guide : Expr} {source : ParameterSource} {path : List String}
      (hsource : e.parameter? = some source) (hguide : guide ∈ guides)
      (h : guide.HasTypeOf path) : Takes guides e source path
  | inside {guides guides' : List Expr} {e child : Expr} {source : ParameterSource}
      {path : List String} (hchild : (child, guides') ∈ e.guided guides)
      (h : Takes guides' child source path) : Takes guides e source path

/-- The expressions of a list among those of another, or in one of them whose type it may have. -/
def Among (guides more : List Expr) : Prop :=
  ∀ guide ∈ guides, guide ∈ more ∨ ∃ e ∈ more, guide ∈ e.givers

theorem among_of_subset {guides more : List Expr} (h : guides ⊆ more) : Among guides more :=
  fun _ hguide => .inl (h hguide)

theorem mem_children_of_guided {guides guides' : List Expr} {e child : Expr}
    (h : (child, guides') ∈ e.guided guides) : child ∈ e.children := by
  cases e <;> simp only [guided, children, List.mem_cons, List.mem_map, Prod.mk.injEq] at h ⊢ <;>
    grind

end Query.Expr

/-- Something to be said of two runs whose results are related. -/
structure Scoped.Pairing where
  Holds {α β : Type} : (α → β → Prop) → Scoped α → Scoped β → Prop
  done {α β : Type} {R : α → β → Prop} {a : α} {b : β} : R a b → Holds R (pure a) (pure b)
  andThen {α β γ δ : Type} {R : α → β → Prop} {S : γ → δ → Prop} {x : Scoped α} {y : Scoped β}
    {f : α → Scoped γ} {g : β → Scoped δ} : Holds R x y →
      (∀ a b, R a b → Holds S (f a) (g b)) → Holds S (x >>= f) (y >>= g)
  failed {α β : Type} {R : α → β → Prop} {fault fault' : QueryFault} :
    Holds R (fail fault) (fail fault')

namespace Scoped.Pairing.Holds

variable {α β γ δ : Type} {pairing : Pairing} {R : α → β → Prop} {S : γ → δ → Prop}

theorem pure {a : α} {b : β} (h : R a b) : pairing.Holds R (Pure.pure a) (Pure.pure b) :=
  pairing.done h

theorem bind {x : Scoped α} {y : Scoped β} {f : α → Scoped γ} {g : β → Scoped δ}
    (hx : pairing.Holds R x y) (hf : ∀ a b, R a b → pairing.Holds S (f a) (g b)) :
    pairing.Holds S (x >>= f) (y >>= g) :=
  pairing.andThen hx hf

theorem fail {fault fault' : QueryFault} :
    pairing.Holds R (Scoped.fail fault) (Scoped.fail fault') :=
  pairing.failed

theorem misuse {context context' : Context} {fault fault' : Misuse} :
    pairing.Holds R (Scoped.misuse context fault) (Scoped.misuse context' fault') :=
  pairing.failed

end Scoped.Pairing.Holds

namespace Typed

open Sql.Term

/-- Terms of the same type, of which something is known, that are the same once their tables
are renamed. -/
structure Like (names : Sql.Renaming) (known : Option SemanticType → Prop) (typed other : Typed) :
    Prop where
  type_eq : other.type = typed.type
  known : known typed.type
  rename_eq : other.term.rename names = typed.term.rename names

theorem Like.eq {known : Option SemanticType → Prop} {typed other : Typed}
    (h : Like .same known typed other) : typed = other := by
  obtain ⟨htype, -, hterm⟩ := h
  rw [rename_same, rename_same] at hterm
  cases typed
  cases other
  simp_all

/-- Two contexts in which expressions are typed side by side, and what holds of the leaves of
the expressions that are covered. -/
structure Parallel extends Scoped.Pairing where
  first : Context
  second : Context
  newName : String → String
  names : Sql.Renaming
  /-- What is known of a type that comes from one of these expressions. -/
  known : List Expr → Option SemanticType → Prop
  covers : List Expr → Expr → Prop
  child {guides guides' : List Expr} {expr child : Expr} :
    covers guides expr → (child, guides') ∈ expr.guided guides → covers guides' child
  known_none {guides : List Expr} : known guides none
  known_plain {guides : List Expr} {type : SemanticType} :
    (∀ name, type ≠ .entity name) → known guides (some type)
  known_among {guides more : List Expr} {type : Option SemanticType} :
    Among guides more → known guides type → known more type
  slot {guides fewer : List Expr} {expr : Expr} {source : ParameterSource}
    {hint : Option SemanticType} : covers guides expr → expr.parameter? = some source →
      fewer ⊆ guides → known fewer hint → Holds (Like names (known (expr :: fewer)))
        (slot first source hint) (slot second source hint)
  path {guides more : List Expr} {path : List String} : covers guides (.path path) →
    Holds (Like names (known (.path path :: more)))
      (Scope.resolve first path >>= denoted first path)
      (Scope.resolve second (renamePath newName path)
        >>= denoted second (renamePath newName path))
  nullTest {guides more : List Expr} {path : List String} (negated : Bool) :
    covers guides (.path path) → Holds (Like names (known more)) (nullTest first path negated)
      (nullTest second (renamePath newName path) negated)
  emptyTest {guides more : List Expr} {path : List String} (negated : Bool) :
    covers guides (.path path) →
      Holds (Like names (known more)) (emptyTest first (.path path) negated)
        (emptyTest second (.path (renamePath newName path)) negated)

namespace Parallel

variable (par : Parallel) {guides more : List Expr} {expr : Expr} {exprs : List Expr}
  {hint : Option SemanticType} {typed other : Typed}

variable {done others : List (Option Typed)} {name : String}

/-- Results that are related, of a type that comes from these expressions. -/
abbrev Alike (guides : List Expr) : Typed → Typed → Prop :=
  Like par.names (par.known guides)

abbrev SameTerms (terms others : List Sql.Term) : Prop :=
  renameAll par.names others = renameAll par.names terms

/-- Typing the expression gives related results, whatever it is that the guides hint at. -/
def Relates (guides : List Expr) (expr : Expr) : Prop :=
  ∀ ⦃fewer : List Expr⦄ ⦃hint : Option SemanticType⦄, fewer ⊆ guides → par.known fewer hint →
    par.Holds (par.Alike (expr :: fewer)) (ofExpr par.first expr hint)
      (ofExpr par.second (expr.renamed par.newName) hint)

/-! ## Types -/

theorem known_boolean : par.known guides (some .boolean) :=
  par.known_plain fun _ h => nomatch h

theorem known_string : par.known guides (some .string) :=
  par.known_plain fun _ h => nomatch h

theorem known_integer : par.known guides (some .integer) :=
  par.known_plain fun _ h => nomatch h

variable {par}

theorem known_or {first second : Option SemanticType} (hfirst : par.known guides first)
    (hsecond : par.known guides second) : par.known guides (first.or second) := by
  cases first with
  | none => exact hsecond
  | some type => exact hfirst

theorem known_subset {type : Option SemanticType} (h : par.known guides type)
    (hsubset : guides ⊆ more) : par.known more type :=
  par.known_among (among_of_subset hsubset) h

/-- What has the type of an expression in it. -/
theorem known_giver {giver : Expr} {type : Option SemanticType}
    (h : par.known (giver :: guides) type) (hgiver : giver ∈ expr.givers) :
    par.known (expr :: guides) type := by
  refine par.known_among (fun guide hguide => ?_) h
  rcases List.mem_cons.mp hguide with rfl | hmem
  · exact .inr ⟨expr, .head _, hgiver⟩
  · exact .inl (.tail _ hmem)

theorem Relates.anti {fewer : List Expr} (h : par.Relates guides expr) (hfewer : fewer ⊆ guides) :
    par.Relates fewer expr :=
  fun _ _ hsubset => h (List.Subset.trans hsubset hfewer)

theorem Alike.among (h : par.Alike guides typed other) (hamong : Among guides more) :
    par.Alike more typed other :=
  ⟨h.type_eq, par.known_among hamong h.known, h.rename_eq⟩

theorem boolean {term term' : Sql.Term} (h : term'.rename par.names = term.rename par.names) :
    par.Alike guides (boolean term) (Typed.boolean term') :=
  ⟨rfl, par.known_boolean, h⟩

theorem known_literalType (value : Literal) : par.known guides (literalType value) := by
  cases value with
  | null => exact par.known_none
  | _ => exact par.known_plain fun _ h => nomatch h

theorem known_resultType {left right : Option SemanticType} (hleft : par.known guides left)
    (hright : par.known guides right) : par.known guides (resultType left right) := by
  unfold resultType
  split
  · exact par.known_plain fun _ h => nomatch h
  · exact known_or hleft hright

theorem known_aggregateType {function : AggregateFunction} {type : Option SemanticType}
    (h : ¬(function = .count ∨ function = .avg) → par.known guides type) :
    par.known guides (aggregateType function type) := by
  cases function with
  | count | avg => exact par.known_plain fun _ h => nomatch h
  | _ => exact h (by decide)

theorem known_unary {hint result : Option SemanticType}
    (h : Function.ofName? name = some (.unary hint result)) :
    par.known [] hint ∧ par.known [] result := by
  unfold Function.ofName? at h
  split at h <;> cases h
  · exact ⟨par.known_string, par.known_string⟩
  · exact ⟨par.known_string, par.known_string⟩
  · exact ⟨par.known_string, par.known_string⟩
  · exact ⟨par.known_string, par.known_plain fun _ h => nomatch h⟩
  · exact ⟨par.known_none, par.known_none⟩

/-! ## Parameters -/

/-- Nothing but a parameter is typed as one. -/
theorem parameter (hcovers : expr.isParameter = true → par.covers guides expr)
    (hhint : par.known guides hint) :
    par.Holds (par.Alike (expr :: guides)) (parameter par.first expr hint)
      (parameter par.second (expr.renamed par.newName) hint) := by
  cases expr with
  | named name | ordinal position =>
    rw [renamed]
    exact par.slot (hcovers rfl) rfl (List.Subset.refl _) hhint
  | like subject pattern escape negated =>
    cases escape <;> rw [renamed] <;> exact .fail
  | aggregate function distinct argument =>
    cases argument <;> rw [renamed] <;> exact .fail
  | _ =>
    rw [renamed]
    exact .fail

abbrev DoneAlike (par : Parallel) (guides : List Expr) :
    List (Option Typed) → List (Option Typed) → Prop :=
  List.Forall₂ (Option.Rel (par.Alike guides))

theorem firstType_eq (h : par.DoneAlike guides done others) :
    firstType others = firstType done ∧ par.known guides (firstType done) := by
  induction h with
  | nil => exact ⟨rfl, par.known_none⟩
  | cons hfirst _ ih =>
    rw [firstType, List.findSome?_cons, firstType, List.findSome?_cons]
    cases hfirst with
    | @some typed other halike =>
      simp only [Option.bind_some, halike.type_eq]
      have hknown := halike.known
      generalize typed.type = type at hknown
      cases type with
      | some type => exact ⟨rfl, hknown⟩
      | none => exact ih
    | none => exact ih

theorem fillParameters {type : Option SemanticType} (htype : par.known guides type)
    (hcovers : ∀ expr ∈ exprs, expr.isParameter = true → par.covers guides expr)
    (h : par.DoneAlike more done others) :
    par.Holds par.SameTerms (fillParameters par.first type exprs done)
      (fillParameters par.second type (renamedAll par.newName exprs) others) := by
  induction exprs generalizing done others with
  | nil =>
    simp only [renamedAll, Typed.fillParameters]
    exact .pure rfl
  | cons expr rest ih =>
    obtain ⟨hexpr, hrest⟩ := List.forall_mem_cons.mp hcovers
    cases h with
    | nil =>
      simp only [renamedAll, Typed.fillParameters]
      exact .pure rfl
    | cons hfirst hdone =>
      cases hfirst with
      | some halike =>
        simp only [renamedAll, Typed.fillParameters]
        exact .bind (ih hrest hdone) fun _ _ hterms =>
          .pure (by simp only [SameTerms, renameAll, halike.rename_eq, hterms])
      | none =>
        simp only [renamedAll, Typed.fillParameters]
        exact .bind (parameter hexpr htype) fun _ _ halike =>
          .bind (ih hrest hdone) fun _ _ hterms =>
            .pure (by simp only [SameTerms, renameAll, halike.rename_eq, hterms])

/-! ## Operands and lists -/

theorem operands {leftIsParameter rightIsParameter : Bool} {left right : Expr}
    (hleft : par.Relates (right :: guides) left) (hright : par.Relates (left :: guides) right)
    (hhint : par.known guides hint) :
    par.Holds (fun pair other => par.Alike (left :: right :: guides) pair.1 other.1
        ∧ par.Alike (left :: right :: guides) pair.2 other.2)
      (operands leftIsParameter rightIsParameter (Typed.ofExpr par.first left)
        (Typed.ofExpr par.first right) hint)
      (operands leftIsParameter rightIsParameter
        (Typed.ofExpr par.second (left.renamed par.newName))
        (Typed.ofExpr par.second (right.renamed par.newName)) hint) := by
  unfold Typed.operands
  split
  · refine .bind (hright (List.subset_cons_self ..) hhint) fun second second' hsecond => ?_
    rw [hsecond.type_eq]
    exact .bind (hleft (List.Subset.refl _) (known_or hsecond.known
      (known_subset hhint (List.subset_cons_self ..)))) fun first first' hfirst =>
        .pure ⟨hfirst, hsecond.among (among_of_subset (List.subset_cons_self ..))⟩
  · refine .bind (hleft (List.subset_cons_self ..) hhint) fun first first' hfirst => ?_
    rw [hfirst.type_eq]
    refine .bind (hright (List.Subset.refl _) (known_or hfirst.known
      (known_subset hhint (List.subset_cons_self ..)))) fun second second' hsecond => .pure ?_
    exact ⟨hfirst.among (among_of_subset (by grind)), hsecond.among (among_of_subset (by grind))⟩

theorem ofItems (h : ∀ expr ∈ exprs, par.Relates guides expr) (hhint : par.known guides hint) :
    par.Holds par.SameTerms (ofItems par.first exprs hint)
      (ofItems par.second (renamedAll par.newName exprs) hint) := by
  induction exprs with
  | nil =>
    simp only [renamedAll, Typed.ofItems]
    exact .pure rfl
  | cons expr rest ih =>
    obtain ⟨hexpr, hrest⟩ := List.forall_mem_cons.mp h
    simp only [renamedAll, Typed.ofItems, isParameter_renamed]
    refine .bind (hexpr (List.Subset.refl _) hhint) fun typed other halike =>
      .bind (ih hrest) fun _ _ hterms => .pure ?_
    simp only [SameTerms, renameAll, hterms]
    split
    · simp only [rename_asListItem, halike.rename_eq]
    · simp only [halike.rename_eq]

theorem ofList (h : ∀ expr ∈ exprs, par.Relates [] expr) (hhint : par.known [] hint) :
    par.Holds par.SameTerms (ofList par.first exprs hint)
      (ofList par.second (renamedAll par.newName exprs) hint) := by
  induction exprs with
  | nil =>
    simp only [renamedAll, Typed.ofList]
    exact .pure rfl
  | cons expr rest ih =>
    obtain ⟨hexpr, hrest⟩ := List.forall_mem_cons.mp h
    simp only [renamedAll, Typed.ofList]
    exact .bind (hexpr (List.Subset.refl _) hhint) fun _ _ halike => .bind (ih hrest)
      fun _ _ hterms => .pure (by simp only [SameTerms, renameAll, halike.rename_eq, hterms])

theorem ofPlain (h : ∀ expr ∈ exprs, expr.isParameter = false → par.Relates [] expr) :
    ∀ {all : List Expr}, exprs ⊆ all → par.Holds (par.DoneAlike all) (ofPlain par.first exprs)
      (ofPlain par.second (renamedAll par.newName exprs)) := by
  intro all hall
  induction exprs with
  | nil =>
    simp only [renamedAll, Typed.ofPlain]
    exact .pure .nil
  | cons expr rest ih =>
    obtain ⟨hexpr, hrest⟩ := List.forall_mem_cons.mp h
    obtain ⟨hmem, hsubset⟩ := List.cons_subset.mp hall
    simp only [renamedAll, Typed.ofPlain, isParameter_renamed]
    split
    · exact .bind (ih hrest hsubset) fun _ _ hdone => .pure (.cons .none hdone)
    · rename_i hplain
      exact .bind (hexpr (Bool.eq_false_iff.mpr hplain) (List.Subset.refl _) par.known_none)
        fun _ _ halike => .bind (ih hrest hsubset) fun _ _ hdone => .pure (.cons
          (.some (halike.among (among_of_subset (List.cons_subset.mpr ⟨hmem, List.nil_subset _⟩)))) hdone)

theorem ofSole (h : ∀ expr ∈ exprs, par.Relates [] expr) (hhint : par.known [] hint) :
    par.Holds (Option.Rel (par.Alike exprs)) (ofSole par.first exprs hint)
      (ofSole par.second (renamedAll par.newName exprs) hint) := by
  cases exprs with
  | nil =>
    simp only [renamedAll, Typed.ofSole]
    exact .pure .none
  | cons expr rest =>
    cases rest with
    | nil =>
      simp only [renamedAll, Typed.ofSole]
      exact .bind (h expr (.head _) (List.Subset.refl _) hhint) fun _ _ halike =>
        .pure (.some halike)
    | cons second rest =>
      simp only [renamedAll, Typed.ofSole]
      exact .pure .none

/-! ## Expressions -/

/-- No value but that of a path is tested for being empty. -/
theorem emptyTest_any (hcovers : par.covers guides expr) (negated : Bool) :
    par.Holds (par.Alike more) (Typed.emptyTest par.first expr negated)
      (Typed.emptyTest par.second (expr.renamed par.newName) negated) := by
  cases expr with
  | path segments =>
    rw [renamed]
    exact par.emptyTest negated hcovers
  | like subject pattern escape negated =>
    cases escape <;> rw [renamed] <;> exact .misuse
  | aggregate function distinct argument =>
    cases argument <;> rw [renamed] <;> exact .misuse
  | _ =>
    rw [renamed]
    exact .misuse

theorem call {arguments : List Expr} (hcovers : par.covers guides (.call name arguments))
    (h : ∀ child children, (child, children) ∈ (Expr.call name arguments).guided guides →
      par.Relates children child) :
    par.Holds (par.Alike (.call name arguments :: more))
      (Typed.ofExpr par.first (.call name arguments) hint)
      (Typed.ofExpr par.second (.call name (renamedAll par.newName arguments)) hint) := by
  simp only [Typed.ofExpr, isEmpty_renamedAll]
  have hmem {argument : Expr} (hargument : argument ∈ arguments) : (argument,
      if argument.isParameter then if Function.ofName? name = some .coalesce then arguments else []
        else []) ∈ (Expr.call name arguments).guided guides :=
    List.mem_map_of_mem hargument
  cases hfunction : Function.ofName? name with
  | none => exact .misuse
  | some function =>
    have hgivers {type : Option SemanticType} (htype : par.known arguments type)
        (hall : arguments = (Expr.call name arguments).givers) :
        par.known (.call name arguments :: more) type :=
      par.known_among (fun guide hguide => .inr ⟨_, .head _, hall ▸ hguide⟩) htype
    cases function with
    | unary hint result =>
      obtain ⟨hhint, hresult⟩ : par.known [] hint ∧ par.known [] result := known_unary hfunction
      have hplain : ∀ argument ∈ arguments, par.Relates [] argument := by
        intro argument hargument
        have hfound := h _ _ (hmem hargument)
        simpa [hfunction] using hfound
      refine .bind (ofSole hplain hhint) fun found other hfound => ?_
      cases hfound with
      | none => exact .fail
      | some halike =>
        refine .pure ⟨by simp only [halike.type_eq], ?_,
          by simp only [rename, renameAll, halike.rename_eq]⟩
        cases result with
        | some type => exact known_subset hresult (List.nil_subset _)
        | none => exact hgivers halike.known (by simp only [givers, hfunction])
    | coalesce =>
      simp only
      split
      · exact .fail
      · have hplain : ∀ argument ∈ arguments, argument.isParameter = false →
            par.Relates [] argument := by
          intro argument hargument hnot
          have hfound := h _ _ (hmem hargument)
          simpa [hnot] using hfound
        have hasked : ∀ argument ∈ arguments, argument.isParameter = true →
            par.covers arguments argument := by
          intro argument hargument hparameter
          have hfound := par.child hcovers (hmem hargument)
          simpa [hparameter, hfunction] using hfound
        refine .bind (ofPlain hplain (List.Subset.refl _)) fun done others hdone => ?_
        obtain ⟨htype, hknown⟩ := firstType_eq hdone
        simp only [htype]
        exact .bind (fillParameters hknown hasked hdone) fun _ _ hterms =>
          .pure ⟨rfl, hgivers hknown (by simp only [givers, hfunction]),
            by simp only [rename, hterms]⟩
    | concat =>
      simp only
      split
      · exact .fail
      · have hplain : ∀ argument ∈ arguments, par.Relates [] argument := by
          intro argument hargument
          have hfound := h _ _ (hmem hargument)
          simpa [hfunction] using hfound
        exact .bind (ofList hplain par.known_string) fun _ _ hterms =>
          .pure ⟨rfl, par.known_string, by simp only [rename, hterms]⟩

/-- What holds of the leaves holds of the expression. -/
theorem ofExpr (par : Parallel) (expr : Expr) :
    ∀ {guides : List Expr}, par.covers guides expr → par.Relates guides expr := by
  induction expr using induction with
  | step expr ih =>
  intro guides hcovers fewer hint hfewer hhint
  have hchild {child : Expr} {children : List Expr}
      (h : (child, children) ∈ expr.guided guides) : par.Relates children child :=
    ih child (mem_children_of_guided h) (par.child hcovers h)
  have hfirst {child : Expr} {children : List Expr} {type : Option SemanticType}
      (h : (child, children) ∈ expr.guided guides) (htype : par.known children type) :=
    hchild h (List.Subset.refl _) htype
  -- One case for each kind of expression, in the order of the definition.
  cases expr with
  | literal value =>
    simp only [renamed, Typed.ofExpr]
    exact .pure ⟨rfl, known_literalType value, rfl⟩
  | named name | ordinal position =>
    simp only [renamed, Typed.ofExpr]
    exact par.slot hcovers rfl hfewer hhint
  | legacy =>
    simp only [renamed, Typed.ofExpr]
    exact .fail
  | path path =>
    simp only [renamed, Typed.ofExpr]
    exact par.path hcovers
  | nested inner | negate inner =>
    simp only [renamed, Typed.ofExpr]
    exact .bind (hchild (.head _) hfewer hhint) fun _ _ h =>
      .pure ⟨h.type_eq, known_giver h.known (.head _), by simp only [rename, h.rename_eq]⟩
  | not inner =>
    simp only [renamed, Typed.ofExpr]
    exact .bind (hfirst (.head _) par.known_boolean) fun _ _ h =>
      .pure (boolean (by simp only [rename, h.rename_eq]))
  | logical op left right =>
    simp only [renamed, Typed.ofExpr]
    exact .bind (hfirst (.head _) par.known_boolean) fun _ _ hleft =>
      .bind (hfirst (.tail _ (.head _)) par.known_boolean) fun _ _ hright =>
        .pure (boolean (by simp only [rename, hleft.rename_eq, hright.rename_eq]))
  | compare op left right =>
    simp only [renamed, Typed.ofExpr, isParameter_renamed]
    exact .bind (operands (hchild (.head _)) (hchild (.tail _ (.head _)))
      par.known_none) fun _ _ h =>
        .pure (boolean (by simp only [rename, h.1.rename_eq, h.2.rename_eq]))
  | arithmetic op left right =>
    by_cases hop : op = .concat
    · subst hop
      simp only [renamed, Typed.ofExpr, isParameter_renamed]
      exact .bind (operands (hchild (.head _)) (hchild (.tail _ (.head _))) par.known_string)
        fun _ _ h => .pure ⟨rfl, par.known_string,
          by simp only [rename, renameAll, h.1.rename_eq, h.2.rename_eq]⟩
    · have hleft : par.Relates (right :: fewer) left :=
        (hchild (by simp [guided, hop])).anti (List.cons_subset_cons _ hfewer)
      have hright : par.Relates (left :: fewer) right :=
        (hchild (by simp [guided, hop])).anti (List.cons_subset_cons _ hfewer)
      have hamong : Among (left :: right :: fewer) (.arithmetic op left right :: fewer) := by
        simp only [Among, List.mem_cons, exists_eq_or_imp, givers, if_neg hop]
        grind
      simp only [renamed, Typed.ofExpr, isParameter_renamed]
      exact .bind (operands hleft hright hhint) fun _ _ h =>
        .pure ⟨by simp only [h.1.type_eq, h.2.type_eq],
          par.known_among hamong (known_resultType h.1.known h.2.known),
          by simp only [rename, h.1.rename_eq, h.2.rename_eq]⟩
  | like subject pattern escape negated =>
    cases escape with
    | none =>
      simp only [renamed, Typed.ofExpr, ofOption, pure_bind]
      exact .bind (hfirst (.head _) par.known_string) fun _ _ hsubject =>
        .bind (hfirst (.tail _ (.head _)) par.known_string) fun _ _ hpattern =>
          .pure (boolean (by
            simp only [Option.map_none, rename, hsubject.rename_eq, hpattern.rename_eq]))
    | some escape =>
      simp only [renamed, Typed.ofExpr, ofOption, bind_assoc, pure_bind]
      exact .bind (hfirst (.head _) par.known_string) fun _ _ hsubject =>
        .bind (hfirst (.tail _ (.head _)) par.known_string) fun _ _ hpattern =>
          .bind (hfirst (.tail _ (.tail _ (.head _))) par.known_string) fun _ _ hescape =>
            .pure (boolean (by
              simp only [Option.map_some, rename, hsubject.rename_eq, hpattern.rename_eq,
                hescape.rename_eq]))
  | inList subject items negated =>
    simp only [renamed, Typed.ofExpr]
    refine .bind (hfirst (.head _) par.known_none) fun typed other h => ?_
    rw [h.type_eq]
    exact .bind (ofItems
      (fun item hitem => hchild (List.mem_cons_of_mem _ (List.mem_map_of_mem hitem))) h.known)
      fun _ _ hitems => .pure (boolean (by simp only [rename, h.rename_eq, hitems]))
  | between subject low high negated =>
    simp only [renamed, Typed.ofExpr]
    refine .bind (hfirst (.head _) par.known_none) fun typed other h => ?_
    rw [h.type_eq]
    exact .bind (hfirst (.tail _ (.head _)) h.known) fun _ _ hlow =>
      .bind (hfirst (.tail _ (.tail _ (.head _))) h.known) fun _ _ hhigh =>
        .pure (boolean (by simp only [rename, h.rename_eq, hlow.rename_eq, hhigh.rename_eq]))
  | isNull subject negated =>
    by_cases hpath : ∃ path, subject = .path path
    · obtain ⟨path, rfl⟩ := hpath
      simp only [renamed, Typed.ofExpr]
      exact par.nullTest negated (par.child hcovers (.head _))
    · have hplain : ∀ path, subject = .path path → False := fun path h => hpath ⟨path, h⟩
      have hplain' : ∀ path, subject.renamed par.newName = .path path → False :=
        fun path h => hpath (exists_path_of_renamed h)
      simp only [renamed, Typed.ofExpr]
      exact .bind (hfirst (.head _) par.known_none) fun _ _ h =>
        .pure (boolean (by simp only [rename, h.rename_eq]))
  | isEmpty subject negated =>
    simp only [renamed, Typed.ofExpr]
    exact emptyTest_any (par.child hcovers (.head _)) negated
  | call name arguments =>
    simp only [renamed]
    exact call hcovers fun _ _ => hchild
  | aggregate function distinct argument =>
    cases argument with
    | none =>
      simp only [renamed]
      cases function with
      | count =>
        simp only [Typed.ofExpr]
        exact .pure ⟨rfl, par.known_integer, rfl⟩
      | _ =>
        simp only [Typed.ofExpr]
        exact .misuse
    | some argument =>
      simp only [renamed, Typed.ofExpr]
      refine .bind (hfirst (.head _) par.known_none) fun _ _ h =>
        .pure ⟨by simp only [h.type_eq], known_aggregateType fun hfunction => ?_,
          by simp only [rename, h.rename_eq]⟩
      exact known_giver (known_subset h.known (List.cons_subset_cons _ (List.nil_subset _)))
        (by simp [givers, hfunction])

theorem determined (par : Parallel) (hcovers : par.covers [] expr) :
    par.Holds (fun found other => other.2 = found.2
        ∧ other.1.rename par.names = found.1.rename par.names)
      (determined par.first expr) (determined par.second (expr.renamed par.newName)) := by
  refine .bind (par.ofExpr expr hcovers (List.Subset.refl _) par.known_none)
    fun typed other h => ?_
  rw [h.type_eq]
  cases typed.type with
  | some type => exact .pure ⟨rfl, h.rename_eq⟩
  | none => exact .fail

theorem condition (par : Parallel) {expr : Option Expr}
    (hcovers : ∀ found ∈ expr, par.covers [] found) :
    par.Holds (fun found other => other.map (rename par.names) = found.map (rename par.names))
      (condition par.first expr)
      (condition par.second (expr.map (renamed par.newName))) := by
  cases expr with
  | none =>
    simp only [Typed.condition, Option.map_none, ofOption, pure_bind]
    exact .pure rfl
  | some expr =>
    simp only [Typed.condition, Option.map_some, ofOption, bind_assoc, pure_bind]
    exact .bind (par.ofExpr expr (hcovers expr rfl) (List.Subset.refl _) par.known_boolean)
      fun _ _ h => .pure (by simp only [Option.map_some, h.rename_eq])

end Parallel

end Typed

end EntityQuery
