import EntityQuery.Proofs.Scope.Resolution
import EntityQuery.Typing

/-!
# What typing an expression does

Typing an expression resolves what it refers to: the term it gives refers to just
that, and each parameter of the expression is asked for in one place of the term
(`ofExpr_resolves`). This is a fact about every run from a valid scope, so it is
carried by one judgement, `Scoped.Resolving`, with a rule for each way of putting
runs together. The induction over expressions then reads like the definition of
typing itself.
-/

namespace EntityQuery

open List Sql Query

open Sql (Atom)

variable {s s' : Scope} {expr : Expr} {hint : Option SemanticType} {typed : Typed}

/-- Every run from a valid scope resolves the expressions. The result refers to
what was given before, and to what the expressions are resolved to. -/
def Scoped.Resolving {α : Type} (context : Context) (exprs : List Expr)
    (given : List Atom) (x : Scoped α) (atoms : α → List Atom) : Prop :=
  ∀ ⦃s s' : Scope⦄ ⦃a : α⦄, s.Valid → x.run s = .ok (a, s') →
    ∃ new, Resolves context s exprs new s' ∧ (given ++ new).Perm (atoms a)

namespace Scoped.Resolving

variable {α β : Type} {context : Context} {given : List Atom} {exprs rest : List Expr}
  {x : Scoped α} {f : α → Scoped β} {atoms : α → List Atom} {atoms' : β → List Atom}

theorem resolves {a : α} (hx : Resolving context exprs [] x atoms) (hvalid : s.Valid)
    (h : x.run s = .ok (a, s')) : Resolves context s exprs (atoms a) s' := by
  obtain ⟨new, hnew, hperm⟩ := hx hvalid h
  exact .perm (.refl _) hperm hnew

theorem pure {a : α} (h : given.Perm (atoms a)) :
    Resolving context [] given (Pure.pure a) atoms := by
  intro s s' b _ hrun
  obtain ⟨rfl, rfl⟩ := run_pure.mp hrun
  exact ⟨[], .nothing, by rwa [append_nil]⟩

theorem bindAll (hx : Resolving context exprs [] x atoms)
    (hf : ∀ a, Resolving context rest (given ++ atoms a) (f a) atoms') :
    Resolving context (exprs ++ rest) given (x >>= f) atoms' := by
  intro s s' b hvalid h
  obtain ⟨a, s₁, hrun, hrest⟩ := run_bind.mp h
  have hfirst := hx.resolves hvalid hrun
  obtain ⟨new, hsecond, hperm⟩ := hf a (hvalid.steps hfirst.steps) hrest
  exact ⟨atoms a ++ new, hfirst.append hsecond, by rwa [← append_assoc]⟩

theorem bind (hx : Resolving context [expr] [] x atoms)
    (hf : ∀ a, Resolving context rest (given ++ atoms a) (f a) atoms') :
    Resolving context (expr :: rest) given (x >>= f) atoms' :=
  bindAll hx hf

theorem step (hx : Resolving context [] [] x atoms)
    (hf : ∀ a, Resolving context exprs (given ++ atoms a) (f a) atoms') :
    Resolving context exprs given (x >>= f) atoms' :=
  bindAll hx hf

theorem last (hx : Resolving context exprs [] x atoms)
    (hf : ∀ a, Resolving context [] (given ++ atoms a) (f a) atoms') :
    Resolving context exprs given (x >>= f) atoms' :=
  append_nil exprs ▸ bindAll hx hf

theorem fail {fault : QueryFault} :
    Resolving context exprs given (Scoped.fail fault) atoms :=
  fun _ _ _ _ h => (not_run_fail h).elim

theorem misuse {fault : Misuse} :
    Resolving context exprs given (Scoped.misuse context fault) atoms :=
  fail

theorem perm {exprs' : List Expr} (hperm : exprs.Perm exprs')
    (h : Resolving context exprs given x atoms) : Resolving context exprs' given x atoms := by
  intro s s' a hvalid hrun
  obtain ⟨new, hnew, hatoms⟩ := h hvalid hrun
  exact ⟨new, .perm hperm (.refl _) hnew, hatoms⟩

/-- To resolve an expression that is neither a parameter nor a test of a collection
is to resolve what it is made of. -/
theorem children (hparameter : expr.parameter? = none) (htested : expr.tested? = none)
    (h : Resolving context expr.children given x atoms) :
    Resolving context [expr] given x atoms := by
  intro s s' a hvalid hrun
  obtain ⟨new, hnew, hatoms⟩ := h hvalid hrun
  exact ⟨new, .children hparameter htested hnew, hatoms⟩

theorem mapM {exprs : α → List Expr} {atoms : β → List Atom}
    (hf : ∀ a, Resolving context (exprs a) [] (f a) atoms) :
    ∀ as : List α, Resolving context (as.flatMap exprs) [] (as.mapM f) (·.flatMap atoms)
  | [] => by
    rw [mapM_nil]
    exact .pure (.refl _)
  | a :: rest => by
    rw [mapM_cons, flatMap_cons]
    exact .bindAll (hf a) fun b => .last (mapM hf rest) fun bs => .pure (by simp)

theorem mapM_expr {expr : α → Expr} {atoms : β → List Atom}
    (hf : ∀ a, Resolving context [expr a] [] (f a) atoms) (as : List α) :
    Resolving context (as.map expr) [] (as.mapM f) (·.flatMap atoms) := by
  rw [map_eq_flatMap]
  exact mapM hf as

/-- What a path denotes is resolved in the scope with the joins that the path
takes. -/
theorem resolve {path : List String} {f : Meaning → Scoped β} {atoms : β → List Atom}
    (hf : ∀ meaning s s' b, s.Valid → meaning.element ∈ s.elements → meaning.Declared path →
      (f meaning).run s = .ok (b, s') → Resolves context s exprs (atoms b) s') :
    Resolving context exprs [] (Scope.resolve context path >>= f) atoms := by
  intro s s' b hvalid h
  obtain ⟨meaning, s₁, hresolve, hrest⟩ := run_bind.mp h
  obtain ⟨hjoins, hmem⟩ := Scope.resolve_run hvalid hresolve
  have hdeclared := Scope.resolve_declared hresolve
  have hdenoted := hf meaning s₁ s' b (hvalid.joins hjoins) hmem hdeclared hrest
  exact ⟨atoms b, .append (.joins hjoins) hdenoted, .refl _⟩

end Scoped.Resolving

/-! ## Terms without parameters of filters -/

/-- In no dialect does the term ask for a parameter of a filter. -/
abbrev Sql.Term.Unfiltered (term : Term) : Prop :=
  ∀ dialect : Dialect, (term.template dialect).filterSlots = []

theorem Resolves.term_unfiltered {context : Context} {exprs : List Expr} {atoms : List Atom}
    {term : Term} (h : Resolves context s exprs atoms s') (hterm : term.atoms ⊆ atoms) :
    term.Unfiltered := by
  intro dialect
  rw [Template.filterSlots, term.slots_template dialect, filter_eq_nil_iff]
  intro parameter hparameter
  have hmem : parameter ∈ Atom.slots atoms := filterMap_subset _ hterm hparameter
  simp [h.unfiltered parameter hmem]

/-! ## Typing -/

namespace Typed

open Scoped

variable {context : Context}

def atoms (typed : Typed) : List Atom :=
  typed.term.atoms

theorem slotType_run {source : ParameterSource} {known found : SemanticType}
    (h : (slotType context source known).run s = .ok (found, s')) :
    s = s' ∧ ∀ t, (slotType context source known).run t = .ok (found, t) := by
  cases known with
  | entity name =>
    obtain ⟨target, s₁, htarget, h⟩ := run_bind.mp h
    obtain ⟨hentity, rfl⟩ := run_ofMapping.mp htarget
    obtain ⟨rfl, rfl⟩ := run_pure.mp h
    exact ⟨rfl, fun t => run_bind.mpr ⟨target, t, run_ofMapping.mpr ⟨hentity, rfl⟩, rfl⟩⟩
  | component name => exact (not_run_misuse h).elim
  | _ =>
    obtain ⟨rfl, rfl⟩ := run_pure.mp h
    exact ⟨rfl, fun _ => rfl⟩

/-- A parameter takes its type from the hint and leaves the scope as it is. -/
theorem parameter_run : (parameter context expr hint).run s = .ok (typed, s') ↔
    s = s' ∧ ∃ source known found, expr.parameter? = some source ∧ hint = some known
      ∧ (slotType context source known).run s = .ok (found, s)
      ∧ typed = ⟨.slot ⟨source, found, false⟩, some known⟩ := by
  have hslot : ∀ source, (slot context source hint).run s = .ok (typed, s') ↔
      s = s' ∧ ∃ known found, hint = some known
        ∧ (slotType context source known).run s = .ok (found, s)
        ∧ typed = ⟨.slot ⟨source, found, false⟩, some known⟩ := by
    intro source
    cases hint with
    | none => exact iff_of_false not_run_fail fun ⟨_, _, _, h, _⟩ => by cases h
    | some known =>
      refine run_bind.trans ⟨?_, ?_⟩
      · rintro ⟨found, s₁, hfound, h⟩
        obtain ⟨rfl, rfl⟩ := run_pure.mp h
        obtain ⟨rfl, -⟩ := slotType_run hfound
        exact ⟨rfl, known, found, rfl, hfound, rfl⟩
      · rintro ⟨rfl, _, found, ⟨rfl⟩, hfound, rfl⟩
        exact ⟨found, s, hfound, run_pure.mpr ⟨rfl, rfl⟩⟩
  cases expr with
  | named name => simpa [parameter, Expr.parameter?] using hslot (.named name)
  | ordinal position => simpa [parameter, Expr.parameter?] using hslot (.ordinal position)
  | _ => exact iff_of_false not_run_fail fun ⟨_, _, _, _, h, _⟩ => by cases h

/-- A parameter is taken over as it is, wherever it stands. -/
theorem parameter_resolves (h : (parameter context expr hint).run s = .ok (typed, s')) :
    Resolves context s [expr] typed.term.atoms s'
      ∧ Resolves context s [expr] typed.term.asListItem.atoms s' := by
  obtain ⟨rfl, source, known, found, hsource, -, -, rfl⟩ := parameter_run.mp h
  exact ⟨.parameter hsource, .parameter hsource⟩

theorem ofExpr_eq_parameter (h : expr.isParameter) :
    ofExpr context expr = parameter context expr := by
  funext hint
  cases expr with
  | named name | ordinal position | legacy => simp only [ofExpr, parameter]
  | _ => cases h

theorem denoted_resolves {path : List String} {meaning : Meaning}
    (hmem : meaning.element ∈ s.elements)
    (h : (denoted context path meaning).run s = .ok (typed, s')) :
    Resolves context s [] typed.term.atoms s' := by
  cases meaning with
  | column owner column type | entity element | reference owner property target column =>
    obtain ⟨rfl, rfl⟩ := run_pure.mp h
    exact .column hmem
  | component owner component fields | collection owner association => exact (not_run_misuse h).elim

theorem nullTest_resolves (path : List String) (negated : Bool) :
    Resolving context [.path path] [] (nullTest context path negated) atoms := by
  refine .children rfl rfl (.resolve fun meaning s s' typed hvalid hmem _ h => ?_)
  cases meaning with
  | component owner component fields =>
    obtain ⟨rfl, rfl⟩ := run_pure.mp h
    exact .columns hmem (forall_mem_map.mpr fun field _ => ⟨field.column, rfl⟩)
  | _ =>
    obtain ⟨found, s₁, hdenoted, h⟩ := run_bind.mp h
    obtain ⟨rfl, rfl⟩ := run_pure.mp h
    have hfound : Resolves context s [] found.term.atoms s₁ := denoted_resolves hmem hdenoted
    exact hfound

theorem elementTable?_run {association : Association} {found : Option (String × String)}
    (h : (elementTable? context association).run s = .ok (found, s')) :
    s = s' ∧ ∀ entry, found = some entry → context.model.Holds association entry.1 entry.2 := by
  cases association with
  | oneToMany target keyColumn =>
    obtain ⟨entity, s₁, hmapping, h⟩ := run_bind.mp h
    obtain ⟨hentity, rfl⟩ := run_ofMapping.mp hmapping
    obtain ⟨rfl, rfl⟩ := run_pure.mp h
    refine ⟨rfl, ?_⟩
    rintro _ ⟨rfl⟩
    exact .oneToMany hentity
  | manyToMany target table keyColumn elementColumn =>
    obtain ⟨rfl, rfl⟩ := run_pure.mp h
    refine ⟨rfl, ?_⟩
    rintro _ ⟨rfl⟩
    exact .manyToMany
  | manyToOne target column =>
    obtain ⟨rfl, rfl⟩ := run_pure.mp h
    exact ⟨rfl, nofun⟩

theorem emptyTest_resolves (expr : Expr) (negated : Bool) :
    Resolving context [.isEmpty expr negated] [] (emptyTest context expr negated) atoms := by
  unfold emptyTest
  split
  · refine .resolve fun meaning s s' typed hvalid hmem hdeclared h => ?_
    cases meaning with
    | collection owner association =>
      obtain ⟨found, s₁, hfound, h⟩ := run_bind.mp h
      obtain ⟨rfl, hholds⟩ := elementTable?_run hfound
      cases found with
      | none => exact (not_run_misuse h).elim
      | some entry =>
        simp only [run_bind, run_modify, run_pure] at h
        obtain ⟨_, _, rfl, tableAlias, s₂, halias, rfl, rfl⟩ := h
        obtain ⟨rfl, rfl⟩ := Scope.nextAlias_run halias
        exact .lookup hmem hdeclared (hholds entry rfl)
    | _ => exact (not_run_misuse h).elim
  · exact .misuse

theorem operands_resolves {left right : Expr}
    (hleft : ∀ hint, Resolving context [left] [] (ofExpr context left hint) atoms)
    (hright : ∀ hint, Resolving context [right] [] (ofExpr context right hint) atoms) :
    Resolving context [left, right] []
      (operands left.isParameter right.isParameter (ofExpr context left) (ofExpr context right)
        hint)
      fun pair => pair.1.atoms ++ pair.2.atoms := by
  unfold operands
  split
  · refine .perm (.swap ..) (.bind (hright _) fun second => .bind (hleft _) fun first => .pure ?_)
    exact perm_append_comm
  · exact .bind (hleft _) fun first => .bind (hright _) fun second => .pure (.refl _)

/-! ### Arguments of which the parameters are left to the end -/

/-- Arguments that are typed in the written order, a parameter by the type of the call and
any other argument alone. -/
inductive Arguments (context : Context) (type : Option SemanticType) :
    Scope → List Expr → List Typed → Scope → Prop where
  | nil {s : Scope} : Arguments context type s [] [] s
  | plain {s s₁ s' : Scope} {expr : Expr} {exprs : List Expr} {typed : Typed} {typeds : List Typed}
    (hexpr : expr.isParameter = false)
    (htyped : (ofExpr context expr none).run s = .ok (typed, s₁))
    (hrest : Arguments context type s₁ exprs typeds s') :
    Arguments context type s (expr :: exprs) (typed :: typeds) s'
  | parameter {s s' : Scope} {expr : Expr} {exprs : List Expr} {typeds : List Typed}
    {source : ParameterSource} {known found : SemanticType}
    (hexpr : expr.parameter? = some source) (htype : type = some known)
    (hfound : (slotType context source known).run s = .ok (found, s))
    (hrest : Arguments context type s exprs typeds s') :
    Arguments context type s (expr :: exprs)
      (⟨.slot ⟨source, found, false⟩, some known⟩ :: typeds) s'

/-- The arguments that are no parameters, each at its place. -/
def others (exprs : List Expr) (typeds : List Typed) : List (Option Typed) :=
  zipWith (fun expr typed => if expr.isParameter then none else some typed) exprs typeds

/-- Typing a parameter leaves the scope as it is, so leaving the parameters to the end is
the same as typing all arguments in the written order. -/
theorem arguments_of_run {type : Option SemanticType} : ∀ {exprs : List Expr} {s s' t t' : Scope}
    {done : List (Option Typed)} {terms : List Term},
    (ofPlain context exprs).run s = .ok (done, s') →
      (fillParameters context type exprs done).run t = .ok (terms, t') →
      t = t' ∧ ∃ typeds, Arguments context type s exprs typeds s'
        ∧ done = others exprs typeds ∧ terms = typeds.map (·.term)
  | [], _, _, _, _, _, _, hplain, hfill => by
    simp only [ofPlain] at hplain
    obtain ⟨rfl, rfl⟩ := run_pure.mp hplain
    obtain ⟨rfl, rfl⟩ := run_pure.mp hfill
    exact ⟨rfl, [], .nil, rfl, rfl⟩
  | expr :: rest, _, _, _, _, _, _, hplain, hfill => by
    simp only [ofPlain] at hplain
    split at hplain
    · rename_i hexpr
      simp only [run_bind, run_pure] at hplain
      obtain ⟨done, s₁, hdone, rfl, rfl⟩ := hplain
      simp only [fillParameters, run_bind, run_pure] at hfill
      obtain ⟨typed, t₁, htyped, terms, t₂, hterms, rfl, rfl⟩ := hfill
      obtain ⟨rfl, source, known, found, hsource, htype, hfound, rfl⟩ := parameter_run.mp htyped
      obtain ⟨rfl, typeds, harguments, rfl, rfl⟩ := arguments_of_run hdone hterms
      refine ⟨rfl, _, .parameter hsource htype ((slotType_run hfound).2 _) harguments, ?_, rfl⟩
      simp [others, hexpr]
    · rename_i hexpr
      simp only [run_bind, run_pure] at hplain
      obtain ⟨typed, s₁, htyped, done, s₂, hdone, rfl, rfl⟩ := hplain
      simp only [fillParameters, run_bind, run_pure] at hfill
      obtain ⟨terms, t₁, hterms, rfl, rfl⟩ := hfill
      obtain ⟨rfl, typeds, harguments, rfl, rfl⟩ := arguments_of_run hdone hterms
      refine ⟨rfl, typed :: typeds, .plain (by simpa using hexpr) htyped harguments, ?_, rfl⟩
      simp [others, hexpr]

-- One case for each kind of expression, in the order of the definition.
mutual

theorem ofExpr_resolves : ∀ (expr : Expr) (hint : Option SemanticType),
    Resolving context [expr] [] (ofExpr context expr hint) atoms
  | .literal value, _ => by
    simp only [ofExpr]
    exact .children rfl rfl (.pure (.refl _))
  | .named name, hint | .ordinal position, hint => by
    intro s s' typed _ h
    rw [ofExpr_eq_parameter rfl] at h
    exact ⟨_, (parameter_resolves h).1, .refl _⟩
  | .legacy, _ => by
    simp only [ofExpr]
    exact .fail
  | .path path, _ => by
    simp only [ofExpr]
    exact .children rfl rfl (.resolve fun meaning s s' typed _ hmem _ h => denoted_resolves hmem h)
  | .nested inner, hint | .negate inner, hint => by
    simp only [ofExpr]
    exact .children rfl rfl (.bind (ofExpr_resolves inner hint) fun typed => .pure (.refl _))
  | .not inner, _ | .aggregate _ _ (some inner), _ => by
    simp only [ofExpr]
    exact .children rfl rfl (.bind (ofExpr_resolves inner _) fun typed => .pure (.refl _))
  | .logical op left right, _ => by
    simp only [ofExpr]
    exact .children rfl rfl (.bind (ofExpr_resolves left _) fun first =>
      .bind (ofExpr_resolves right _) fun second => .pure (.refl _))
  | .compare op left right, _ => by
    simp only [ofExpr]
    exact .children rfl rfl (.bindAll (operands_resolves (ofExpr_resolves left)
      (ofExpr_resolves right)) fun pair => .pure (.refl _))
  | .arithmetic op left right, hint => by
    refine .children rfl rfl ?_
    by_cases hop : op = .concat
    · subst hop
      simp only [ofExpr]
      exact .bindAll (operands_resolves (ofExpr_resolves left) (ofExpr_resolves right))
        fun pair => .pure (by simp [atoms, Term.atoms, Term.atomsOf])
    · simp only [ofExpr]
      exact .bindAll (operands_resolves (ofExpr_resolves left) (ofExpr_resolves right))
        fun pair => .pure (by simp [atoms, Term.atoms])
  | .like subject pattern escape negated, _ => by
    simp only [ofExpr]
    refine .children rfl rfl (.bind (ofExpr_resolves subject _) fun typedSubject =>
      .bind (ofExpr_resolves pattern _) fun typedPattern =>
        .last (ofOption_resolves escape _) fun typedEscape => .pure ?_)
    cases typedEscape with
    | none | some typed => simp [atoms, boolean, Term.atoms]
  | .inList subject items negated, _ => by
    simp only [ofExpr]
    exact .children rfl rfl (.bind (ofExpr_resolves subject _) fun typed =>
      .last (ofItems_resolves items _) fun terms => .pure (.refl _))
  | .between subject low high negated, _ => by
    simp only [ofExpr]
    exact .children rfl rfl (.bind (ofExpr_resolves subject _) fun typed =>
      .bind (ofExpr_resolves low _) fun typedLow =>
        .bind (ofExpr_resolves high _) fun typedHigh => .pure (.refl _))
  | .isNull subject negated, _ => by
    refine .children rfl rfl ?_
    by_cases hpath : ∃ path, subject = .path path
    · obtain ⟨path, rfl⟩ := hpath
      simp only [ofExpr]
      exact nullTest_resolves path negated
    · have hpath' : ∀ path, subject = .path path → False :=
        fun path h => hpath ⟨path, h⟩
      rw [ofExpr]
      · exact .bind (ofExpr_resolves subject _) fun typed => .pure (.refl _)
      · exact hpath'
  | .isEmpty subject negated, _ => by
    simp only [ofExpr]
    exact emptyTest_resolves subject negated
  | .call name arguments, _ => by
    refine .children rfl rfl ?_
    simp only [ofExpr]
    split
    · exact .misuse
    · intro s s' typed hvalid h
      obtain ⟨found, s₁, hsole, h⟩ := run_bind.mp h
      cases found with
      | none => exact (not_run_fail h).elim
      | some sole =>
        obtain ⟨rfl, rfl⟩ := run_pure.mp h
        refine ⟨_, ofSole_resolves arguments _ hvalid hsole, ?_⟩
        simp [atoms, Term.atoms, Term.atomsOf]
    · split
      · exact .fail
      · intro s s' typed hvalid h
        simp only [run_bind, run_pure] at h
        obtain ⟨done, s₁, hplain, terms, s₂, hfill, rfl, rfl⟩ := h
        obtain ⟨rfl, typeds, harguments, -, rfl⟩ := arguments_of_run hplain hfill
        exact ⟨_, arguments_resolves arguments hvalid harguments, .refl _⟩
    · split
      · exact .fail
      · exact .last (ofList_resolves arguments _) fun terms => .pure (.refl _)
  | .aggregate function distinct none, _ => by
    refine .children rfl rfl ?_
    cases function with
    | count =>
      simp only [ofExpr]
      exact .pure (.refl _)
    | _ =>
      simp only [ofExpr]
      exact .misuse

theorem ofOption_resolves : ∀ (expr : Option Expr) (hint : Option SemanticType),
    Resolving context expr.toList [] (ofOption context expr hint)
      fun found => found.toList.flatMap atoms
  | none, _ => by
    simp only [ofOption]
    exact .pure (.refl _)
  | some expr, hint => by
    simp only [ofOption]
    exact .bind (ofExpr_resolves expr hint) fun typed => .pure (by simp)

/-- A list of one is resolved; of other lists nothing is given. -/
theorem ofSole_resolves : ∀ (exprs : List Expr) (hint : Option SemanticType)
    ⦃s s' : Scope⦄ ⦃typed : Typed⦄, s.Valid →
    (ofSole context exprs hint).run s = .ok (some typed, s') →
      Resolves context s exprs typed.atoms s'
  | [expr], hint, _, _, _, hvalid, h => by
    simp only [ofSole, run_bind, run_pure, Option.some.injEq] at h
    obtain ⟨found, s₁, hfound, rfl, rfl⟩ := h
    exact (ofExpr_resolves expr hint).resolves hvalid hfound
  | [], _, _, _, _, _, h | _ :: _ :: _, _, _, _, _, _, h => by
    simp only [ofSole] at h
    cases (run_pure.mp h).1

theorem ofItems_resolves : ∀ (items : List Expr) (hint : Option SemanticType),
    Resolving context items [] (ofItems context items hint) Term.atomsOf
  | [], _ => by
    simp only [ofItems]
    exact .pure (.refl _)
  | item :: rest, hint => by
    have hitem := ofExpr_resolves item hint
    have hrest := ofItems_resolves rest hint
    intro s s' terms hvalid h
    simp only [ofItems, run_bind, run_pure] at h
    obtain ⟨typed, s₁, htyped, others, s₂, hothers, rfl, rfl⟩ := h
    -- A parameter as an item is the same parameter, for any number of values.
    have hfirst : Resolves context s [item]
        (if item.isParameter then typed.term.asListItem else typed.term).atoms s₁ := by
      split
      · rename_i hparameter
        rw [ofExpr_eq_parameter hparameter] at htyped
        exact (parameter_resolves htyped).2
      · exact hitem.resolves hvalid htyped
    have hsecond := hrest.resolves (hvalid.steps hfirst.steps) hothers
    exact ⟨_, hfirst.append hsecond, .refl _⟩

theorem ofList_resolves : ∀ (exprs : List Expr) (hint : Option SemanticType),
    Resolving context exprs [] (ofList context exprs hint) Term.atomsOf
  | [], _ => by
    simp only [ofList]
    exact .pure (.refl _)
  | expr :: rest, hint => by
    simp only [ofList]
    exact .bind (ofExpr_resolves expr hint) fun typed =>
      .last (ofList_resolves rest hint) fun terms => .pure (.refl _)

theorem arguments_resolves {type : Option SemanticType} : ∀ (exprs : List Expr)
    ⦃s s' : Scope⦄ ⦃typeds : List Typed⦄, s.Valid → Arguments context type s exprs typeds s' →
      Resolves context s exprs (Term.atomsOf (typeds.map (·.term))) s'
  | [], _, _, _, _, .nil => .nothing
  | expr :: rest, _, _, _, hvalid, .plain _ htyped hrest => by
    have hfirst := (ofExpr_resolves expr none).resolves hvalid htyped
    exact hfirst.append (arguments_resolves rest (hvalid.steps hfirst.steps) hrest)
  | _ :: rest, _, _, _, hvalid, .parameter hsource _ _ hrest =>
    (Resolves.parameter hsource).append (arguments_resolves rest hvalid hrest)

end

theorem determined_resolves (expr : Expr) :
    Resolving context [expr] [] (determined context expr) fun found => found.1.atoms := by
  refine .bind (ofExpr_resolves expr none) fun typed => ?_
  split
  · exact .pure (.refl _)
  · exact .fail

theorem condition_resolves (expr : Option Expr) :
    Resolving context expr.toList [] (condition context expr) optionAtoms := by
  refine .last (ofOption_resolves expr _) fun found => .pure ?_
  cases found with
  | none | some typed => exact .refl _

end Typed

end EntityQuery
