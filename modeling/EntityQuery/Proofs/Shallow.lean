import EntityQuery.Proofs.Stages

/-!
# Shallow queries

In a shallow query an entity is selected by its identifier alone, and nothing is
fetched (`Lowered.SelectRun.flat`). The from clause has the same tables as
before. In the select list some implicit joins are left out: a reference to an
entity needs none when only the key is asked for. So the scopes of a query and of
the same query made shallow drift apart after the from clause, but they stay
twins, and each clause of the one is mirrored by the same clause of the other
(`Lowered.clauses_mirrors`).

A reference has the type of the entity that it names, and a joined entity has the
type of itself. They are the same where associations name entities by their own
names (`Metamodel.Exact`).
-/

namespace EntityQuery

open List Sql Atom Typed

open Scoped
open Sql (Atom)

/-- The same context, but entities are selected by their identifiers alone. -/
def Context.asShallow (context : Context) : Context :=
  { context with shallow := true }

namespace Typed

variable {context : Context}

/-- Expressions are typed in a shallow query side by side with any other. -/
def besideShallow (context : Context) : Parallel where
  Holds := Mirrors Eq
  done := Mirrors.pure
  andThen := Mirrors.bind
  failed {_ _ _ _ _} := Mirrors.fail
  first := context
  second := context.asShallow
  newName := id
  names := .same
  known _ _ := True
  covers _ _ := True
  child _ _ := trivial
  known_none := trivial
  known_plain _ := trivial
  known_among _ _ := trivial
  slot _ _ _ _ := .refl fun _ => ⟨rfl, trivial, rfl⟩
  path _ := by
    rw [Query.renamePath_id]
    exact .refl fun _ => ⟨rfl, trivial, rfl⟩
  nullTest negated _ := by
    rw [Query.renamePath_id]
    exact .refl fun _ => ⟨rfl, trivial, rfl⟩
  emptyTest negated _ := by
    rw [Query.renamePath_id]
    exact .refl fun _ => ⟨rfl, trivial, rfl⟩

theorem ofExpr_asShallow (expr : Query.Expr) (hint : Option SemanticType) :
    Mirrors Eq Eq (ofExpr context expr hint) (ofExpr context.asShallow expr hint) := by
  have h : Mirrors Eq (Like .same fun _ => True) (ofExpr context expr hint)
      (ofExpr context.asShallow (expr.renamed id) hint) :=
    (besideShallow context).ofExpr expr trivial (List.nil_subset []) trivial
  rw [Query.Expr.renamed_id] at h
  exact h.mono fun _ _ h => h.eq

theorem determined_asShallow (expr : Query.Expr) :
    Mirrors Eq Eq (determined context expr) (determined context.asShallow expr) := by
  refine .bind (ofExpr_asShallow expr none) ?_
  rintro typed _ rfl
  exact .refl fun _ => rfl

theorem condition_asShallow (expr : Option Query.Expr) :
    Mirrors Eq Eq (condition context expr) (condition context.asShallow expr) := by
  cases expr with
  | none =>
    simp only [condition, ofOption]
    exact .refl fun _ => rfl
  | some expr =>
    simp only [condition, ofOption, bind_assoc]
    refine .bind (ofExpr_asShallow expr _) ?_
    rintro typed _ rfl
    exact .refl fun _ => rfl

end Typed

/-! ## The from clause -/

namespace Lowered

variable {context : Context} {s s' : Scope} {clause clause' : FromClause}

/-- A fold that can be run can be run with other rounds that leave the same
scopes. -/
theorem exists_foldlM_run {α β γ : Type} {f : β → α → Scoped β} {g : γ → α → Scoped γ}
    (hround : ∀ a b b' s s', (f b a).run s = .ok (b', s') →
      ∀ c, ∃ c', (g c a).run s = .ok (c', s')) :
    ∀ {items : List α} {b b' : β} {s s' : Scope}, (items.foldlM f b).run s = .ok (b', s') →
      ∀ c, ∃ c', (items.foldlM g c).run s = .ok (c', s')
  | [], _, _, _, _, h, c => by
    obtain ⟨-, rfl⟩ := run_pure.mp h
    exact ⟨c, run_pure.mpr ⟨rfl, rfl⟩⟩
  | _ :: _, _, _, _, _, h, c => by
    obtain ⟨b₁, s₁, hfirst, hrest⟩ := run_foldlM_cons.mp h
    obtain ⟨c₁, hfirst'⟩ := hround _ _ _ _ _ hfirst c
    obtain ⟨c', hrest'⟩ := exists_foldlM_run hround hrest c₁
    exact ⟨c', run_foldlM_cons.mpr ⟨c₁, s₁, hfirst', hrest'⟩⟩

theorem exists_addJoin_asShallow {join : Query.Join}
    (h : (addJoin context clause join).run s = .ok (clause', s')) (other : FromClause) :
    ∃ found, (addJoin context.asShallow other join).run s = .ok (found, s') := by
  obtain ⟨owner, property, element, found, s₁, s₂, s₃, howner, hjoin, hfound, rfl, -⟩ :=
    addJoin_run h
  obtain ⟨_, _, hfound', rfl, rfl⟩ := condition_asShallow _ rfl hfound
  refine ⟨{ other with elements := other.elements ++ [element] }, ?_⟩
  refine run_bind.mpr ⟨(owner, property), s₁, howner, run_bind.mpr ⟨element, s₂, hjoin,
    run_bind.mpr ⟨found, s₃, hfound', ?_⟩⟩⟩
  have hplain : ¬(join.fetch && !context.asShallow.shallow) = true := by
    simp [Context.asShallow]
  simp only [if_neg hplain]
  cases found with
  | some term => exact run_bind.mpr ⟨(), _, run_modify.mpr rfl, run_pure.mpr ⟨rfl, rfl⟩⟩
  | none => exact run_pure.mpr ⟨rfl, rfl⟩

/-- The from clause of a shallow query has the same tables. -/
theorem exists_ranges_asShallow {ranges : List Query.Range}
    (h : (ranges.foldlM (addRange context) clause).run s = .ok (clause', s')) (other : FromClause) :
    ∃ found, (ranges.foldlM (addRange context.asShallow) other).run s = .ok (found, s') := by
  refine exists_foldlM_run (fun range _ _ _ _ hrange other => ?_) h other
  obtain ⟨root, s₁, hroot, hjoins⟩ := run_bind.mp hrange
  obtain ⟨found, hfound⟩ := exists_foldlM_run
    (fun _ _ _ _ _ hjoin => exists_addJoin_asShallow hjoin) hjoins
    { other with elements := other.elements ++ [root] }
  exact ⟨found, run_bind.mpr ⟨root, s₁, hroot, hfound⟩⟩

theorem fetches_of_shallow (hshallow : context.shallow) {ranges : List Query.Range}
    (h : (ranges.foldlM (addRange context) {}).run s = .ok (clause, s')) : clause.fetches = [] := by
  refine foldlM_invariant (motive := fun _ clause _ => clause.fetches = [])
    (fun _ hdone hrange => ?_) rfl h
  obtain ⟨root, s₁, -, hjoins⟩ := run_bind.mp hrange
  refine foldlM_invariant (motive := fun _ clause _ => clause.fetches = [])
    (fun {_ join _ _ _ _} _ hdone hjoin => ?_) hdone hjoins
  obtain ⟨owner, property, element, found, -, -, -, -, -, -, -, rfl⟩ := addJoin_run hjoin
  rw [hshallow, Bool.not_true, Bool.and_false, FromClause.withJoin, if_neg Bool.false_ne_true]
  exact hdone

end Lowered

/-! ## The select list -/

/-- Selected values of the same type that ask for the same parameters. -/
structure Selected.Alike (selected other : Selected) : Prop where
  type_eq : other.type = selected.type
  slots_eq : slots other.atoms = slots selected.atoms

namespace Selected

variable {context : Context} {base s s' t : Scope} {selected : Selected}

theorem slots_columns {α : Type} (items : List α) (column : α → ColumnRef) :
    slots ((items.map fun item => Term.column (column item)).flatMap Term.atoms)
      = [] := by
  rw [slots_flatMap, flatMap_map]
  exact flatMap_eq_nil_iff.mpr fun _ _ => rfl

theorem ofElement_eq {element : Element}
    (h : (ofElement context element).run s = .ok (selected, s')) :
    s = s' ∧ selected.type = .entity element.entity.name ∧ slots selected.atoms = [] := by
  unfold ofElement at h
  split at h
  · obtain ⟨rfl, rfl⟩ := run_pure.mp h
    exact ⟨rfl, rfl, rfl⟩
  · obtain ⟨⟨refs, layout⟩, s₁, hmapping, h⟩ := run_bind.mp h
    obtain ⟨-, rfl⟩ := run_ofMapping.mp hmapping
    obtain ⟨rfl, rfl⟩ := run_pure.mp h
    exact ⟨rfl, rfl, slots_columns refs id⟩

/-- The entity that a reference is joined to goes by the name of the reference. -/
theorem ofReference_eq {path : List String} {owner : Element} {property target key : String}
    (hexact : context.model.Exact) (hgrown : Scope.Grown context base s)
    (howner : owner ∈ s.elements)
    (hdeclared : (Meaning.reference owner property target key).Declared path)
    (h : (ofMeaning context path (.reference owner property target key)).run s
      = .ok (selected, s')) :
    Scope.Joins context s s' ∧ selected.type = .entity target
      ∧ slots selected.atoms = [] ∧ ∃ entity, context.model.entity target = .ok entity := by
  simp only [ofMeaning] at h
  split at h
  · obtain ⟨entity, s₁, hmapping, h⟩ := run_bind.mp h
    obtain ⟨hentity, rfl⟩ := run_ofMapping.mp hmapping
    obtain ⟨rfl, rfl⟩ := run_pure.mp h
    exact ⟨.refl, rfl, rfl, entity, hentity⟩
  · obtain ⟨joined, s₁, hjoin, h⟩ := run_bind.mp h
    obtain ⟨rfl, htype, hslots⟩ := ofElement_eq h
    -- The path and the join speak of the same association, and the model is exact about it.
    obtain ⟨hlast, name, found, hname, hfound, hkind⟩ := hdeclared
    obtain rfl := Option.some.inj (hlast.symm.trans hname)
    have hreaches := Scope.implicitJoin_reaches hgrown.valid hgrown.remembers howner hjoin
    obtain ⟨_, association, hfound', hkind', htarget⟩ := hreaches
    obtain rfl := Except.ok.inj (hfound.symm.trans hfound')
    obtain rfl := PropertyKind.association.inj (hkind.symm.trans hkind')
    obtain ⟨ownName, hown⟩ := hgrown.mapped owner howner
    have hnamed : joined.entity.name = target := hexact owner.entity (Metamodel.mem_entities hown)
      found (Entity.mem_of_property hfound) _ _ hkind htarget
    refine ⟨(Scope.implicitJoin_run hgrown.valid howner hjoin).1, ?_, hslots, _, htarget⟩
    rw [htype, hnamed]

theorem ofMeaning_twins {path : List String} {meaning other : Meaning}
    (hexact : context.model.Exact) (h : Scope.Twins context base s t) (halike : meaning.Alike other)
    (hmem : meaning.element ∈ s.elements) (hdeclared : meaning.Declared path)
    (hrun : (ofMeaning context path meaning).run s = .ok (selected, s')) :
    ∃ found t', (ofMeaning context.asShallow path other).run t = .ok (found, t')
      ∧ selected.Alike found ∧ Scope.Twins context base s' t' := by
  cases halike with
  | column htwin =>
    obtain ⟨rfl, rfl⟩ := run_pure.mp hrun
    exact ⟨_, t, run_pure.mpr ⟨rfl, rfl⟩, ⟨rfl, rfl⟩, h⟩
  | entity htwin =>
    obtain ⟨rfl, htype, hslots⟩ := ofElement_eq hrun
    refine ⟨_, t, run_pure.mpr ⟨rfl, rfl⟩, ⟨?_, hslots.symm⟩, h⟩
    rw [htype, ← htwin]
    rfl
  | @reference owner twin property target key htwin =>
    obtain ⟨hjoins, htype, hslots, entity, hentity⟩ :=
      ofReference_eq hexact h.left hmem hdeclared hrun
    refine ⟨reference (twin.column key) target entity.identifier.type, t, ?_,
      ⟨htype.symm, hslots.symm⟩, h.joins_left hjoins⟩
    exact run_bind.mpr ⟨entity, t, run_ofMapping.mpr ⟨hentity, rfl⟩, run_pure.mpr ⟨rfl, rfl⟩⟩
  | component htwin =>
    obtain ⟨rfl, rfl⟩ := run_pure.mp hrun
    refine ⟨_, t, run_pure.mpr ⟨rfl, rfl⟩, ⟨rfl, ?_⟩, h⟩
    exact (slots_columns _ _).trans (slots_columns _ _).symm
  | collection htwin => exact (not_run_misuse hrun).elim

/-- What an expression selects is alike in a shallow query. -/
theorem ofTarget_mirrors (hexact : context.model.Exact) (expr : Query.Expr) :
    Mirrors (Scope.Twins context base) Alike (ofTarget context (.expr expr))
      (ofTarget context.asShallow (.expr expr)) := by
  -- A path alone may be selected without a join; anything else is typed as it always is.
  by_cases hpath : ∃ path, expr = .path path
  · obtain ⟨path, rfl⟩ := hpath
    intro s t s' selected h hrun
    obtain ⟨meaning, s₁, hresolve, hrun⟩ := run_bind.mp hrun
    obtain ⟨other, t₁, hresolve', halike, h'⟩ := Scope.Twins.kinship.resolve h hresolve
    have hmem := (Scope.resolve_run h.left.valid hresolve).2
    obtain ⟨found, t', hfound, hboth⟩ := ofMeaning_twins hexact h' halike hmem
      (Scope.resolve_declared hresolve) hrun
    exact ⟨found, t', run_bind.mpr ⟨other, t₁, hresolve', hfound⟩, hboth⟩
  · have hexpr : ∀ context : Context, ofTarget context (.expr expr)
        = determined context expr >>= fun found => pure (scalar found.1 found.2) := by
      intro context
      cases expr with
      | path path => exact absurd ⟨path, rfl⟩ hpath
      | _ => rfl
    rw [hexpr, hexpr]
    refine .bind ((determined_mirrors Scope.Twins.kinship expr).trans
      (determined_asShallow expr)) fun found other hfound => .pure ⟨hfound.1, ?_⟩
    simp only [scalar, atoms, flatMap_singleton]
    exact Term.slots_eq_of_bare hfound.2

end Selected

/-- Select lists with the same types and aliases that ask for the same
parameters. -/
structure Projection.Alike (projection other : Projection) : Prop where
  returns_eq : (other.returns.map fun value => (value.type, value.alias?))
    = projection.returns.map fun value => (value.type, value.alias?)
  slots_eq : slots other.atoms = slots projection.atoms

namespace Projection

variable {context : Context} {base s s' : Scope} {projection projection' other : Projection}

theorem Alike.addReturn {selected selected' : Selected} (h : projection.Alike other)
    (hselected : selected.Alike selected') (alias? : Option String) :
    (projection.addReturn selected alias?).Alike (other.addReturn selected' alias?) where
  returns_eq := by
    simp only [Projection.addReturn, map_append, h.returns_eq, map_cons, map_nil, hselected.type_eq]
  slots_eq := by
    rw [atoms_addReturn, atoms_addReturn, slots_append, slots_append, h.slots_eq,
      hselected.slots_eq]

/-- Fetched associations add columns alone. -/
theorem fetches_alike {fetches : List FetchJoin} (hdone : projection.Alike other)
    (h : (fetches.foldlM (selectFetch context) projection).run s = .ok (projection', s')) :
    s = s' ∧ projection'.Alike other := by
  refine foldlM_invariant (motive := fun _ p s₁ => s = s₁ ∧ p.Alike other)
    (fun _ hkept hround => ?_) ⟨rfl, hdone⟩ h
  obtain ⟨rfl, halike⟩ := hkept
  unfold selectFetch at hround
  split at hround
  · exact (not_run_misuse hround).elim
  · obtain ⟨⟨refs, layout⟩, s₁, hmapping, hround⟩ := run_bind.mp hround
    obtain ⟨-, rfl⟩ := run_ofMapping.mp hmapping
    obtain ⟨rfl, rfl⟩ := run_pure.mp hround
    refine ⟨rfl, halike.returns_eq, ?_⟩
    rw [atoms_addFetch, slots_append, halike.slots_eq]
    exact (congrArg (_ ++ ·) (slots_map_column id refs)).trans (append_nil _) |>.symm

theorem select_mirrors (hexact : context.model.Exact) (clause : Query.SelectClause)
    (elements elements' : List Element) (fetches : List FetchJoin) :
    Mirrors (Scope.Twins context base) Alike
      (select context (Lowered.items (some clause) elements) fetches)
      (select context.asShallow (Lowered.items (some clause) elements') []) := by
  unfold select Lowered.items
  simp only [foldlM_map]
  refine .bind
    (.foldlM (R := Alike) (fun item found found' hfound => ?_) clause.items ⟨rfl, rfl⟩) ?_
  · exact .bind (Selected.ofTarget_mirrors hexact item.expr) fun selected selected' hselected =>
      .pure (hfound.addReturn hselected item.alias?)
  · intro found found' hfound s t s' projection htwins hrun
    obtain ⟨rfl, halike⟩ := fetches_alike hfound hrun
    exact ⟨found', t, run_pure.mpr ⟨rfl, rfl⟩, halike, htwins⟩

end Projection

/-! ## All clauses -/

namespace Lowered

structure Clauses where
  projection : Projection
  condition : Option Term
  groupBy : List Term
  having : Option Term
  orderBy : List (Term × Bool)

def clauses (context : Context) (select : Query.Select) (clause : FromClause) : Scoped Clauses := do
  let projection ← Projection.select context (items select.clause clause.elements) clause.fetches
  let condition ← Typed.condition context select.condition
  let groupBy ← terms context select.groupBy
  let having ← Typed.condition context select.having
  let orderBy ← orderTerms context select.orderBy
  return { projection, condition, groupBy, having, orderBy }

/-- Clauses whose select lists are alike and that ask for the same parameters. -/
structure Clauses.Alike (found other : Clauses) : Prop where
  projection : found.projection.Alike other.projection
  condition : slots (optionAtoms other.condition)
    = slots (optionAtoms found.condition)
  groupBy : slots (other.groupBy.flatMap Term.atoms)
    = slots (found.groupBy.flatMap Term.atoms)
  having : slots (optionAtoms other.having) = slots (optionAtoms found.having)
  orderBy : slots (other.orderBy.flatMap fun item => item.1.atoms)
    = slots (found.orderBy.flatMap fun item => item.1.atoms)

variable {context : Context} {base : Scope} {select : Query.Select}

theorem condition_mirrors (expr : Option Query.Expr) :
    Mirrors (Scope.Twins context base)
      (fun found other => slots (optionAtoms other) = slots (optionAtoms found))
      (Typed.condition context expr) (Typed.condition context.asShallow expr) := by
  refine ((Typed.condition_mirrors Scope.Twins.kinship expr).trans
    (Typed.condition_asShallow expr)).mono fun found other h => ?_
  cases found with
  | none => rw [Option.map_eq_none_iff.mp h]
  | some term =>
    obtain ⟨term', rfl, hbare⟩ := Option.map_eq_some_iff.mp h
    simp only [optionAtoms, Option.toList_some, flatMap_singleton]
    exact Term.slots_eq_of_bare hbare

theorem slots_flatMap_eq {α : Type} {atoms : α → List Atom} {items others : List α}
    (h : List.Forall₂ (fun item other => slots (atoms other) = slots (atoms item)) items others) :
    slots (others.flatMap atoms) = slots (items.flatMap atoms) := by
  induction h with
  | nil => rfl
  | cons hfirst _ ih =>
    rw [flatMap_cons, flatMap_cons, slots_append, slots_append, hfirst, ih]

theorem terms_mirrors (exprs : List Query.Expr) :
    Mirrors (Scope.Twins context base) (fun found other =>
        slots (other.flatMap Term.atoms) = slots (found.flatMap Term.atoms))
      (terms context exprs) (terms context.asShallow exprs) := by
  refine (Mirrors.mapM (fun expr => ?_) exprs).mono fun _ _ => slots_flatMap_eq
  exact .bind ((ofExpr_mirrors Scope.Twins.kinship expr none).trans
    (ofExpr_asShallow expr none)) fun _ _ h =>
      .pure (Term.slots_eq_of_bare h.rename_eq)

theorem orderTerms_mirrors (orderItems : List Query.OrderItem) :
    Mirrors (Scope.Twins context base)
      (fun found other => slots (other.flatMap fun item => item.1.atoms)
        = slots (found.flatMap fun item => item.1.atoms))
      (orderTerms context orderItems) (orderTerms context.asShallow orderItems) := by
  refine (Mirrors.mapM (fun item => ?_) orderItems).mono fun _ _ => slots_flatMap_eq
  exact .bind ((ofExpr_mirrors Scope.Twins.kinship item.expr none).trans
    (ofExpr_asShallow item.expr none)) fun _ _ h =>
      .pure (Term.slots_eq_of_bare h.rename_eq)

theorem clauses_mirrors (hexact : context.model.Exact) (hclause : select.clause.isSome)
    (clause : FromClause) {clause' : FromClause} (hfetches : clause'.fetches = []) :
    Mirrors (Scope.Twins context base) Clauses.Alike (clauses context select clause)
      (clauses context.asShallow select clause') := by
  obtain ⟨list, hlist⟩ := Option.isSome_iff_exists.mp hclause
  unfold clauses
  rw [hlist, hfetches]
  exact .bind (Projection.select_mirrors hexact list _ _ _) fun _ _ hprojection =>
    .bind (condition_mirrors _) fun _ _ hcondition =>
      .bind (terms_mirrors _) fun _ _ hgroupBy =>
        .bind (condition_mirrors _) fun _ _ hhaving =>
          .bind (orderTerms_mirrors _) fun _ _ horderBy =>
            .pure ⟨hprojection, hcondition, hgroupBy, hhaving, horderBy⟩

/-- A select is its from clause, its clauses, and the filters on the scope that
they leave. -/
theorem ofSelect_eq (context : Context) (select : Query.Select) :
    ofSelect context select = do
      let clause ← select.ranges.foldlM (addRange context) {}
      let found ← clauses context select clause
      let (scope, filters) ← ofMapping ((← get).filtered context.filters)
      return {
        kind := .select found.projection.fetchesCollection
        statements := [.select {
          distinct := select.clause.any (·.distinct)
          columns := found.projection.columns
          ranges := scope.ranges
          condition := found.condition
          filters
          groupBy := found.groupBy
          having := found.having
          orderBy := found.orderBy }]
        tables := scope.tables
        returns := found.projection.returns
        fetches := found.projection.fetches
        shape := select.clause.bind (·.shape) } := by
  simp only [ofSelect, clauses, bind_assoc, pure_bind]

namespace SelectRun

variable (run : SelectRun context select)

def clauses : Clauses where
  projection := run.projection
  condition := run.condition
  groupBy := run.groupBy
  having := run.having
  orderBy := run.orderBy

theorem clauses_run :
    (Lowered.clauses context select run.clause).run run.afterFrom
      = .ok (run.clauses, run.scope) :=
  run_bind.mpr ⟨_, _, run.listRun, run_bind.mpr ⟨_, _, run.whereRun, run_bind.mpr
    ⟨_, _, run.groupRun, run_bind.mpr ⟨_, _, run.havingRun, run_bind.mpr
      ⟨_, _, run.orderRun, run_pure.mpr ⟨rfl, rfl⟩⟩⟩⟩⟩⟩

end SelectRun

section

variable {clause : FromClause} {found : Clauses} {s : Scope}

theorem ofSelect_run
    (hfrom : (select.ranges.foldlM (addRange context) {}).run {} = .ok (clause, base))
    (hclauses : (clauses context select clause).run base = .ok (found, s)) {filtered : Scope}
    {filters : List Template} (hfilters : s.filtered context.filters = .ok (filtered, filters)) :
    ∃ run : SelectRun context select, run.clauses = found ∧ run.afterFrom = base
      ∧ run.scope = s ∧ (ofSelect context select).run {} = .ok (run.lowered, s) := by
  have hruns := hclauses
  simp only [clauses, run_bind, run_pure] at hruns
  obtain ⟨projection, s₁, hlist, condition, s₂, hwhere, groupBy, s₃, hgroup, having, s₄, hhaving,
    orderBy, s₅, horder, rfl, rfl⟩ := hruns
  refine ⟨⟨clause, base, hfrom, projection, s₁, hlist, condition, s₂, hwhere, groupBy, s₃, hgroup,
    having, s₄, hhaving, orderBy, s₅, horder, filtered, filters, hfilters⟩, rfl, rfl, rfl, ?_⟩
  rw [ofSelect_eq]
  exact run_bind.mpr ⟨clause, base, hfrom, run_bind.mpr ⟨_, s₅, hclauses, run_bind.mpr
    ⟨s₅, s₅, run_get.mpr ⟨rfl, rfl⟩, run_bind.mpr
      ⟨(filtered, filters), s₅, run_ofMapping.mpr ⟨hfilters, rfl⟩, run_pure.mpr ⟨rfl, rfl⟩⟩⟩⟩⟩

/-- When all clauses are resolved, a select can still fail over a filter. -/
theorem ofSelect_run_error
    (hfrom : (select.ranges.foldlM (addRange context) {}).run {} = .ok (clause, base))
    (hclauses : (clauses context select clause).run base = .ok (found, s))
    {fault : MappingFault} (hfilters : s.filtered context.filters = .error fault) :
    (ofSelect context select).run {} = .error (.mapping fault) := by
  rw [ofSelect_eq, run_bind_of_ok hfrom, run_bind_of_ok hclauses,
    run_bind_of_ok (run_get.mpr ⟨rfl, rfl⟩), hfilters]
  rfl

end

namespace SelectRun

variable (run : SelectRun context select)

/-- All clauses of a select can be resolved in a shallow query, in a twin of its
scope. -/
theorem exists_clauses_asShallow (hexact : context.model.Exact) (hclause : select.clause.isSome) :
    ∃ clause found t,
      (select.ranges.foldlM (addRange context.asShallow) {}).run {} = .ok (clause, run.afterFrom)
      ∧ (Lowered.clauses context.asShallow select clause).run run.afterFrom = .ok (found, t)
      ∧ run.clauses.Alike found ∧ Scope.Twins context run.afterFrom run.scope t := by
  obtain ⟨clause, hfrom⟩ := exists_ranges_asShallow run.fromRun {}
  have hgrown := (FromClause.visited_of_run run.fromRun).grown
  have htwins : Scope.Twins context run.afterFrom run.afterFrom run.afterFrom :=
    ⟨hgrown, hgrown, fun element helement => ⟨element, helement, rfl⟩⟩
  obtain ⟨found, t, hclauses, hboth⟩ := clauses_mirrors hexact hclause run.clause
    (fetches_of_shallow rfl hfrom) htwins run.clauses_run
  exact ⟨clause, found, t, hfrom, hclauses, hboth⟩

end SelectRun

end Lowered

/-! ## What a shallow query returns -/

/-- Each returned value is made of a fixed number of columns, and nothing is
fetched. -/
structure Projection.Flat (projection : Projection) : Prop where
  returns : ∀ value ∈ projection.returns, ∃ shape, value.shape = .columns shape
  fetches : projection.fetches = []

theorem Lowered.SelectRun.flat {context : Context} {select : Query.Select}
    (run : SelectRun context select) (hshallow : context.shallow) : run.projection.Flat := by
  constructor
  · intro value hvalue
    cases hshape : value.shape with
    | columns shape => exact ⟨shape, rfl⟩
    | entity layout =>
      rw [run.list_resolved.deep value hvalue layout hshape] at hshallow
      cases hshallow
  · obtain ⟨projection, s, hitems, hfetches⟩ := run_bind.mp run.listRun
    rw [fetches_of_shallow hshallow run.fromRun] at hfetches
    obtain ⟨rfl, -⟩ := run_pure.mp hfetches
    refine foldlM_invariant (motive := fun _ projection _ => projection.fetches = [])
      (fun _ hdone hround => ?_) rfl hitems
    obtain ⟨selected, s₁, -, hround⟩ := run_bind.mp hround
    obtain ⟨rfl, -⟩ := run_pure.mp hround
    exact hdone

end EntityQuery
