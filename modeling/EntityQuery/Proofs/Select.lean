import EntityQuery.Proofs.Bulk
import EntityQuery.Proofs.FromClause
import EntityQuery.Proofs.Projection
import EntityQuery.Proofs.Scope.Ranges

/-!
# The stages of compiling a select

`Lowered.SelectRun` records how a select was compiled: what each clause was
resolved to, the scope that each stage left behind, and the filters that were
put on the last of them. Every select that compiles has such a record
(`exists_selectRun`, `exists_selectRun_of_compile`), so that what is true of
all records is true of all compiled selects.

The tables of the statement are those of `SelectRun.scope`, the scope after
all clauses. None comes in after that.
-/

namespace EntityQuery

open List Sql

namespace Lowered

open Scoped

structure SelectRun (context : Context) (select : Query.Select) where
  clause : FromClause
  afterFrom : Scope
  fromRun : (select.ranges.foldlM (addRange context) {}).run {} = .ok (clause, afterFrom)
  projection : Projection
  afterList : Scope
  listRun : (Projection.select context (items select.clause clause.elements) clause.fetches).run
    afterFrom = .ok (projection, afterList)
  condition : Option Term
  afterWhere : Scope
  whereRun : (Typed.condition context select.condition).run afterList = .ok (condition, afterWhere)
  groupBy : List Term
  afterGroup : Scope
  groupRun : (terms context select.groupBy).run afterWhere = .ok (groupBy, afterGroup)
  having : Option Term
  afterHaving : Scope
  havingRun : (Typed.condition context select.having).run afterGroup = .ok (having, afterHaving)
  orderBy : List (Term × Bool)
  scope : Scope
  orderRun : (orderTerms context select.orderBy).run afterHaving = .ok (orderBy, scope)
  filtered : Scope
  filters : List Template
  filterRun : scope.filtered context.filters = .ok (filtered, filters)

namespace SelectRun

variable {context : Context} {select : Query.Select} (run : SelectRun context select)

def sql : Select where
  distinct := select.clause.any (·.distinct)
  columns := run.projection.columns
  ranges := run.filtered.ranges
  condition := run.condition
  filters := run.filters
  groupBy := run.groupBy
  having := run.having
  orderBy := run.orderBy

def lowered : Lowered where
  kind := .select run.projection.fetchesCollection
  statements := [.select run.sql]
  tables := run.filtered.tables
  returns := run.projection.returns
  fetches := run.projection.fetches
  shape := select.clause.bind (·.shape)

end SelectRun

theorem exists_selectRun {context : Context} {select : Query.Select} {lowered : Lowered}
    {s : Scope} (h : (ofSelect context select).run {} = .ok (lowered, s)) :
    ∃ run : SelectRun context select, run.lowered = lowered ∧ run.scope = s := by
  obtain ⟨clause, s₁, hfrom, h⟩ := run_bind.mp h
  obtain ⟨projection, s₂, hlist, h⟩ := run_bind.mp h
  obtain ⟨condition, s₃, hwhere, h⟩ := run_bind.mp h
  obtain ⟨groupBy, s₄, hgroup, h⟩ := run_bind.mp h
  obtain ⟨having, s₅, hhaving, h⟩ := run_bind.mp h
  obtain ⟨orderBy, s₆, horder, h⟩ := run_bind.mp h
  obtain ⟨s₇, _, hget, h⟩ := run_bind.mp h
  obtain ⟨rfl, rfl⟩ := run_get.mp hget
  obtain ⟨⟨filtered, filters⟩, s₈, hmapping, h⟩ := run_bind.mp h
  obtain ⟨hfilters, rfl⟩ := run_ofMapping.mp hmapping
  obtain ⟨rfl, rfl⟩ := run_pure.mp h
  exact ⟨⟨clause, s₁, hfrom, projection, s₂, hlist, condition, s₃, hwhere, groupBy, s₄, hgroup,
    having, s₅, hhaving, orderBy, s₆, horder, filtered, filters, hfilters⟩, rfl, rfl⟩

theorem terms_resolves {context : Context} (exprs : List Query.Expr) :
    Resolving context exprs [] (terms context exprs) (·.flatMap Term.atoms) := by
  have hterm : ∀ expr : Query.Expr, Resolving context [expr] []
      (do return (← Typed.ofExpr context expr none).term) Term.atoms :=
    fun expr => .bind (Typed.ofExpr_resolves expr none) fun typed => .pure (.refl _)
  have hterms := Resolving.mapM_expr hterm exprs
  rwa [map_id'] at hterms

theorem orderTerms_resolves {context : Context} (orderItems : List Query.OrderItem) :
    Resolving context (orderItems.map (·.expr)) [] (orderTerms context orderItems)
      (·.flatMap fun item => item.1.atoms) := by
  refine .mapM_expr (fun item => ?_) orderItems
  exact .bind (Typed.ofExpr_resolves item.expr none) fun typed => .pure (.refl _)

/-- Without a select clause there are no expressions to select. -/
theorem exprs_items (clause : Option Query.SelectClause) (elements : List Element) :
    (items clause elements).flatMap (·.1.exprs) = clause.toList.flatMap (·.exprs) := by
  cases clause with
  | none => simp [items, flatMap_map, Target.exprs]
  | some clause =>
    rw [items, flatMap_map, Option.toList_some, flatMap_singleton,
      Query.SelectClause.exprs, map_eq_flatMap]
    rfl

namespace SelectRun

variable {context : Context} {select : Query.Select} (run : SelectRun context select)

/-! ## The scope after all clauses -/

theorem exists_marks_afterFrom : ∃ marks, run.clause.Sound context run.afterFrom marks
    ∧ marks.filterMap id = select.ranges.flatMap (·.joins) :=
  FromClause.sound_of_run run.fromRun

theorem valid_afterFrom : run.afterFrom.Valid := by
  obtain ⟨marks, hsound, -⟩ := run.exists_marks_afterFrom
  exact hsound.valid

/-- The tables that are selected are tables of the scope. -/
theorem list_resolved : run.projection.Resolved context run.afterFrom
    (select.clause.toList.flatMap (·.exprs)) run.afterList := by
  obtain ⟨marks, hsound, -⟩ := run.exists_marks_afterFrom
  rw [← exprs_items select.clause run.clause.elements]
  refine Projection.select_run hsound.valid ?_ (fun join hjoin => (hsound.fetches_mem join hjoin).1)
    run.listRun
  intro item hitem element helement
  unfold items at hitem
  split at hitem
  · obtain ⟨selectItem, -, rfl⟩ := mem_map.mp hitem
    cases helement
  · obtain ⟨found, hfound, rfl⟩ := mem_map.mp hitem
    obtain rfl := Target.element.inj helement
    exact hsound.elements_mem found hfound

theorem valid_afterList : run.afterList.Valid :=
  run.valid_afterFrom.steps run.list_resolved.resolves.steps

/-- The clauses after the select list are resolved one after the other. -/
theorem clauses_resolve :
    Resolves context run.afterList select.condition.toList (optionAtoms run.condition)
      run.afterWhere
    ∧ Resolves context run.afterWhere select.groupBy (run.groupBy.flatMap Term.atoms)
      run.afterGroup
    ∧ Resolves context run.afterGroup select.having.toList (optionAtoms run.having)
      run.afterHaving
    ∧ Resolves context run.afterHaving (select.orderBy.map (·.expr))
      (run.orderBy.flatMap fun item => item.1.atoms) run.scope := by
  have hvalid := run.valid_afterList
  have hwhere := (Typed.condition_resolves _).resolves hvalid run.whereRun
  have hvalid₁ := hvalid.steps hwhere.steps
  have hgroup := (terms_resolves _).resolves hvalid₁ run.groupRun
  have hvalid₂ := hvalid₁.steps hgroup.steps
  have hhaving := (Typed.condition_resolves _).resolves hvalid₂ run.havingRun
  have horder := (orderTerms_resolves _).resolves (hvalid₂.steps hhaving.steps) run.orderRun
  exact ⟨hwhere, hgroup, hhaving, horder⟩

theorem rest_resolves : Resolves context run.afterList
    (select.condition.toList ++ select.groupBy ++ select.having.toList
      ++ select.orderBy.map (·.expr))
    (optionAtoms run.condition ++ run.groupBy.flatMap Term.atoms
      ++ optionAtoms run.having ++ run.orderBy.flatMap fun item => item.1.atoms)
    run.scope := by
  obtain ⟨hwhere, hgroup, hhaving, horder⟩ := run.clauses_resolve
  exact ((hwhere.append hgroup).append hhaving).append horder

/-- All that stands in the clauses of the statement is resolved from the clauses
of the query, after the from clause. -/
theorem resolves : Resolves context run.afterFrom select.clauseExprs
    run.sql.clauseAtoms run.scope := by
  have hboth := run.list_resolved.resolves.append run.rest_resolves
  simp only [← append_assoc] at hboth
  exact hboth

theorem steps : Scope.Steps context run.afterFrom run.scope :=
  run.resolves.steps

theorem valid : run.scope.Valid :=
  run.valid_afterFrom.steps run.steps

theorem valid_filtered : run.filtered.Valid :=
  Scope.filtered_valid run.valid run.filterRun

theorem agrees : run.projection.Agrees context.model run.scope.elements :=
  run.list_resolved.agrees.mono run.rest_resolves.steps.elements_subset

/-- Each join of the query made one table, in order, and carries its condition;
no other table carries one. -/
theorem exists_marks : ∃ marks,
    List.Forall₂ (ScopeEntry.Accounted context) run.scope.entries marks
      ∧ marks.filterMap id = select.ranges.flatMap (·.joins) := by
  obtain ⟨marks, hsound, hmarks⟩ := run.exists_marks_afterFrom
  obtain ⟨n, hsound'⟩ := hsound.steps run.steps
  exact ⟨_, hsound'.accounted, by simpa using hmarks⟩

theorem mapped {element : Element} (h : element ∈ run.scope.elements) :
    ∃ name, context.model.entity name = .ok element.entity := by
  obtain ⟨entry, hentry, rfl⟩ := mem_map.mp h
  obtain ⟨marks, haccounted, -⟩ := run.exists_marks
  obtain ⟨mark, -, hmark⟩ := exists_right_of_forall₂ haccounted hentry
  exact hmark.mapped

theorem bulk_eq_false : run.scope.bulk = false := by
  obtain ⟨marks, hsound, -⟩ := run.exists_marks_afterFrom
  rw [run.steps.bulk_eq, hsound.bulk_eq]

theorem mentions {element : Element} (h : element ∈ run.scope.elements) :
    run.sql.Mentions element :=
  run.valid_filtered.mentions rfl (Scope.filtered_elements run.filterRun ▸ h)

end SelectRun

end Lowered

/-! ## Plans of selects -/

namespace Plan

variable {compiler : Compiler} {identifier query : String}
  {substitutions : List (String × String)} {plan : Plan}

/-- What a query text is compiled against; the text is the one after
substitution. -/
def Compiler.context (compiler : Compiler) (text : String) : Context :=
  ⟨compiler.model, compiler.filters, text, compiler.shallow⟩

theorem compile_eq_ok (h : compile compiler identifier query substitutions = .ok plan) :
    ∃ text statement lowered s, substituted substitutions query = .ok text
      ∧ parsed text = .ok statement
      ∧ (Lowered.ofStatement (compiler.context text) statement).run {} = .ok (lowered, s)
      ∧ plan = ofLowered compiler identifier query lowered := by
  obtain ⟨text, htext, h⟩ := bind_eq_ok.mp h
  obtain ⟨statement, hparsed, h⟩ := bind_eq_ok.mp h
  obtain ⟨lowered, hlower, h⟩ := bind_eq_ok.mp h
  obtain ⟨⟨lowered', s⟩, hrun, hlowered⟩ := bind_eq_ok.mp hlower
  obtain rfl := Except.ok.inj hlowered
  exact ⟨text, statement, lowered', s, htext, hparsed, hrun, (Except.ok.inj h).symm⟩

/-- Once the text is read, compiling is resolving the statement. -/
theorem compile_eq {text : String} {statement : Query.Statement}
    (htext : substituted substitutions query = .ok text) (hparsed : parsed text = .ok statement) :
    compile compiler identifier query substitutions
      = lower compiler text statement >>= fun lowered =>
        .ok (ofLowered compiler identifier query lowered) := by
  unfold compile
  rw [htext]
  change (parsed text >>= _) = _
  rw [hparsed]
  rfl

/-- Whether a statement, as it is compiled, is one that `P` holds of. -/
def Lowers (compiler : Compiler) (query : String) (substitutions : List (String × String))
    (P : Lowered → Prop) [DecidablePred P] : Bool :=
  Option.any (fun lowered => decide (P lowered)) (do
    let text ← substituted substitutions query
    lower compiler text (← parsed text)).toOption

variable {P : Lowered → Prop} [DecidablePred P]

theorem exists_lowered_of_any (h : Lowers compiler query substitutions P) :
    ∃ text statement lowered, substituted substitutions query = .ok text
      ∧ parsed text = .ok statement ∧ lower compiler text statement = .ok lowered ∧ P lowered := by
  obtain ⟨lowered, hlowered, htest⟩ := exists_ok_of_any h
  obtain ⟨text, htext, hrest⟩ := bind_eq_ok.mp hlowered
  obtain ⟨statement, hparsed, hlower⟩ := bind_eq_ok.mp hrest
  exact ⟨text, statement, lowered, htext, hparsed, hlower, of_decide_eq_true htest⟩

theorem exists_plan_of_any (h : Lowers compiler query substitutions P) : ∃ plan lowered,
    compile compiler identifier query substitutions = .ok plan
      ∧ plan = ofLowered compiler identifier query lowered ∧ P lowered := by
  obtain ⟨text, statement, lowered, htext, hparsed, hlower, htest⟩ := exists_lowered_of_any h
  exact ⟨_, lowered, (compile_eq htext hparsed).trans (bind_eq_ok.mpr ⟨lowered, hlower, rfl⟩), rfl,
    htest⟩

/-- A plan that selects is the plan of a select. -/
theorem exists_lowered_of_compile (h : compile compiler identifier query substitutions = .ok plan)
    (hselect : plan.kind.isManipulation = false) :
    ∃ text select, ∃ run : Lowered.SelectRun (compiler.context text) select,
      substituted substitutions query = .ok text ∧ parsed text = .ok (.select select)
        ∧ lower compiler text (.select select) = .ok run.lowered
        ∧ plan = ofLowered compiler identifier query run.lowered := by
  obtain ⟨text, statement, lowered, s, htext, hparsed, hrun, rfl⟩ := compile_eq_ok h
  cases statement with
  | select select =>
    obtain ⟨run, rfl, -⟩ := Lowered.exists_selectRun hrun
    exact ⟨text, select, run, htext, hparsed, bind_eq_ok.mpr ⟨_, hrun, rfl⟩, rfl⟩
  | update update =>
    rw [show (ofLowered compiler identifier query lowered).kind = .update from
      (Lowered.ofUpdate_run hrun).kind_eq] at hselect
    cases hselect
  | delete delete =>
    rw [show (ofLowered compiler identifier query lowered).kind = .delete from
      (Lowered.ofDelete_run hrun).kind_eq] at hselect
    cases hselect

theorem exists_selectRun_of_compile (h : compile compiler identifier query substitutions = .ok plan)
    (hselect : plan.kind.isManipulation = false) :
    ∃ text select, ∃ run : Lowered.SelectRun (compiler.context text) select,
      substituted substitutions query = .ok text ∧ parsed text = .ok (.select select)
        ∧ plan = ofLowered compiler identifier query run.lowered := by
  obtain ⟨text, select, run, htext, hparsed, -, hplan⟩ := exists_lowered_of_compile h hselect
  exact ⟨text, select, run, htext, hparsed, hplan⟩

end Plan

end EntityQuery
