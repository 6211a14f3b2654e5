import EntityQuery.Plan.Compile
import EntityQuery.Proofs.Typing

/-!
# Bulk statements

What an update or a delete is compiled to is resolved from its own expressions
and nothing else: an update from the values that are assigned and its condition,
and each statement of a delete from its condition, which is resolved anew for
every one of them (`Lowered.Bulk`). Filters are left out of bulk statements.

`Lowered.DeleteRun` records how a delete was compiled. Every delete that compiles
has such a record (`exists_deleteRun`).
-/

namespace EntityQuery

open List Sql

open Sql (Atom)

variable {s s' : Scope} {exprs : List Query.Expr} {table : String} {statements : List Statement}
  {condition : Option Query.Expr}

/-- In no dialect does the statement ask for a parameter of a filter. -/
def Sql.Statement.Unfiltered (statement : Statement) : Prop :=
  ∀ dialect : Dialect, (statement.template dialect).filterSlots = []

theorem Resolves.statement_unfiltered {context : Context} {statement : Statement}
    (h : Resolves context s exprs statement.atoms s') : statement.Unfiltered := by
  intro dialect
  rw [Template.filterSlots, statement.slots_template dialect, filter_eq_nil_iff]
  intro parameter hparameter
  simp [h.unfiltered parameter hparameter]

namespace Sql.Statement

def target? : Statement → Option String
  | .select _ => none
  | .update statement => some statement.table
  | .unlink statement => some statement.table
  | .delete statement => some statement.table

def linkTable? : Statement → Option String
  | .unlink statement => some statement.linkTable
  | _ => none

end Sql.Statement

namespace Lowered

open Scoped

variable {context : Context}

/-- Statements about a table that are resolved one after the other, each of them
from all the expressions. -/
inductive Chain (context : Context) (table : String) (exprs : List Query.Expr) :
    Scope → List Statement → Scope → Prop where
  | nil {s : Scope} : Chain context table exprs s [] s
  | cons {s s₁ s' : Scope} {statement : Statement} {rest : List Statement}
      (htarget : statement.target? = some table)
      (hfirst : Resolves context (statement.linkTable?.elim s s.addTable) exprs statement.atoms s₁)
      (hrest : Chain context table exprs s₁ rest s') :
      Chain context table exprs s (statement :: rest) s'

theorem Chain.append {s₁ : Scope} {more : List Statement}
    (h : Chain context table exprs s statements s₁) (hmore : Chain context table exprs s₁ more s') :
    Chain context table exprs s (statements ++ more) s' := by
  induction h with
  | nil => exact hmore
  | cons htarget hfirst _ ih => exact .cons htarget hfirst (ih hmore)

theorem Chain.resolves (h : Chain context table exprs s statements s') :
    ∀ statement ∈ statements, statement.target? = some table
      ∧ ∃ s₁ s₂, Resolves context s₁ exprs statement.atoms s₂ := by
  induction h with
  | nil => exact forall_mem_nil _
  | cons htarget hfirst _ ih =>
    exact forall_mem_cons.mpr ⟨⟨htarget, _, _, hfirst⟩, ih⟩

/-- In a bulk statement no table comes in. -/
theorem Chain.entries_eq (h : Chain context table exprs s statements s') (hbulk : s.bulk) :
    s'.entries = s.entries := by
  induction h with
  | nil => rfl
  | @cons s s₁ s' statement rest _ hfirst _ ih =>
    have hstart : (statement.linkTable?.elim s s.addTable).bulk = true
        ∧ (statement.linkTable?.elim s s.addTable).entries = s.entries := by
      cases statement.linkTable? with
      | none | some table => exact ⟨hbulk, rfl⟩
    rw [ih (hfirst.steps.bulk_eq.trans hstart.1), hfirst.entries_of_bulk hstart.1, hstart.2]

/-- What is compiled from a bulk statement of a kind that holds the expressions. -/
structure Bulk (context : Context) (kind : PlanKind) (exprs : List Query.Expr)
    (lowered : Lowered) (scope : Scope) : Prop where
  kind_eq : lowered.kind = kind
  tables_eq : lowered.tables = scope.tables
  fetches_eq : lowered.fetches = []
  nonempty : lowered.statements ≠ []
  single : kind ≠ .delete → lowered.statements.length = 1
  /-- All statements are resolved one after the other, from the root alone. -/
  resolved : ∃ name alias? root s,
    (Scope.addRoot context name alias?).run { bulk := true } = .ok (root, s)
      ∧ Chain context root.entity.table exprs s lowered.statements scope

namespace Bulk

variable {kind : PlanKind} {exprs : List Query.Expr} {lowered : Lowered} {scope : Scope}

theorem each (h : lowered.Bulk context kind exprs scope) :
    ∀ statement ∈ lowered.statements, ∃ s s', Resolves context s exprs statement.atoms s' := by
  obtain ⟨_, _, _, _, -, hchain⟩ := h.resolved
  exact fun statement hstatement => (hchain.resolves statement hstatement).2

theorem manipulates (h : lowered.Bulk context kind exprs scope) :
    ∀ statement ∈ lowered.statements, ∀ select, statement ≠ .select select := by
  obtain ⟨_, _, _, _, -, hchain⟩ := h.resolved
  rintro _ hstatement select rfl
  cases (hchain.resolves _ hstatement).1

theorem unfiltered (h : lowered.Bulk context kind exprs scope) :
    ∀ statement ∈ lowered.statements, statement.Unfiltered := by
  intro statement hstatement
  obtain ⟨s, s', hresolves⟩ := h.each statement hstatement
  exact hresolves.statement_unfiltered

end Bulk

/-- Bulk statements start from a scope without tables. -/
theorem bulk_run {x : Scoped Lowered} {lowered : Lowered}
    (h : (modify (fun scope : Scope => { scope with bulk := true }) >>= fun _ => x).run {}
      = .ok (lowered, s)) : x.run { bulk := true } = .ok (lowered, s) := by
  obtain ⟨_, _, hmodify, h⟩ := run_bind.mp h
  obtain rfl := run_modify.mp hmodify
  exact h

/-! ## Updates -/

theorem assignment_resolves (written : Query.Assignment) :
    Resolving context [written.value] [] (assignment context written)
      fun found => .column found.1 :: found.2.atoms := by
  have hcolumn : Resolving context [] [] (assignedColumn context written.path)
      fun found => [.column found.1] := by
    refine .resolve fun meaning s s' found _ hmem _ h => ?_
    cases meaning with
    | column owner column type | reference owner property target column =>
      obtain ⟨rfl, rfl⟩ := run_pure.mp h
      exact .column hmem
    | _ => exact (not_run_misuse h).elim
  exact .step hcolumn fun found => .bind (Typed.ofExpr_resolves _ _) fun typed => .pure (.refl _)

theorem ofUpdate_run {update : Query.Update} {lowered : Lowered}
    (h : (ofUpdate context update).run {} = .ok (lowered, s)) :
    lowered.Bulk context .update update.exprs s := by
  obtain ⟨root, s₁, hroot, h⟩ := run_bind.mp (bulk_run h)
  obtain ⟨assignments, s₂, hassignments, h⟩ := run_bind.mp h
  obtain ⟨condition, s₃, hcondition, h⟩ := run_bind.mp h
  obtain ⟨_, _, hget, h⟩ := run_bind.mp h
  obtain ⟨rfl, rfl⟩ := run_get.mp hget
  obtain ⟨rfl, rfl⟩ := run_pure.mp h
  have hvalid := Scope.Valid.step (Scope.addRoot_run hroot).1 (.empty true)
  have hfirst := (Resolving.mapM_expr assignment_resolves _).resolves hvalid hassignments
  have hsecond := (Typed.condition_resolves _).resolves (hvalid.steps hfirst.steps) hcondition
  have hboth : Resolves context s₁ update.exprs
      (Update.atoms ⟨root.entity.table, assignments, condition⟩) s₃ := hfirst.append hsecond
  exact ⟨rfl, rfl, rfl, cons_ne_nil _ _, fun _ => rfl, _, _, root, s₁, hroot, .cons rfl hboth .nil⟩

/-! ## Deletes -/

end Lowered

/-- The table of a many-to-many association and its column with the owner's key. -/
def Property.link? (property : Property) : Option (String × String) :=
  match property.kind with
  | .association (.manyToMany _ table keyColumn _) => some (table, keyColumn)
  | _ => none

namespace Lowered

open Scoped

variable {context : Context}

variable {properties : List Property} {unlinks : List Unlink} {property : Property}
  {entity : Entity} {root : Element}

/-- What is compiled for properties of the deleted entity: for each many-to-many
association a statement on its table, which holds the condition. -/
inductive Unlinking (context : Context) (entity : Entity) (condition : Option Query.Expr) :
    Scope → List Property → List Unlink → Scope → Prop where
  | nil {s : Scope} : Unlinking context entity condition s [] [] s
  | link {s s₁ s' : Scope} {property : Property} {properties : List Property}
      {table keyColumn : String} {found : Option Term} {unlinks : List Unlink}
      (hlink : property.link? = some (table, keyColumn))
      (hfound : (Typed.condition context condition).run (s.addTable table) = .ok (found, s₁))
      (hrest : Unlinking context entity condition s₁ properties unlinks s') :
      Unlinking context entity condition s (property :: properties)
        (⟨table, keyColumn, entity.table, entity.identifier.column, found⟩ :: unlinks) s'
  | skip {s s' : Scope} {property : Property} {properties : List Property}
      {unlinks : List Unlink} (hlink : property.link? = none)
      (hrest : Unlinking context entity condition s properties unlinks s') :
      Unlinking context entity condition s (property :: properties) unlinks s'

theorem unlink?_run {found : Option Statement}
    (h : (unlink? context root condition property).run s = .ok (found, s')) :
    (∃ table keyColumn term, property.link? = some (table, keyColumn)
      ∧ (Typed.condition context condition).run (s.addTable table) = .ok (term, s')
      ∧ found = some (.unlink
        ⟨table, keyColumn, root.entity.table, root.entity.identifier.column, term⟩))
    ∨ property.link? = none ∧ found = none ∧ s = s' := by
  obtain ⟨name, kind⟩ := property
  cases kind with
  | association association =>
    cases association with
    | manyToMany target table keyColumn elementColumn =>
      simp only [unlink?, run_bind, run_modify, run_pure] at h
      obtain ⟨_, _, rfl, term, _, hterm, rfl, rfl⟩ := h
      exact .inl ⟨table, keyColumn, term, rfl, hterm, rfl⟩
    | manyToOne target column | oneToMany target keyColumn =>
      obtain ⟨rfl, rfl⟩ := run_pure.mp h
      exact .inr ⟨rfl, rfl, rfl⟩
  | basic column type | component name fields =>
    obtain ⟨rfl, rfl⟩ := run_pure.mp h
    exact .inr ⟨rfl, rfl, rfl⟩

theorem exists_unlinking :
    ∀ {properties : List Property} {found : List (Option Statement)} {s s' : Scope},
      (properties.mapM (unlink? context root condition)).run s = .ok (found, s') →
      ∃ unlinks, found.filterMap id = unlinks.map .unlink
        ∧ Unlinking context root.entity condition s properties unlinks s'
  | [], _, _, _, h => by
    rw [mapM_nil] at h
    obtain ⟨rfl, rfl⟩ := run_pure.mp h
    exact ⟨[], rfl, .nil⟩
  | property :: properties, _, _, _, h => by
    simp only [mapM_cons, run_bind, run_pure] at h
    obtain ⟨first, s₁, hfirst, others, s₂, hothers, rfl, rfl⟩ := h
    obtain ⟨unlinks, hunlinks, hrest⟩ := exists_unlinking hothers
    rcases unlink?_run hfirst with ⟨table, keyColumn, term, hlink, hterm, rfl⟩
      | ⟨hlink, rfl, rfl⟩
    · exact ⟨_ :: unlinks, by rw [map_cons, ← hunlinks]; rfl, .link hlink hterm hrest⟩
    · exact ⟨unlinks, hunlinks, .skip hlink hrest⟩

/-- There is one statement for each many-to-many association, in the order of the
properties. -/
theorem Unlinking.links_eq (h : Unlinking context entity condition s properties unlinks s') :
    unlinks.map (fun unlink => (unlink.linkTable, unlink.keyColumn))
      = properties.filterMap Property.link? := by
  induction h with
  | nil => rfl
  | link hlink _ _ ih => rw [filterMap_cons_some hlink, ← ih]; rfl
  | skip hlink _ ih => rw [filterMap_cons_none hlink, ih]

theorem Unlinking.chain (h : Unlinking context entity condition s properties unlinks s')
    (hvalid : s.Valid) :
    Chain context entity.table condition.toList s (unlinks.map .unlink) s' ∧ s'.Valid := by
  induction h with
  | nil => exact ⟨.nil, hvalid⟩
  | @link s _ _ _ _ table _ _ _ hlink hfound _ ih =>
    have hsame : Scope.SameTables s (s.addTable table) := ⟨rfl, rfl, rfl, rfl⟩
    have hvalid₁ := hvalid.of_sameTables hsame
    have hresolves := (Typed.condition_resolves _).resolves hvalid₁ hfound
    obtain ⟨hchain, hvalid'⟩ := ih (hvalid₁.steps hresolves.steps)
    exact ⟨.cons rfl hresolves hchain, hvalid'⟩
  | skip _ _ ih => exact ih hvalid

structure DeleteRun (context : Context) (delete : Query.Delete) where
  root : Element
  afterRoot : Scope
  rootRun : (Scope.addRoot context delete.entity delete.alias?).run { bulk := true }
    = .ok (root, afterRoot)
  unlinks : List Unlink
  afterUnlinks : Scope
  unlinking : Unlinking context root.entity delete.condition afterRoot root.entity.properties
    unlinks afterUnlinks
  condition : Option Term
  scope : Scope
  conditionRun : (Typed.condition context delete.condition).run afterUnlinks
    = .ok (condition, scope)

namespace DeleteRun

variable {delete : Query.Delete} (run : DeleteRun context delete)

def lowered : Lowered where
  kind := .delete
  statements := run.unlinks.map .unlink ++ [.delete ⟨run.root.entity.table, run.condition⟩]
  tables := run.scope.tables

theorem valid_afterRoot : run.afterRoot.Valid :=
  Scope.Valid.step (Scope.addRoot_run run.rootRun).1 (.empty true)

theorem entity_eq : context.model.entity delete.entity = .ok run.root.entity := by
  obtain ⟨entity, hentity, -, hroot, -⟩ := Scope.addRoot_eq_ok run.rootRun
  rw [hroot]
  exact hentity

/-- Each many-to-many association of the entity has its statement. -/
theorem exists_unlink {link : String × String} (hproperty : property ∈ run.root.entity.properties)
    (hlink : property.link? = some link) :
    ∃ unlink ∈ run.unlinks, (unlink.linkTable, unlink.keyColumn) = link := by
  have hmem := mem_filterMap.mpr ⟨property, hproperty, hlink⟩
  rw [← run.unlinking.links_eq] at hmem
  exact mem_map.mp hmem

theorem bulk : run.lowered.Bulk context .delete delete.exprs run.scope := by
  obtain ⟨hunlinks, hvalid⟩ := run.unlinking.chain run.valid_afterRoot
  have hlast := (Typed.condition_resolves _).resolves hvalid run.conditionRun
  exact ⟨rfl, rfl, rfl, append_ne_nil_of_right_ne_nil _ (cons_ne_nil _ _),
    fun hne => (hne rfl).elim, _, _, run.root, run.afterRoot, run.rootRun,
    hunlinks.append (.cons rfl hlast .nil)⟩

end DeleteRun

theorem exists_deleteRun {delete : Query.Delete} {lowered : Lowered}
    (h : (ofDelete context delete).run {} = .ok (lowered, s)) :
    ∃ run : DeleteRun context delete, run.lowered = lowered ∧ run.scope = s := by
  obtain ⟨root, s₁, hroot, h⟩ := run_bind.mp (bulk_run h)
  obtain ⟨found, s₂, hfound, h⟩ := run_bind.mp h
  obtain ⟨condition, s₃, hcondition, h⟩ := run_bind.mp h
  obtain ⟨_, _, hget, h⟩ := run_bind.mp h
  obtain ⟨rfl, rfl⟩ := run_get.mp hget
  obtain ⟨rfl, rfl⟩ := run_pure.mp h
  obtain ⟨unlinks, hunlinks, hunlinking⟩ := exists_unlinking hfound
  refine ⟨⟨root, s₁, hroot, unlinks, s₂, hunlinking, condition, s₃, hcondition⟩, ?_, rfl⟩
  rw [DeleteRun.lowered, hunlinks]

theorem ofDelete_run {delete : Query.Delete} {lowered : Lowered}
    (h : (ofDelete context delete).run {} = .ok (lowered, s)) :
    lowered.Bulk context .delete delete.exprs s := by
  obtain ⟨run, rfl, rfl⟩ := exists_deleteRun h
  exact run.bulk

end Lowered

end EntityQuery
