import EntityQuery.Query.Statement
import EntityQuery.Sql.Template

/-!
# What stands in a statement

The expressions of a statement, the expressions in them, and the parameters
among these, all in the order of the text.
-/

namespace EntityQuery.Query

open List Option Expr

/-! ## The parts of an expression -/

mutual
def Expr.parts : Expr → List Expr
  | .literal value => [.literal value]
  | .named name => [.named name]
  | .ordinal position => [.ordinal position]
  | .legacy => [.legacy]
  | .path segments => [.path segments]
  | .nested inner => .nested inner :: inner.parts
  | .negate inner => .negate inner :: inner.parts
  | .not inner => .not inner :: inner.parts
  | .logical op left right => .logical op left right :: (left.parts ++ right.parts)
  | .compare op left right => .compare op left right :: (left.parts ++ right.parts)
  | .arithmetic op left right => .arithmetic op left right :: (left.parts ++ right.parts)
  | .like subject pattern none negated =>
    .like subject pattern none negated :: (subject.parts ++ pattern.parts)
  | .like subject pattern (some escape) negated =>
    .like subject pattern (some escape) negated
      :: (subject.parts ++ pattern.parts ++ escape.parts)
  | .inList subject items negated =>
    .inList subject items negated :: (subject.parts ++ partsOf items)
  | .between subject low high negated =>
    .between subject low high negated :: (subject.parts ++ low.parts ++ high.parts)
  | .isNull subject negated => .isNull subject negated :: subject.parts
  | .isEmpty subject negated => .isEmpty subject negated :: subject.parts
  | .call function arguments => .call function arguments :: partsOf arguments
  | .aggregate function distinct none => [.aggregate function distinct none]
  | .aggregate function distinct (some argument) =>
    .aggregate function distinct (some argument) :: argument.parts

def Expr.partsOf : List Expr → List Expr
  | [] => []
  | item :: rest => item.parts ++ partsOf rest
end

def Expr.children : Expr → List Expr
  | .nested inner | .negate inner | .not inner => [inner]
  | .logical _ left right | .compare _ left right | .arithmetic _ left right => [left, right]
  | .like subject pattern escape _ => subject :: pattern :: escape.toList
  | .inList subject items _ => subject :: items
  | .between subject low high _ => [subject, low, high]
  | .isNull subject _ | .isEmpty subject _ => [subject]
  | .call _ arguments => arguments
  | .aggregate _ _ argument => argument.toList
  | _ => []

theorem Expr.partsOf_eq : ∀ items : List Expr, partsOf items = items.flatMap parts
  | [] => by rw [partsOf, flatMap_nil]
  | item :: rest => by rw [partsOf, flatMap_cons, partsOf_eq rest]

theorem Expr.parts_eq (e : Expr) : e.parts = e :: e.children.flatMap parts := by
  cases e with
  | like subject pattern escape negated =>
    cases escape <;> simp [parts, children]
  | aggregate function distinct argument =>
    cases argument <;> simp [parts, children]
  | _ => simp [parts, children, partsOf_eq]

theorem Expr.mem_parts_self (e : Expr) : e ∈ e.parts := by
  rw [parts_eq]
  exact .head _

theorem Expr.mem_parts_of_mem_children {e child x : Expr} (hchild : child ∈ e.children)
    (hx : x ∈ child.parts) : x ∈ e.parts := by
  rw [parts_eq]
  exact .tail _ (mem_flatMap.mpr ⟨child, hchild, hx⟩)

/-- What holds of an expression whenever it holds of the expressions that it is
made of. -/
theorem Expr.induction {motive : Expr → Prop}
    (step : ∀ e : Expr, (∀ child ∈ e.children, motive child) → motive e) (e : Expr) : motive e := by
  have hall : (∀ e : Expr, motive e) ∧ ∀ items : List Expr, ∀ e ∈ items, motive e := by
    apply parts.mutual_induct
    case case21 => exact forall_mem_nil _
    case case22 => exact fun _ _ hitem hrest => forall_mem_cons.mpr ⟨hitem, hrest⟩
    all_goals intros; apply step; clear step; simp_all [children]
  exact hall.1 e

/-! ## The expressions of a statement -/

def Join.exprs (join : Join) : List Expr :=
  join.condition.toList

def Range.exprs (range : Range) : List Expr :=
  range.joins.flatMap Join.exprs

def SelectClause.exprs (clause : SelectClause) : List Expr :=
  clause.items.map SelectItem.expr

def Select.exprs (select : Select) : List Expr :=
  select.clause.toList.flatMap SelectClause.exprs ++ select.ranges.flatMap Range.exprs
    ++ select.condition.toList ++ select.groupBy ++ select.having.toList
    ++ select.orderBy.map OrderItem.expr

def Select.clauseExprs (select : Select) : List Expr :=
  select.clause.toList.flatMap SelectClause.exprs ++ select.condition.toList ++ select.groupBy
    ++ select.having.toList ++ select.orderBy.map OrderItem.expr

def Update.exprs (update : Update) : List Expr :=
  update.assignments.map Assignment.value ++ update.condition.toList

def Delete.exprs (delete : Delete) : List Expr :=
  delete.condition.toList

def Statement.exprs : Statement → List Expr
  | .select statement => statement.exprs
  | .update statement => statement.exprs
  | .delete statement => statement.exprs

def Statement.parts (statement : Statement) : List Expr :=
  statement.exprs.flatMap Expr.parts

/-! ## Parameters -/

def Expr.parameter? : Expr → Option ParameterSource
  | .named name => some (.named name)
  | .ordinal position => some (.ordinal position)
  | _ => none

def Expr.parameters (e : Expr) : List ParameterSource :=
  e.parts.filterMap parameter?

def parameters (exprs : List Expr) : List ParameterSource :=
  exprs.flatMap Expr.parameters

theorem parameters_append (exprs more : List Expr) :
    parameters (exprs ++ more) = parameters exprs ++ parameters more :=
  flatMap_append

theorem Expr.parameters_eq (e : Expr) :
    e.parameters = e.parameter?.toList ++ Query.parameters e.children := by
  have hchildren : (e.children.flatMap Expr.parts).filterMap Expr.parameter?
      = Query.parameters e.children := filterMap_flatMap
  rw [Expr.parameters, Expr.parts_eq, ← hchildren]
  cases h : e.parameter? with
  | none => rw [filterMap_cons_none h, toList_none, nil_append]
  | some source =>
    rw [filterMap_cons_some h, toList_some, singleton_append]

/-! ## Tests of collections -/

def Expr.tested? : Expr → Option (List String)
  | .isEmpty (.path segments) _ => some segments
  | _ => none

def tested (exprs : List Expr) : List (List String) :=
  exprs.flatMap fun e => e.parts.filterMap tested?

theorem tested_singleton (e : Expr) : tested [e] = e.tested?.toList ++ tested e.children := by
  have hchildren : (e.children.flatMap parts).filterMap tested?
      = tested e.children := filterMap_flatMap
  rw [tested, flatMap_singleton, parts_eq, ← hchildren]
  cases h : e.tested? with
  | none => rw [filterMap_cons_none h, toList_none, nil_append]
  | some path => rw [filterMap_cons_some h, toList_some, singleton_append]

end EntityQuery.Query
