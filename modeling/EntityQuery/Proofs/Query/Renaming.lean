import EntityQuery.Proofs.Query.Parts

/-!
# Other names for the aliases of a statement

A statement declares aliases for its ranges and joins, and a path may start at
one of them. Renaming puts another name in all these places: where an alias is
declared, and at the start of every path, those of joins and assignments
included (`Statement.renamed`). `Statement.withAliases` does this to the aliases
that the statement declares and leaves all other names as they are.
-/

namespace EntityQuery.Query

/-! ## Renaming -/

def renamePath (rename : String → String) : List String → List String
  | [] => []
  | first :: rest => rename first :: rest

mutual
def Expr.renamed (rename : String → String) : Expr → Expr
  | .literal value => .literal value
  | .named name => .named name
  | .ordinal position => .ordinal position
  | .legacy => .legacy
  | .path segments => .path (renamePath rename segments)
  | .nested inner => .nested (inner.renamed rename)
  | .negate inner => .negate (inner.renamed rename)
  | .not inner => .not (inner.renamed rename)
  | .logical op left right => .logical op (left.renamed rename) (right.renamed rename)
  | .compare op left right => .compare op (left.renamed rename) (right.renamed rename)
  | .arithmetic op left right => .arithmetic op (left.renamed rename) (right.renamed rename)
  | .like subject pattern none negated =>
    .like (subject.renamed rename) (pattern.renamed rename) none negated
  | .like subject pattern (some escape) negated =>
    .like (subject.renamed rename) (pattern.renamed rename) (some (escape.renamed rename)) negated
  | .inList subject items negated =>
    .inList (subject.renamed rename) (renamedAll rename items) negated
  | .between subject low high negated =>
    .between (subject.renamed rename) (low.renamed rename) (high.renamed rename) negated
  | .isNull subject negated => .isNull (subject.renamed rename) negated
  | .isEmpty subject negated => .isEmpty (subject.renamed rename) negated
  | .call function arguments => .call function (renamedAll rename arguments)
  | .aggregate function distinct none => .aggregate function distinct none
  | .aggregate function distinct (some argument) =>
    .aggregate function distinct (some (argument.renamed rename))

def Expr.renamedAll (rename : String → String) : List Expr → List Expr
  | [] => []
  | expr :: rest => expr.renamed rename :: renamedAll rename rest
end

def Join.renamed (rename : String → String) (join : Join) : Join :=
  { join with
    path := renamePath rename join.path
    alias? := join.alias?.map rename
    condition := join.condition.map (Expr.renamed rename) }

def Range.renamed (rename : String → String) (range : Range) : Range :=
  { range with
    alias? := range.alias?.map rename
    joins := range.joins.map (Join.renamed rename) }

/-- The name of a selected value in the result is not an alias of a table. -/
def SelectItem.renamed (rename : String → String) (item : SelectItem) : SelectItem :=
  { item with expr := item.expr.renamed rename }

def SelectClause.renamed (rename : String → String) (clause : SelectClause) : SelectClause :=
  { clause with items := clause.items.map (SelectItem.renamed rename) }

def OrderItem.renamed (rename : String → String) (item : OrderItem) : OrderItem :=
  { item with expr := item.expr.renamed rename }

def Select.renamed (rename : String → String) (select : Select) : Select where
  clause := select.clause.map (SelectClause.renamed rename)
  ranges := select.ranges.map (Range.renamed rename)
  condition := select.condition.map (Expr.renamed rename)
  groupBy := select.groupBy.map (Expr.renamed rename)
  having := select.having.map (Expr.renamed rename)
  orderBy := select.orderBy.map (OrderItem.renamed rename)

def Assignment.renamed (rename : String → String) (assignment : Assignment) : Assignment where
  path := renamePath rename assignment.path
  value := assignment.value.renamed rename

def Update.renamed (rename : String → String) (update : Update) : Update :=
  { update with
    alias? := update.alias?.map rename
    assignments := update.assignments.map (Assignment.renamed rename)
    condition := update.condition.map (Expr.renamed rename) }

def Delete.renamed (rename : String → String) (delete : Delete) : Delete :=
  { delete with
    alias? := delete.alias?.map rename
    condition := delete.condition.map (Expr.renamed rename) }

def Statement.renamed (rename : String → String) : Statement → Statement
  | .select statement => .select (statement.renamed rename)
  | .update statement => .update (statement.renamed rename)
  | .delete statement => .delete (statement.renamed rename)

theorem Expr.isParameter_renamed (rename : String → String) (expr : Expr) :
    (expr.renamed rename).isParameter = expr.isParameter := by
  cases expr with
  | like subject pattern escape negated => cases escape <;> simp only [renamed, isParameter]
  | aggregate function distinct argument => cases argument <;> simp only [renamed, isParameter]
  | _ => simp only [renamed, isParameter]

theorem Expr.exists_path_of_renamed {rename : String → String} {expr : Expr} {path : List String}
    (h : expr.renamed rename = .path path) : ∃ segments, expr = .path segments := by
  cases expr with
  | path segments => exact ⟨segments, rfl⟩
  | like subject pattern escape negated => cases escape <;> simp only [renamed] at h <;> cases h
  | aggregate function distinct argument => cases argument <;> simp only [renamed] at h <;> cases h
  | _ =>
    simp only [renamed] at h
    cases h

theorem Expr.isEmpty_renamedAll (rename : String → String) (exprs : List Expr) :
    (renamedAll rename exprs).isEmpty = exprs.isEmpty := by
  cases exprs <;> simp [renamedAll]

theorem renamePath_id (path : List String) : renamePath id path = path := by
  cases path <;> rfl

theorem Expr.renamed_id (expr : Expr) : expr.renamed id = expr := by
  have hall : (∀ expr : Expr, expr.renamed id = expr) ∧ ∀ exprs, renamedAll id exprs = exprs := by
    apply renamed.mutual_induct <;> simp_all [renamed, renamedAll, renamePath_id]
  exact hall.1 expr

/-! ## The aliases and paths of a statement -/

def Range.aliases (range : Range) : List String :=
  range.alias?.toList ++ range.joins.filterMap (·.alias?)

def Statement.aliases : Statement → List String
  | .select statement => statement.ranges.flatMap Range.aliases
  | .update statement => statement.alias?.toList
  | .delete statement => statement.alias?.toList

def Expr.path? : Expr → Option (List String)
  | .path segments => some segments
  | _ => none

def Expr.paths (expr : Expr) : List (List String) :=
  expr.parts.filterMap path?

/-- The paths that stand outside of expressions: those of joins and assignments. -/
def Statement.barePaths : Statement → List (List String)
  | .select statement => statement.ranges.flatMap fun range => range.joins.map (·.path)
  | .update statement => statement.assignments.map (·.path)
  | .delete _ => []

def Statement.paths (statement : Statement) : List (List String) :=
  statement.barePaths ++ statement.exprs.flatMap Expr.paths

def Statement.starts (statement : Statement) : List String :=
  statement.paths.filterMap List.head?

/-- The new name of an alias; a name that is not declared stays as it is. -/
def Statement.newName (statement : Statement) (rename : String → String) (name : String) : String :=
  if name ∈ statement.aliases then rename name else name

/-- The statement with other names for the aliases that it declares. -/
def Statement.withAliases (statement : Statement) (rename : String → String) : Statement :=
  statement.renamed (statement.newName rename)

theorem Expr.paths_subset {expr child : Expr} (h : child ∈ expr.children) :
    child.paths ⊆ expr.paths := by
  intro path hpath
  obtain ⟨part, hpart, hfound⟩ := List.mem_filterMap.mp hpath
  exact List.mem_filterMap.mpr ⟨part, mem_parts_of_mem_children h hpart, hfound⟩

end EntityQuery.Query
