import EntityQuery.Plan.Basic
import EntityQuery.Projection
import EntityQuery.Query.Substitution
import EntityQuery.Scope.Filter
import EntityQuery.Sql.Printer

/-!
# Compiling a query

A query text is substituted, read, resolved against the mapping model into SQL statements, and written
in a dialect. Placeholders get their numbers last, in the order of the finished text.

A delete first removes the rows that belong to the deleted ones from the tables in between of the
entity's many-to-many associations, then the rows themselves. Filters do not apply to bulk
statements.
-/

namespace EntityQuery

open Scoped (misuse ofMapping)

/-- A statement resolved against the model, before it is written. -/
structure Lowered where
  kind : PlanKind
  statements : List Sql.Statement
  tables : List String
  returns : List Return := []
  fetches : List Fetch := []
  shape : Option Query.Shape := none
  deriving Repr

/-- The tables of the from clause that are selected when there is no select clause, and the joins
marked `fetch`. -/
structure FromClause where
  elements : List Element := []
  fetches : List FetchJoin := []
  deriving Repr

namespace Lowered

section

variable (context : Context)

/-- Brings in one join. Its condition may bring in implicit joins after it. A shallow query joins
what it would otherwise fetch. -/
def addJoin (clause : FromClause) (join : Query.Join) : Scoped FromClause := do
  let (owner, property) ← Scope.joinOwner context join.path
  let element ← Scope.addJoin context owner property join.kind join.alias?
  match ← Typed.condition context join.condition with
  | some term => modify (·.addCondition element.index (.term term))
  | none => pure ()
  if join.fetch && !context.shallow then
    return { clause with fetches := clause.fetches ++ [⟨element, owner, property⟩] }
  else return { clause with elements := clause.elements ++ [element] }

def addRange (clause : FromClause) (range : Query.Range) : Scoped FromClause := do
  let root ← Scope.addRoot context range.entity range.alias?
  range.joins.foldlM (addJoin context) { clause with elements := clause.elements ++ [root] }

/-- The items to select: those of the select clause, or else the tables of the from clause. -/
def items (clause : Option Query.SelectClause) (elements : List Element) :
    List (Target × Option String) :=
  match clause with
  | some clause => clause.items.map fun item => (.expr item.expr, item.alias?)
  | none => elements.map fun element => (.element element, none)

def terms (exprs : List Query.Expr) : Scoped (List Sql.Term) :=
  exprs.mapM fun expr => do return (← Typed.ofExpr context expr none).term

def orderTerms (orderItems : List Query.OrderItem) : Scoped (List (Sql.Term × Bool)) :=
  orderItems.mapM fun item => do
    return ((← Typed.ofExpr context item.expr none).term, item.descending)

/-- A select. The from clause is written when all implicit joins are known, with the filters on its
tables. -/
def ofSelect (select : Query.Select) : Scoped Lowered := do
  let clause ← select.ranges.foldlM (addRange context) {}
  let projection ←
    Projection.select context (items select.clause clause.elements) clause.fetches
  let condition ← Typed.condition context select.condition
  let groupBy ← terms context select.groupBy
  let having ← Typed.condition context select.having
  let orderBy ← orderTerms context select.orderBy
  let (scope, filters) ← ofMapping ((← get).filtered context.filters)
  let statement : Sql.Select :=
    { distinct := select.clause.any (·.distinct)
      columns := projection.columns
      ranges := scope.ranges
      condition, filters, groupBy, having, orderBy }
  return { kind := .select projection.fetchesCollection
           statements := [.select statement]
           tables := scope.tables
           returns := projection.returns
           fetches := projection.fetches
           shape := select.clause.bind (·.shape) }

def assignedColumn (path : List String) : Scoped (Sql.ColumnRef × SemanticType) := do
  match ← Scope.resolve context path with
  | .column owner column type => return (owner.column column, type)
  | .reference owner _ target column => return (owner.column column, .entity target)
  | _ => misuse context (.notAssignable path)

def assignment (assignment : Query.Assignment) : Scoped (Sql.ColumnRef × Sql.Term) := do
  let (column, type) ← assignedColumn context assignment.path
  return (column, (← Typed.ofExpr context assignment.value (some type)).term)

def ofUpdate (update : Query.Update) : Scoped Lowered := do
  modify ({ · with bulk := true })
  let root ← Scope.addRoot context update.entity update.alias?
  let assignments ← update.assignments.mapM (assignment context)
  let condition ← Typed.condition context update.condition
  return { kind := .update
           statements := [.update ⟨root.entity.table, assignments, condition⟩]
           tables := (← get).tables }

/-- The statement that removes the rows of the table in between of a many-to-many association. -/
def unlink? (root : Element) (condition : Option Query.Expr) (property : Property) :
    Scoped (Option Sql.Statement) := do
  match property.kind with
  | .association (.manyToMany _ table keyColumn _) =>
    modify (·.addTable table)
    let entity := root.entity
    return some (.unlink ⟨table, keyColumn, entity.table, entity.identifier.column,
      ← Typed.condition context condition⟩)
  | _ => return none

/-- A bulk delete. The condition is resolved anew for each statement. -/
def ofDelete (delete : Query.Delete) : Scoped Lowered := do
  modify ({ · with bulk := true })
  let root ← Scope.addRoot context delete.entity delete.alias?
  let unlinks ← root.entity.properties.mapM (unlink? context root delete.condition)
  let condition ← Typed.condition context delete.condition
  return { kind := .delete
           statements := unlinks.filterMap id ++ [.delete ⟨root.entity.table, condition⟩]
           tables := (← get).tables }

def ofStatement : Query.Statement → Scoped Lowered
  | .select statement => ofSelect context statement
  | .update statement => ofUpdate context statement
  | .delete statement => ofDelete context statement

end

end Lowered

def Binding.ofTemplate (template : Sql.Template) (statement : Nat) : List Binding :=
  template.slots.map fun slot => ⟨slot.source, slot.type, slot.expandable, statement⟩

namespace PlannedStatement

/-- A statement whose placeholders are numbered from a start. -/
def ofTemplate (dialect : Sql.Dialect) (start : Nat) (template : Sql.Template) : PlannedStatement :=
  let fragments := Fragment.number start template.pieces
  ⟨fragments, Fragment.render dialect (fun _ => 1) 1 fragments⟩

/-- Statements whose placeholders are numbered one after the other. -/
def ofTemplates (dialect : Sql.Dialect) (start : Nat) : List Sql.Template → List PlannedStatement
  | [] => []
  | template :: rest =>
    ofTemplate dialect start template :: ofTemplates dialect (start + template.slots.length) rest

end PlannedStatement

namespace Plan

structure Compiler where
  model : Metamodel
  dialect : Sql.Dialect
  filters : EnabledFilters
  shallow : Bool
  deriving Repr

def ofLowered (compiler : Compiler) (identifier query : String) (lowered : Lowered) : Plan :=
  let templates := lowered.statements.map (Sql.Statement.template compiler.dialect)
  { identifier, query
    filters := compiler.filters.names
    shallow := compiler.shallow
    kind := lowered.kind
    tables := lowered.tables
    statements := PlannedStatement.ofTemplates compiler.dialect 0 templates
    bindings := templates.zipIdx.flatMap fun (template, index) => Binding.ofTemplate template index
    returns := lowered.returns
    fetches := lowered.fetches
    shape := lowered.shape }

/-- A read statement resolved against the model; `text` is the query text for error messages. -/
def lower (compiler : Compiler) (text : String) (statement : Query.Statement) :
    Except Error Lowered := do
  let context : Context := ⟨compiler.model, compiler.filters, text, compiler.shallow⟩
  let (lowered, _) ← (Lowered.ofStatement context statement).run {}
  return lowered

def substituted (substitutions : List (String × String)) (query : String) : Except Error String :=
  match Query.substitute substitutions query with
  | .ok text => .ok text
  | .error name => .error (.query (.unknownMark name query))

def parsed (text : String) : Except Error Query.Statement :=
  match Query.parse text with
  | .ok statement => .ok statement
  | .error fault => .error (.query (.malformed fault))

def compile (compiler : Compiler) (identifier query : String)
    (substitutions : List (String × String)) : Except Error Plan := do
  let text ← substituted substitutions query
  let statement ← parsed text
  let lowered ← lower compiler text statement
  return ofLowered compiler identifier query lowered

end Plan

end EntityQuery
