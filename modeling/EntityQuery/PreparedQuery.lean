import EntityQuery.Cursor.Basic
import EntityQuery.Plan.Compile

/-!
# Prepared queries

A query that is compiled once and then run any number of times. Once it is compiled it stays as it
is: compiling it again does nothing. A select can be run in three ways, as a list, as a stream and
behind a cursor; the last two read row by row and refuse a query that fetches a collection. Updates
and deletes are run by `executeUpdate`.
-/

namespace EntityQuery

structure PreparedQuery where
  identifier : String
  query : String
  filters : EnabledFilters
  model : Metamodel
  dialect : Sql.Dialect
  compiled : Option Plan := none
  deriving Repr

namespace PreparedQuery

def isCompiled (prepared : PreparedQuery) : Bool :=
  prepared.compiled.isSome

def compile (prepared : PreparedQuery) (substitutions : List (String × String)) (shallow : Bool) :
    Except Error PreparedQuery :=
  match prepared.compiled with
  | some _ => .ok prepared
  | none =>
    match Plan.compile ⟨prepared.model, prepared.dialect, prepared.filters, shallow⟩
        prepared.identifier prepared.query substitutions with
    | .ok plan => .ok { prepared with compiled := some plan }
    | .error error => .error error

def plan (prepared : PreparedQuery) : Except QueryFault Plan :=
  match prepared.compiled with
  | some plan => .ok plan
  | none => .error (.notCompiled prepared.query)

/-- The plan, if it is a select; the operation is the one that needs it. -/
def selectPlan (prepared : PreparedQuery) (operation : Operation) : Except QueryFault Plan := do
  let plan ← prepared.plan
  if plan.kind.isManipulation then
    .error (.wrongMode operation plan.kind.statementKind prepared.query)
  else return plan

/-- Accepts a query that can be read row by row. -/
def validateScrollability (prepared : PreparedQuery) : Except QueryFault Unit := do
  let plan ← prepared.plan
  if plan.kind.fetchesCollection then .error .fetchWithCursor else return ()

def bound (prepared : PreparedQuery) (plan : Plan) (parameters : Parameters) (paging : Paging) :
    Except Error (List BoundStatement) :=
  match plan.bind prepared.dialect parameters prepared.filters paging with
  | .ok statements => .ok statements
  | .error fault => .error (.binding fault)

def ofQuery {α : Type} (result : Except QueryFault α) : Except Error α :=
  match result with
  | .ok a => .ok a
  | .error fault => .error (.query fault)

/-- All results of a select. Where a collection is fetched, the part that is asked for is cut out of
the results, because it is not the same as a part of the rows. -/
def list (prepared : PreparedQuery) (parameters : Parameters) : Executed (List QueryResult) := do
  let plan ← ofQuery (prepared.selectPlan .list)
  let selection := parameters.selection
  let inMemory := plan.kind.fetchesCollection && !selection.isEmpty
  let statements ← prepared.bound plan parameters (if inMemory then .inMemory else .sql)
  match statements.getLast? with
  | none => return []
  | some statement =>
    let rows ← Executed.rows statement
    match plan.readRows rows with
    | .error fault => throw (.execution fault)
    | .ok results => return if inMemory then selection.apply results else results

def openSelect (prepared : PreparedQuery) (operation : Operation) (parameters : Parameters) :
    Except Error (Plan × BoundStatement) := do
  let plan ← ofQuery (prepared.selectPlan operation)
  ofQuery prepared.validateScrollability
  let statements ← prepared.bound plan parameters .sql
  match statements.getLast? with
  | some statement => return (plan, statement)
  | none => .error (.query (.misuse .noStatement prepared.query))

def iterate (prepared : PreparedQuery) (parameters : Parameters) (connection : Connection) :
    Except Error ResultStream := do
  let (plan, statement) ← prepared.openSelect .iterate parameters
  return { plan, statement, connection }

def scroll (prepared : PreparedQuery) (parameters : Parameters) (connection : Connection) :
    Except Error Cursor := do
  let (plan, statement) ← prepared.openSelect .scroll parameters
  return { source := { plan, statement, connection } }

/-- Runs an update or a delete; gives the number of rows that its main statement changed. -/
def executeUpdate (prepared : PreparedQuery) (parameters : Parameters) : Executed Nat := do
  let plan ← ofQuery prepared.plan
  if plan.kind.isManipulation then
    let statements ← prepared.bound plan parameters .off
    statements.foldlM (fun _ statement => Executed.affected statement) 0
  else
    throw (.query (.wrongMode .executeUpdate plan.kind.statementKind prepared.query))

end PreparedQuery

end EntityQuery
