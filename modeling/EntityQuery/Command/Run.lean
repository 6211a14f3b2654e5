import EntityQuery.Command.Display
import EntityQuery.Command.Session
import EntityQuery.PreparedQuery

/-!
# Running commands

A command prints lines and sends statements until it is done or fails; what was printed before a failure
stays. `run` is the whole program, for any way to read files.
-/

namespace EntityQuery.Command

structure Console where
  lines : List String := []
  sent : List SentStatement := []
  deriving Repr, DecidableEq

abbrev Running : Type → Type :=
  ExceptT Failure (StateM Console)

namespace Running

def say (lines : List String) : Running Unit :=
  modify fun console => { console with lines := console.lines ++ lines }

def lift {α : Type} : Except Error α → Running α
  | .ok value => return value
  | .error error => throw (.error error)

def execute {α : Type} (connection : Connection) (action : Executed α) : Running α := do
  let (result, used) := action.run connection
  modify fun console => { console with sent := console.sent ++ used.sent }
  lift result

end Running

open Running

namespace Session

def prepared (session : Session) (identifier query : String) (filters : EnabledFilters) :
    PreparedQuery :=
  { identifier, query, filters, model := session.model, dialect := session.dialect }

def showPlan (session : Session) (invocation : Invocation) (plan : Plan) (parameters : Parameters) :
    Running Unit := do
  say plan.sqlLines
  unless invocation.bindings.isEmpty do
    say ("" :: "Bindings:" :: invocation.bindings.map ("  " ++ ·))
  lift ((plan.parameters.validate parameters plan.query).mapError Error.binding)
  if session.databaseUrl.isNone && !invocation.dryRun then
    say ["", "No database URL. Use --database-url or set OQL_DATABASE_URL"]

def execute (invocation : Invocation) (prepared : PreparedQuery) (plan : Plan)
    (parameters : Parameters) (connection : Connection) : Running Unit := do
  if plan.kind.isManipulation then
    let affected ← Running.execute connection (prepared.executeUpdate parameters)
    say [s!"✓ {affected} rows affected"]
  else
    let results ← Running.execute connection (prepared.list parameters)
    say (plan.resultLines (invocation.format.getD .table) results)

/-- Compiles a query and runs it, or shows it where there is no database or none is wanted. -/
def query (session : Session) (connect : String → Except String Connection)
    (invocation : Invocation) (text : String) : Running Unit := do
  if invocation.verbose then say ["Input: " ++ text]
  let filters ← invocation.enabledFilters
  let prepared ← lift
    ((session.prepared "cli" text filters).compile session.substitutions invocation.shallow)
  let plan ← lift (PreparedQuery.ofQuery prepared.plan)
  let parameters ← invocation.parameters
  match session.databaseUrl, invocation.dryRun with
  | some url, false =>
    if invocation.verbose then say ["Connecting to: " ++ url]
    match connect url with
    | .error reason => throw (.connecting url reason)
    | .ok connection => execute invocation prepared plan parameters connection
  | _, _ => session.showPlan invocation plan parameters

def explain (session : Session) (format : Format) (text : String) : Running Unit := do
  let compiled : Except Error Plan := do
    let prepared ← (session.prepared "explain" text {}).compile session.substitutions false
    PreparedQuery.ofQuery prepared.plan
  match format with
  | .json => say [(← lift compiled).json.pretty]
  | .table =>
    say ["Query Explanation", "", "Query: " ++ text, ""]
    let statement ← lift do Plan.parsed (← Plan.substituted session.substitutions text)
    say ["Parsed:", "  " ++ statement.text, ""]
    say (← lift compiled).explanation

def entities (session : Session) : Running Unit := do
  if session.model.entities.isEmpty then throw .noEntities
  say (session.model.entities.flatMap Entity.lines)

end Session

def usage : List String :=
  ["oql: object queries to SQL", "", "Usage: oql <QUERY> [OPTIONS]", "", "Try: oql --help"]

def Session.perform (session : Session) (connect : String → Except String Connection)
    (invocation : Invocation) : Task → Running Unit
  | .query text => session.query connect invocation text
  | .explain text => session.explain (invocation.format.getD .table) text
  | .entities => session.entities

structure Report where
  console : Console
  failure : Option Failure
  deriving Repr, DecidableEq

namespace Report

def exitCode (report : Report) : Nat :=
  if report.failure.isSome then 1 else 0

def ofRunning (action : Running Unit) : Report :=
  match action.run {} with
  | (.ok _, console) => ⟨console, none⟩
  | (.error failure, console) => ⟨console, some failure⟩

end Report

def run {m : Type → Type} [Monad m] (host : Host m) (arguments : List String) :
    m (Except Stop Report) :=
  match Invocation.ofArguments arguments with
  | .error stop => return .error stop
  | .ok invocation =>
    match invocation.wanted with
    | none => return .ok ⟨{ lines := usage }, none⟩
    | some task => do
      match ← host.load invocation with
      | .error failure => return .ok ⟨{}, some failure⟩
      | .ok session =>
        return .ok (Report.ofRunning (session.perform host.connect invocation task))

end EntityQuery.Command
