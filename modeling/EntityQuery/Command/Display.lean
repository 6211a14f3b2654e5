import EntityQuery.Command.Invocation
import EntityQuery.Command.Table
import EntityQuery.Model.Metamodel
import EntityQuery.Plan.Json
import EntityQuery.Result.Json

/-!
# What commands show

Plans, results and entities as lines of text.
-/

namespace EntityQuery

def Plan.sqlLines (plan : Plan) : List String :=
  "Generated SQL:" :: plan.statements.map (·.sql)

def Return.line (returned : Return) : String :=
  let name := match returned.alias? with
    | some name => " as " ++ name
    | none => ""
  s!"    • {returned.type.text}" ++ name ++ " [" ++ ", ".intercalate returned.labels ++ "]"

def Binding.line (binding : Binding) (position : Nat) : String :=
  s!"    #{position + 1} {binding.source.text} {binding.type.text}"
    ++ if binding.expandable then " (list)" else ""

def Command.listed (heading : String) (lines : List String) : List String :=
  if lines.isEmpty then [] else heading :: lines

def Plan.explanation (plan : Plan) : List String :=
  [s!"  Kind: {plan.kind.statementKind.text}", "  Tables: " ++ ", ".intercalate plan.tables]
    ++ Command.listed "  Returns:" (plan.returns.map Return.line)
    ++ Command.listed "  Parameters:"
      (plan.bindings.zipIdx.map fun (binding, position) => binding.line position)
    ++ (if plan.kind.fetchesCollection then
        ["  Contains a collection fetch: iterate/scroll unavailable"] else [])
    ++ "" :: plan.sqlLines

/-! ## Results -/

def ResultValue.cell (value : ResultValue) : String :=
  match value with
  | .scalar .null => "NULL"
  | .scalar known => known.text
  | .reference entity id => entity ++ "#" ++ id.text
  | other => (Instance.valueJson other).compact

/-- The heading of a column: its alias, or its position and type. -/
def Return.heading (returned : Return) (position : Nat) : String :=
  returned.alias?.getD s!"{position}:{returned.type.text}"

def QueryResult.cells (columns : Nat) (result : QueryResult) : List String :=
  (List.range columns).map fun position => ((result.get? position).map ResultValue.cell).getD ""

def Plan.table (plan : Plan) (results : List QueryResult) : Command.Table where
  header := plan.returns.zipIdx.map fun (returned, position) => returned.heading position
  rows := results.map (QueryResult.cells plan.returns.length)

def Plan.resultLines (plan : Plan) (format : Command.Format) (results : List QueryResult) :
    List String :=
  if results.isEmpty then ["(no results)"]
  else
    match format with
    | .json => [(Json.array (results.map QueryResult.json)).pretty]
    | .table => (plan.table results).lines ++ ["", s!"{results.length} row(s) returned"]

/-! ## Entities -/

def PropertyKind.text : PropertyKind → String
  | .basic _ type => type.text
  | .component name _ => "component " ++ name
  | .association (.manyToOne target _) => "→ " ++ target
  | .association (.oneToMany target _) => s!"→ [{target}]"
  | .association (.manyToMany target table _ _) => s!"→ [{target}] via {table}"

def Entity.lines (entity : Entity) : List String :=
  s!"{entity.name} ({entity.table})" :: s!"    {entity.identifier.name} id"
    :: entity.properties.map fun property => s!"    {property.name} {property.kind.text}"

end EntityQuery
