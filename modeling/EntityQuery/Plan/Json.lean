import EntityQuery.Json
import EntityQuery.Plan.Basic

/-!
# Plans as JSON

A plan as it is shown to a user: everything but the layout of its rows.
-/

namespace EntityQuery

def taggedJson (tag : String) (value : Json) : Json :=
  .object [(tag, value)]

def SemanticType.json : SemanticType → Json
  | .boolean => .string "Boolean"
  | .integer => .string "Integer"
  | .double => .string "Double"
  | .string => .string "String"
  | .timestamp => .string "Timestamp"
  | .entity name => taggedJson "Entity" (.string name)
  | .component name => taggedJson "Component" (.string name)

def PlanKind.json : PlanKind → Json
  | .select collectionFetch =>
    taggedJson "Select" (.object [("contains_collection_fetch", .bool collectionFetch)])
  | .update => taggedJson "Manipulation" (.string "Update")
  | .delete => taggedJson "Manipulation" (.string "Delete")

def Query.Shape.json : Query.Shape → Json
  | .map => .string "Map"
  | .list => .string "List"
  | .named name => taggedJson "Named" (.string name)

def ParameterSource.json : ParameterSource → Json
  | .named name => taggedJson "Named" (.string name)
  | .ordinal position => taggedJson "Ordinal" (.int position)
  | .filter owner parameter =>
    taggedJson "Synthesized"
      (.object [("filter", .string owner), ("parameter", .string parameter)])

def Fragment.json : Fragment → Json
  | .text sql => taggedJson "Text" (.string sql)
  | .placeholder binding => taggedJson "Placeholder" (.int binding)

def PlannedStatement.json (statement : PlannedStatement) : Json :=
  .object
    [("fragments", .array (statement.fragments.map Fragment.json)), ("sql", .string statement.sql)]

def Binding.json (binding : Binding) : Json :=
  .object
    [("source", binding.source.json), ("semantic_type", binding.type.json),
      ("expandable", .bool binding.expandable), ("statement", .int binding.statement)]

def ParameterInfo.json (info : ParameterInfo) : Json :=
  .object
    [("positions", .array (info.positions.map fun (position : Nat) => .int position)),
      ("semantic_type", info.type.json), ("expandable", .bool info.expandable)]

def ParameterTable.json (table : ParameterTable) : Json :=
  .object
    [("named", .object (table.named.map fun (name, info) => (name, info.json))),
      ("ordinal",
        .object (table.ordinal.map fun (position, info) => (toString position, info.json)))]

def Plan.json (plan : Plan) : Json :=
  .object
    [("query_identifier", .string plan.identifier),
      ("query_string", .string plan.query),
      ("enabled_filters", Json.strings plan.filters),
      ("shallow", .bool plan.shallow),
      ("kind", plan.kind.json),
      ("query_spaces", Json.strings plan.tables),
      ("statements", .array (plan.statements.map PlannedStatement.json)),
      ("parameter_bindings", .array (plan.bindings.map Binding.json)),
      ("parameter_translations", plan.parameters.json),
      ("return_types", .array (plan.returns.map (·.type.json))),
      ("return_aliases", .array (plan.returns.map fun value => Json.ofOption .string value.alias?)),
      ("column_names", .array (plan.returns.map fun value => Json.strings value.labels)),
      ("dynamic_result_type", Json.ofOption Query.Shape.json plan.shape)]

end EntityQuery
