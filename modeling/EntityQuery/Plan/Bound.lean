import EntityQuery.Plan.Basic

/-!
# Bound statements

A plan with the values for one execution: the final text of each statement and its values in the
order of the placeholders. The parameters are checked first as a whole, and then each value against
the type of the placeholder it goes to. A list of values takes one placeholder for each of them.
-/

namespace EntityQuery

structure BoundStatement where
  sql : String
  values : List (Value × SemanticType)
  deriving Repr, DecidableEq

/-- How the part of the rows that is asked for is cut out. -/
inductive Paging where
  /-- By the statement. -/
  | sql
  /-- From the results; the statement only locks the rows. -/
  | inMemory
  /-- Not at all, and no rows are locked. -/
  | off
  deriving Repr, DecidableEq

namespace ParameterTable

def unknown? (table : ParameterTable) (parameters : Parameters) (query : String) :
    Option BindingFault :=
  (parameters.named.findSome? fun (name, _) =>
    if (table.named.lookup name).isSome then none else some (.unknownNamed name)).or
  (parameters.ordinal.findSome? fun (position, _) =>
    if (table.ordinal.lookup position).isSome then none else some (.unknownOrdinal position query))

def missing? (table : ParameterTable) (parameters : Parameters) (query : String) :
    Option BindingFault :=
  (table.named.findSome? fun (name, _) =>
    if (parameters.named.lookup name).isSome then none else some (.missingNamed name query)).or
  (table.ordinal.findSome? fun (position, _) =>
    if (parameters.ordinal.lookup position).isSome then none
    else some (.missingOrdinal position query))

/-- A list where a single value is needed, or a list without values. -/
def listFault? (source : ParameterSource) (info : Option ParameterInfo) :
    ParameterValue → Option BindingFault
  | .single _ => none
  | .list values =>
    if !info.any (·.expandable) then some (.unexpectedList source.text)
    else if values.isEmpty then some (.emptyList source.text)
    else none

def misplacedList? (table : ParameterTable) (parameters : Parameters) : Option BindingFault :=
  (parameters.named.findSome? fun (name, value) =>
    listFault? (.named name) (table.named.lookup name) value).or
  (parameters.ordinal.findSome? fun (position, value) =>
    listFault? (.ordinal position) (table.ordinal.lookup position) value)

/-- Accepts values for exactly the parameters of the query, with lists only where they fit. -/
def validate (table : ParameterTable) (parameters : Parameters) (query : String) :
    Except BindingFault Unit :=
  match ((table.unknown? parameters query).or (table.missing? parameters query)).or
      (table.misplacedList? parameters) with
  | some fault => .error fault
  | none => .ok ()

end ParameterTable

namespace Binding

def supplied (binding : Binding) (parameters : Parameters) (filters : EnabledFilters) :
    Except BindingFault (List Value) :=
  match binding.source with
  | .named name =>
    match parameters.named.lookup name with
    | some value => .ok value.values
    | none => .error (.missingNamed name "")
  | .ordinal position =>
    match parameters.ordinal.lookup position with
    | some value => .ok value.values
    | none => .error (.missingOrdinal position "")
  | .filter owner parameter =>
    match filters.value? owner parameter with
    | some value => .ok [value]
    | none => .error (.missingFilterParameter owner parameter)

/-- The values for a placeholder, each of a kind that the placeholder accepts. -/
def values (binding : Binding) (parameters : Parameters) (filters : EnabledFilters) :
    Except BindingFault (List Value) := do
  let given ← binding.supplied parameters filters
  match given.find? fun value => !binding.type.accepts value with
  | some value => .error (.typeMismatch binding.source.text binding.type.text value.kind)
  | none => return given

end Binding

namespace Plan

/-- The end of the main statement of a select. -/
def ending (dialect : Sql.Dialect) (parameters : Parameters) : Paging → String
  | .sql => dialect.selectionClause parameters.selection ++ dialect.lockClause parameters.lock
  | .inMemory => dialect.lockClause parameters.lock
  | .off => ""

def boundStatement (plan : Plan) (dialect : Sql.Dialect) (resolved : List (List Value))
    (statement : PlannedStatement) : BoundStatement :=
  let valuesOf := fun (binding : Nat) => (resolved[binding]?).getD []
  { sql := Fragment.render dialect (fun binding => (valuesOf binding).length) 1 statement.fragments
    values := (Fragment.bindings statement.fragments).flatMap fun binding =>
      match plan.bindings[binding]? with
      | some slot => (valuesOf binding).map fun value => (value, slot.type)
      | none => [] }

def endWith (ending : String) (statement : BoundStatement) : BoundStatement :=
  { statement with sql := statement.sql ++ ending }

def bind (plan : Plan) (dialect : Sql.Dialect) (parameters : Parameters) (filters : EnabledFilters)
    (paging : Paging) : Except BindingFault (List BoundStatement) := do
  plan.parameters.validate parameters plan.query
  let resolved ← plan.bindings.mapM fun binding => binding.values parameters filters
  let statements := plan.statements.map (plan.boundStatement dialect resolved)
  if plan.kind.isManipulation then return statements
  else
    return statements.modify (statements.length - 1)
      (endWith (ending dialect parameters paging))

end Plan

end EntityQuery
