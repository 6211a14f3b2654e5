import EntityQuery.Error
import EntityQuery.Layout
import EntityQuery.Sql.Dialect
import EntityQuery.Sql.Template

/-!
# Plans

A plan is a compiled query: its statements with numbered placeholders, what each placeholder is bound
to, and how rows become results. It is made once and needs neither the query text nor the mapping
model again.
-/

namespace EntityQuery

inductive PlanKind where
  /-- Selects; with a collection fetch, several rows make up one result. -/
  | select (collectionFetch : Bool)
  | update
  | delete
  deriving Repr, DecidableEq

namespace PlanKind

def statementKind : PlanKind → StatementKind
  | .select _ => .select
  | .update => .update
  | .delete => .delete

def isManipulation : PlanKind → Bool
  | .select _ => false
  | .update | .delete => true

def fetchesCollection : PlanKind → Bool
  | .select collectionFetch => collectionFetch
  | .update | .delete => false

end PlanKind

inductive Fragment where
  | text (text : String)
  /-- A placeholder, by the number of its binding in the plan. -/
  | placeholder (binding : Nat)
  deriving Repr, DecidableEq

structure Binding where
  source : ParameterSource
  type : SemanticType
  /-- It stands in an `in` list and can take any number of values. -/
  expandable : Bool
  /-- The number of the statement that it stands in. -/
  statement : Nat
  deriving Repr, DecidableEq

namespace Fragment

/-- The fragments of a template, its placeholders numbered from a start. -/
def number (start : Nat) : List Sql.Piece → List Fragment
  | [] => []
  | .text sql :: rest => .text sql :: number start rest
  | .slot _ :: rest => .placeholder start :: number (start + 1) rest

/-- The placeholders of one binding, from a number on. A binding has at least one. -/
def placeholders (dialect : Sql.Dialect) (start count : Nat) : String :=
  ", ".intercalate ((List.range (max count 1)).map fun i => dialect.placeholder (start + i))

/-- The text of fragments, with as many placeholders for each binding as `count` says. The first
placeholder has the given number. -/
def render (dialect : Sql.Dialect) (count : Nat → Nat) (next : Nat) : List Fragment → String
  | [] => ""
  | .text sql :: rest => sql ++ render dialect count next rest
  | .placeholder binding :: rest =>
    placeholders dialect next (count binding)
      ++ render dialect count (next + max (count binding) 1) rest

/-- The bindings of the placeholders, in the order of the text. -/
def bindings (fragments : List Fragment) : List Nat :=
  fragments.filterMap fun
    | .placeholder binding => some binding
    | .text _ => none

end Fragment

structure PlannedStatement where
  fragments : List Fragment
  /-- The text with one placeholder for each binding. -/
  sql : String
  deriving Repr, DecidableEq

/-- What is known about one parameter of the query, over all places where it stands. -/
structure ParameterInfo where
  positions : List Nat
  type : SemanticType
  /-- Every one of its places is in an `in` list. -/
  expandable : Bool
  deriving Repr, DecidableEq

def ParameterInfo.ofUses? : List (Binding × Nat) → Option ParameterInfo
  | [] => none
  | (first, position) :: rest =>
    some ⟨position :: rest.map (·.2), first.type,
      first.expandable && rest.all (·.1.expandable)⟩

/-- The parameters of a query, sorted by name and by number. -/
structure ParameterTable where
  named : List (String × ParameterInfo)
  ordinal : List (Nat × ParameterInfo)
  deriving Repr, DecidableEq

namespace ParameterTable

def uses (bindings : List Binding) (source : ParameterSource) : List (Binding × Nat) :=
  bindings.zipIdx.filter (·.1.source == source)

def names (bindings : List Binding) : List String :=
  bindings.foldl (fun names binding =>
    match binding.source with
    | .named name => Keyed.insertKey name names
    | _ => names) []

def positions (bindings : List Binding) : List Nat :=
  bindings.foldl (fun positions binding =>
    match binding.source with
    | .ordinal position => Keyed.insertKey position positions
    | _ => positions) []

def ofBindings (bindings : List Binding) : ParameterTable where
  named := (names bindings).filterMap fun name =>
    (ParameterInfo.ofUses? (uses bindings (.named name))).map fun info => (name, info)
  ordinal := (positions bindings).filterMap fun position =>
    (ParameterInfo.ofUses? (uses bindings (.ordinal position))).map fun info => (position, info)

end ParameterTable

structure Plan where
  /-- The name under which the query was compiled. -/
  identifier : String
  /-- The query text as it was given, before substitution. -/
  query : String
  filters : List String
  shallow : Bool
  kind : PlanKind
  tables : List String
  statements : List PlannedStatement
  bindings : List Binding
  returns : List Return
  fetches : List Fetch
  shape : Option Query.Shape
  deriving Repr, DecidableEq

namespace Plan

def parameters (plan : Plan) : ParameterTable :=
  .ofBindings plan.bindings

/-- The text of the main statement, which is the last one. -/
def sql (plan : Plan) : String :=
  (plan.statements.getLast?.map (·.sql)).getD ""

end Plan

end EntityQuery
