import EntityQuery.Query.Statement
import EntityQuery.Sql.Term

/-!
# SQL statements

The trees of the statements that queries are compiled to.
-/

namespace EntityQuery.Sql

/-- A condition of a join: one from the query, or the text of a filter. -/
inductive Condition where
  | term (term : Term)
  | filter (text : Template)
  deriving Repr

/-- One joined table. Its `on` clause is an equality of keys, and the conditions besides. -/
structure JoinedTable where
  kind : Query.JoinKind
  table : String
  tableAlias : String
  left : ColumnRef
  right : ColumnRef
  conditions : List Condition
  deriving Repr

structure TableRange where
  table : String
  tableAlias : Option String
  joins : List JoinedTable
  deriving Repr

structure SelectColumn where
  term : Term
  label : String
  deriving Repr

structure Select where
  distinct : Bool
  columns : List SelectColumn
  ranges : List TableRange
  condition : Option Term
  /-- Filters on the tables of the ranges, which restrict the rows besides the condition. -/
  filters : List Template
  groupBy : List Term
  having : Option Term
  orderBy : List (Term × Bool)
  deriving Repr

structure Update where
  table : String
  assignments : List (ColumnRef × Term)
  condition : Option Term
  deriving Repr

/-- Removes the rows of a table between two entities that belong to the rows of `table` which the
condition selects. -/
structure Unlink where
  linkTable : String
  keyColumn : String
  table : String
  identifier : String
  condition : Option Term
  deriving Repr

structure Delete where
  table : String
  condition : Option Term
  deriving Repr

inductive Statement where
  | select (statement : Select)
  | update (statement : Update)
  | unlink (statement : Unlink)
  | delete (statement : Delete)
  deriving Repr

end EntityQuery.Sql
