import EntityQuery.Query.Expr
import EntityQuery.Sql.Template

/-!
# SQL expressions

The tree of an SQL expression, in which every column is qualified and every parameter is typed. It is
common to all dialects; how it is written is said in `Sql.Printer`.
-/

namespace EntityQuery.Sql

/-- A column, with the table or table alias it belongs to if that is written. -/
structure ColumnRef where
  qualifier : Option String
  column : String
  deriving Repr, DecidableEq

/-- A query on one table that looks for rows whose key is the owner's identifier. -/
structure KeyLookup where
  table : String
  tableAlias : String
  keyColumn : String
  owner : ColumnRef
  deriving Repr, DecidableEq

inductive Term where
  | literal (value : Query.Literal)
  | column (ref : ColumnRef)
  | slot (slot : Slot)
  | group (inner : Term)
  | negate (inner : Term)
  | not (inner : Term)
  | logical (op : Query.LogicalOp) (left right : Term)
  | compare (op : Query.CompareOp) (left right : Term)
  | arithmetic (op : Query.ArithmeticOp) (left right : Term)
  /-- Texts joined the way the dialect does it. -/
  | concat (parts : List Term)
  | like (subject pattern : Term) (escape : Option Term) (negated : Bool)
  | inList (subject : Term) (items : List Term) (negated : Bool)
  | between (subject low high : Term) (negated : Bool)
  | isNull (subject : Term) (negated : Bool)
  /-- A test of all columns of a component: they are null, or one of them is not. -/
  | areNull (columns : List ColumnRef) (negated : Bool)
  /-- Whether a lookup finds no row; negated, whether it finds one. -/
  | noneFound (lookup : KeyLookup) (negated : Bool)
  | call (function : String) (arguments : List Term)
  | aggregate (function : Query.AggregateFunction) (distinct : Bool) (argument : Option Term)
  deriving Repr

namespace Term

/-- A parameter that can take any number of values; other terms stay as they are. -/
def asListItem : Term → Term
  | .slot parameter => .slot { parameter with expandable := true }
  | term => term

end Term

end EntityQuery.Sql
