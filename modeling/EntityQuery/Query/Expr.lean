import EntityQuery.Number.Double

/-!
# Expressions of the query language

The tree of an expression as it is written: parentheses, the sign of a negated operand and the order
of operators are all kept, so that a query can be printed back the way it groups.
-/

namespace EntityQuery.Query

inductive Literal where
  | null
  | bool (value : Bool)
  | int (value : Int)
  | double (value : Double)
  | string (value : String)
  deriving Repr, DecidableEq

inductive LogicalOp where
  | and
  | or
  deriving Repr, DecidableEq

inductive CompareOp where
  | eq
  | ne
  | lt
  | le
  | gt
  | ge
  deriving Repr, DecidableEq

inductive ArithmeticOp where
  | add
  | sub
  | mul
  | div
  | mod
  | concat
  deriving Repr, DecidableEq

inductive AggregateFunction where
  | count
  | sum
  | avg
  | min
  | max
  deriving Repr, DecidableEq

inductive Expr where
  | literal (value : Literal)
  | named (name : String)
  | ordinal (position : Nat)
  /-- A parameter `?` without a number, which can be read but not compiled. -/
  | legacy
  /-- Names joined by dots. -/
  | path (segments : List String)
  | nested (inner : Expr)
  | negate (inner : Expr)
  | not (inner : Expr)
  | logical (op : LogicalOp) (left right : Expr)
  | compare (op : CompareOp) (left right : Expr)
  | arithmetic (op : ArithmeticOp) (left right : Expr)
  | like (subject pattern : Expr) (escape : Option Expr) (negated : Bool)
  | inList (subject : Expr) (items : List Expr) (negated : Bool)
  | between (subject low high : Expr) (negated : Bool)
  | isNull (subject : Expr) (negated : Bool)
  | isEmpty (subject : Expr) (negated : Bool)
  | call (function : String) (arguments : List Expr)
  /-- An aggregate; without an argument it is applied to `*`. -/
  | aggregate (function : AggregateFunction) (distinct : Bool) (argument : Option Expr)
  deriving Repr, BEq

namespace Expr

def isParameter : Expr → Bool
  | .named _ | .ordinal _ | .legacy => true
  | _ => false

end Expr

end EntityQuery.Query
