import EntityQuery.Query.Expr

/-!
# Statements of the query language

A statement selects from ranges of entities, or changes the entities of one kind in bulk. Ranges are
joined along associations; a join may be marked `fetch`, which loads the association together with
its owner.
-/

namespace EntityQuery.Query

inductive JoinKind where
  | inner
  | left
  deriving Repr, DecidableEq

structure Join where
  kind : JoinKind
  fetch : Bool
  path : List String
  alias? : Option String
  condition : Option Expr
  deriving Repr, BEq

/-- One entity of the from clause with the joins written after it. -/
structure Range where
  entity : String
  alias? : Option String
  joins : List Join
  deriving Repr, BEq

structure SelectItem where
  expr : Expr
  alias? : Option String
  deriving Repr, BEq

/-- What `select new` makes of each row. -/
inductive Shape where
  | map
  | list
  | named (name : String)
  deriving Repr, DecidableEq

/-- The select clause; `shape` is present for `select new`. -/
structure SelectClause where
  distinct : Bool
  shape : Option Shape
  items : List SelectItem
  deriving Repr, BEq

structure OrderItem where
  expr : Expr
  descending : Bool
  deriving Repr, BEq

structure Select where
  clause : Option SelectClause
  ranges : List Range
  condition : Option Expr
  groupBy : List Expr
  having : Option Expr
  orderBy : List OrderItem
  deriving Repr, BEq

structure Assignment where
  path : List String
  value : Expr
  deriving Repr, BEq

structure Update where
  entity : String
  alias? : Option String
  assignments : List Assignment
  condition : Option Expr
  deriving Repr, BEq

structure Delete where
  entity : String
  alias? : Option String
  condition : Option Expr
  deriving Repr, BEq

inductive Statement where
  | select (statement : Select)
  | update (statement : Update)
  | delete (statement : Delete)
  deriving Repr, BEq

end EntityQuery.Query
