import EntityQuery.Number.Decimal
import EntityQuery.Query.Statement

/-!
# Query text

Statements and expressions written back as query text. The printer adds no parentheses of its own:
those that matter are nodes of the tree. Keywords come out in lower case, `<>` is the only spelling of
inequality, an inner join is just `join`, and the `escape` of a `like` is left out.
-/

namespace EntityQuery.Query

def LogicalOp.text : LogicalOp → String
  | .and => "and"
  | .or => "or"

def CompareOp.text : CompareOp → String
  | .eq => "="
  | .ne => "<>"
  | .lt => "<"
  | .le => "<="
  | .gt => ">"
  | .ge => ">="

def ArithmeticOp.text : ArithmeticOp → String
  | .add => "+"
  | .sub => "-"
  | .mul => "*"
  | .div => "/"
  | .mod => "%"
  | .concat => "||"

def AggregateFunction.text : AggregateFunction → String
  | .count => "count"
  | .sum => "sum"
  | .avg => "avg"
  | .min => "min"
  | .max => "max"

/-- The characters of a text with every quote written twice. -/
def doubleQuotes : List Char → List Char
  | [] => []
  | c :: rest => if c = '\'' then '\'' :: '\'' :: doubleQuotes rest else c :: doubleQuotes rest

def quoted (text : String) : String :=
  "'" ++ String.ofList (doubleQuotes text.toList) ++ "'"

def Literal.text : Literal → String
  | .null => "NULL"
  | .bool value => toString value
  | .int value => toString value
  | .double value => DecimalStyle.plain.text value
  | .string value => quoted value

def pathText (segments : List String) : String :=
  ".".intercalate segments

/-- The word that negates a predicate, with a blank after it. -/
def notText (negated : Bool) : String :=
  if negated then "not " else ""

mutual
def Expr.text : Expr → String
  | .literal value => value.text
  | .named name => ":" ++ name
  | .ordinal position => "?" ++ toString position
  | .legacy => "?"
  | .path segments => pathText segments
  | .nested inner => "(" ++ inner.text ++ ")"
  | .negate inner => "-" ++ inner.text
  | .not inner => "not " ++ inner.text
  | .logical op left right => left.text ++ " " ++ op.text ++ " " ++ right.text
  | .compare op left right => left.text ++ " " ++ op.text ++ " " ++ right.text
  | .arithmetic op left right => left.text ++ " " ++ op.text ++ " " ++ right.text
  | .like subject pattern _ negated =>
    subject.text ++ " " ++ notText negated ++ "like " ++ pattern.text
  | .inList subject items negated =>
    subject.text ++ " " ++ notText negated ++ "in (" ++ Expr.texts items ++ ")"
  | .between subject low high negated =>
    subject.text ++ " " ++ notText negated ++ "between " ++ low.text ++ " and " ++ high.text
  | .isNull subject negated => subject.text ++ " is " ++ notText negated ++ "null"
  | .isEmpty subject negated => subject.text ++ " is " ++ notText negated ++ "empty"
  | .call function arguments => function ++ "(" ++ Expr.texts arguments ++ ")"
  | .aggregate function _ none => function.text ++ "(*)"
  | .aggregate function distinct (some argument) =>
    function.text ++ "(" ++ (if distinct then "distinct " else "") ++ argument.text ++ ")"

def Expr.texts : List Expr → String
  | [] => ""
  | [item] => item.text
  | item :: rest => item.text ++ ", " ++ Expr.texts rest
end

def commaList (texts : List String) : String :=
  ", ".intercalate texts

/-- An optional part, with the words that introduce it. -/
def optionText {α : Type} (intro : String) (text : α → String) : Option α → String
  | some part => intro ++ text part
  | none => ""

def Join.text (join : Join) : String :=
  (match join.kind with
    | .inner => "join "
    | .left => "left join ")
    ++ (if join.fetch then "fetch " else "") ++ pathText join.path
    ++ optionText " " id join.alias? ++ optionText " with " Expr.text join.condition

def Range.text (range : Range) : String :=
  range.entity ++ optionText " " id range.alias?
    ++ String.join (range.joins.map fun join => " " ++ join.text)

def SelectItem.text (item : SelectItem) : String :=
  item.expr.text ++ optionText " as " id item.alias?

def Shape.text : Shape → String
  | .map => "map"
  | .list => "list"
  | .named name => name

def SelectClause.text (clause : SelectClause) : String :=
  let items := commaList (clause.items.map SelectItem.text)
  "select " ++ (if clause.distinct then "distinct " else "")
    ++ (match clause.shape with
      | some shape => "new " ++ shape.text ++ "(" ++ items ++ ")"
      | none => items)

def OrderItem.text (item : OrderItem) : String :=
  item.expr.text ++ (if item.descending then " desc" else "")

/-- A clause that is a list; left out when the list is empty. -/
def listClause {α : Type} (intro : String) (text : α → String) (items : List α) : String :=
  if items.isEmpty then "" else intro ++ commaList (items.map text)

def Select.text (select : Select) : String :=
  optionText "" (fun clause => clause.text ++ " ") select.clause
    ++ "from " ++ commaList (select.ranges.map Range.text)
    ++ optionText " where " Expr.text select.condition
    ++ listClause " group by " Expr.text select.groupBy
    ++ optionText " having " Expr.text select.having
    ++ listClause " order by " OrderItem.text select.orderBy

def Assignment.text (assignment : Assignment) : String :=
  pathText assignment.path ++ " = " ++ assignment.value.text

def Update.text (update : Update) : String :=
  "update " ++ update.entity ++ optionText " " id update.alias?
    ++ " set " ++ commaList (update.assignments.map Assignment.text)
    ++ optionText " where " Expr.text update.condition

def Delete.text (delete : Delete) : String :=
  "delete from " ++ delete.entity ++ optionText " " id delete.alias?
    ++ optionText " where " Expr.text delete.condition

def Statement.text : Statement → String
  | .select statement => statement.text
  | .update statement => statement.text
  | .delete statement => statement.text

end EntityQuery.Query
