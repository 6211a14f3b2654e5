import EntityQuery.Number.Reading
import EntityQuery.Query.Printer
import EntityQuery.Query.Token
import EntityQuery.Text.Case

/-!
# The grammar

How query text is read. Each level of the expression grammar is a reader that is given the reader of
whole expressions, `nested`, for what stands in parentheses; `expression` ties the knot. An opening
parenthesis is always taken first, so the text left for a nested expression is shorter, and that is
what makes the recursion end.

Operators of one level group to the left. From the loosest to the tightest: `or`, `and`, `not`, one
predicate, `||` with `+` and `-`, then `*` with `/` and `%`, then the sign.
-/

namespace EntityQuery.Query.Grammar

open Reader Token

/-- Words that can neither be an alias nor start a path. -/
def reservedWords : List String :=
  ["select", "from", "where", "join", "inner", "left", "outer", "fetch", "on", "with", "group",
    "order", "by", "having", "as", "and", "or", "not", "set", "in", "is", "like", "between",
    "escape", "asc", "desc", "null", "true", "false", "new", "distinct", "update", "delete",
    "empty"]

def isReserved (word : String) : Bool :=
  reservedWords.contains (Text.lowerAscii word)

/-! ## Names -/

def freeName : Reader String :=
  name.check fun word => !isReserved word

/-- The rest of a dotted name: each part follows its dot without blanks. -/
def dottedRest : Reader (List String) :=
  many do
    exactly "."
    name

/-- A path, whose first name is not reserved. -/
def path : Reader (List String) := do
  blanks
  let first ← freeName
  let rest ← dottedRest
  return first :: rest

/-- The name of an entity. Any name will do, a reserved one too. -/
def entityName : Reader String := do
  blanks
  let first ← name
  let rest ← dottedRest
  return pathText (first :: rest)

def aliasName : Reader String := do
  let _ ← (keyword "as").optional
  blanks
  freeName

/-! ## Literals and parameters -/

/-- The rest of a quoted text, after its opening quote. Two quotes stand for one. -/
def quotedRest : List Char → Except (List Char) (List Char × List Char)
  | [] => .error []
  | c :: rest =>
    if c = '\'' then
      match rest with
      | '\'' :: after =>
        match quotedRest after with
        | .ok (body, left) => .ok ('\'' :: body, left)
        | .error place => .error place
      | _ => .ok ([], rest)
    else
      match quotedRest rest with
      | .ok (body, left) => .ok (c :: body, left)
      | .error place => .error place

def stringLiteral : Reader Literal := do
  exactly "'"
  let body ← quotedRest
  return .string (String.ofList body)

def doubleLiteral : Reader Literal :=
  (show Reader (List Char) from do
    let whole ← digits
    exactly "."
    let fraction ← digits
    return whole ++ '.' :: fraction).convert fun text => (Double.read? text).map .double

def intLiteral : Reader Literal :=
  (show Reader (List Char) from do
    let run ← digits
    notNext isNameChar
    return run).convert fun text => (readInt64? text).map .int

def constant {α : Type} (word : String) (value : α) : Reader α := do
  keyword word
  return value

def literal : Reader Literal := do
  blanks
  oneOf (constant "null" .null)
    [stringLiteral, doubleLiteral, intLiteral, constant "true" (.bool true),
      constant "false" (.bool false)]

def namedParameter : Reader Expr := do
  exactly ":"
  return .named (← name)

def ordinalParameter : Reader Expr :=
  (show Reader (List Char) from do
    exactly "?"
    digits).convert fun text => (readBelow? (Nat.pow 2 32) text).map .ordinal

def legacyParameter : Reader Expr := do
  exactly "?"
  return .legacy

def parameter : Reader Expr := do
  blanks
  oneOf legacyParameter [namedParameter, ordinalParameter]

/-! ## Operands -/

section Levels

variable (nested : Reader Expr)

def parenthesized : Reader Expr := do
  symbol "("
  let inner ← nested
  symbol ")"
  return .nested inner

def aggregateFunction : Reader AggregateFunction :=
  oneOf (constant "max" .max)
    [constant "count" .count, constant "sum" .sum, constant "avg" .avg, constant "min" .min]

/-- What an aggregate is applied to: everything, or one expression, perhaps without repetitions. -/
def aggregateArgument : Reader (Bool × Option Expr) :=
  orElse (do
      symbol "*"
      return (false, none))
    (do
      let distinct ← (keyword "distinct").present
      return (distinct, some (← nested)))

def aggregate : Reader Expr := do
  let function ← aggregateFunction
  symbol "("
  let (distinct, argument) ← aggregateArgument nested
  symbol ")"
  return .aggregate function distinct argument

/-- A function call. The name is kept in lower case. -/
def call : Reader Expr := do
  blanks
  let function ← freeName
  symbol "("
  let arguments ← sepBy (symbol ",") nested
  symbol ")"
  return .call (Text.lowercase function) arguments

def operand : Reader Expr :=
  oneOf (do return .path (← path))
    [parenthesized nested, do return .literal (← literal), parameter, aggregate nested,
      call nested]

/-! ## Operators -/

/-- A minus sign before an expression: part of a number, an operator otherwise. -/
def withSign : Expr → Expr
  | .literal (.int n) => .literal (.int (-n))
  | .literal (.double x) => .literal (.double x.neg)
  | other => .negate other

def signed : Reader Expr :=
  marked (symbol "-") withSign (operand nested)

/-- Operands of one level with the operators between them, grouped to the left. -/
def leftGrouped {ω : Type} (operator : Reader ω) (p : Reader Expr) (join : ω → Expr → Expr → Expr) :
    Reader Expr := do
  let first ← p
  let rest ← many do
    let op ← operator
    return (op, ← p)
  return rest.foldl (fun left (op, right) => join op left right) first

def sign {α : Type} (word : String) (value : α) : Reader α := do
  symbol word
  return value

def product : Reader Expr :=
  leftGrouped (oneOf (sign "%" .mod) [sign "*" .mul, sign "/" .div]) (signed nested) .arithmetic

def sum : Reader Expr :=
  leftGrouped (oneOf (sign "-" .sub) [sign "||" .concat, sign "+" .add]) (product nested)
    .arithmetic

def compareOp : Reader CompareOp :=
  oneOf (sign "<" .lt)
    [sign ">=" .ge, sign "<=" .le, sign "<>" .ne, sign "!=" .ne, sign "=" .eq, sign ">" .gt]

def compareTail (left : Expr) : Reader Expr := do
  let op ← compareOp
  return .compare op left (← sum nested)

def isTail (left : Expr) : Reader Expr := do
  keyword "is"
  let negated ← (keyword "not").present
  orElse (constant "null" (.isNull left negated)) (constant "empty" (.isEmpty left negated))

def likeTail (left : Expr) : Reader Expr := do
  let negated ← (keyword "not").present
  keyword "like"
  let pattern ← sum nested
  let escape ← optional do
    keyword "escape"
    sum nested
  return .like left pattern escape negated

def betweenTail (left : Expr) : Reader Expr := do
  let negated ← (keyword "not").present
  keyword "between"
  let low ← sum nested
  keyword "and"
  return .between left low (← sum nested) negated

/-- The items of an `in` list; a parameter can do without the parentheses. -/
def inItems : Reader (List Expr) :=
  orElse (do
      symbol "("
      let items ← sepBy1 (symbol ",") nested
      symbol ")"
      return items)
    (do return [← parameter])

def inTail (left : Expr) : Reader Expr := do
  let negated ← (keyword "not").present
  keyword "in"
  return .inList left (← inItems nested) negated

/-- One predicate: an operand, and perhaps a test of it. -/
def predicate : Reader Expr := do
  let left ← sum nested
  let tested ← optional <|
    oneOf (inTail nested left)
      [compareTail nested left, isTail left, likeTail nested left, betweenTail nested left]
  return tested.getD left

def negation : Reader Expr :=
  marked (keyword "not") .not (predicate nested)

def conjunction : Reader Expr :=
  leftGrouped (constant "and" .and) (negation nested) .logical

def disjunction : Reader Expr :=
  leftGrouped (constant "or" .or) (conjunction nested) .logical

end Levels

/-- A whole expression. Nested expressions are read from what is left after their parenthesis. -/
def expression : Reader Expr := fun text =>
  disjunction (fun rest => if rest.length < text.length then expression rest else .error rest) text
termination_by text => text.length

/-! ## Clauses -/

def expressionAfter (word : String) : Reader (Option Expr) :=
  optional do
    keyword word
    expression

def selectItem : Reader SelectItem := do
  let expr ← expression
  let alias? ← optional do
    keyword "as"
    blanks
    name
  return { expr, alias? }

def selectItems : Reader (List SelectItem) :=
  sepBy1 (symbol ",") selectItem

def shape : Reader Shape :=
  oneOf (do return .named (← entityName)) [constant "map" .map, constant "list" .list]

/-- The items of `select new`, in parentheses after what to make of them. -/
def shapedItems : Reader (Option Shape × List SelectItem) := do
  keyword "new"
  let target ← shape
  symbol "("
  let items ← selectItems
  symbol ")"
  return (some target, items)

def selectClause : Reader SelectClause := do
  keyword "select"
  let distinct ← (keyword "distinct").present
  let (shape, items) ← orElse shapedItems do return (none, ← selectItems)
  return { distinct, shape, items }

def joinKind : Reader JoinKind :=
  oneOf (constant "join" .inner)
    [do
      keyword "left"
      let _ ← (keyword "outer").optional
      constant "join" .left,
    do
      keyword "inner"
      constant "join" .inner]

def join : Reader Join := do
  let kind ← joinKind
  let fetch ← (keyword "fetch").present
  let path ← path
  let alias? ← aliasName.optional
  let condition ← optional do
    orElse (keyword "with") (keyword "on")
    expression
  return { kind, fetch, path, alias?, condition }

def range : Reader Range := do
  let entity ← entityName
  let alias? ← aliasName.optional
  let joins ← many join
  return { entity, alias?, joins }

def orderItem : Reader OrderItem := do
  let expr ← expression
  let descending ← optional (orElse (constant "asc" false) (constant "desc" true))
  return { expr, descending := descending.getD false }

/-- A comma list after the two words of its clause; empty when the clause is missing. -/
def listAfter {α : Type} (word : String) (item : Reader α) : Reader (List α) := do
  let items ← optional do
    keyword word
    keyword "by"
    sepBy1 (symbol ",") item
  return items.getD []

/-! ## Statements -/

def select : Reader Select := do
  let clause ← selectClause.optional
  keyword "from"
  let ranges ← sepBy1 (symbol ",") range
  let condition ← expressionAfter "where"
  let groupBy ← listAfter "group" expression
  let having ← expressionAfter "having"
  let orderBy ← listAfter "order" orderItem
  return { clause, ranges, condition, groupBy, having, orderBy }

def assignment : Reader Assignment := do
  let path ← path
  symbol "="
  return { path, value := ← expression }

def update : Reader Update := do
  keyword "update"
  let entity ← entityName
  let alias? ← aliasName.optional
  keyword "set"
  let assignments ← sepBy1 (symbol ",") assignment
  let condition ← expressionAfter "where"
  return { entity, alias?, assignments, condition }

def delete : Reader Delete := do
  keyword "delete"
  let _ ← (keyword "from").optional
  let entity ← entityName
  let alias? ← aliasName.optional
  let condition ← expressionAfter "where"
  return { entity, alias?, condition }

def statement : Reader Statement :=
  oneOf (do return .select (← select))
    [do return .update (← update), do return .delete (← delete)]

end EntityQuery.Query.Grammar

namespace EntityQuery.Query

/-- Why a text is no statement: the byte position of the fault and the text found there. -/
inductive SyntaxFault where
  | trailing (position : Nat) (excerpt : String)
  | unexpected (position : Nat) (excerpt : String)
  deriving Repr, DecidableEq

def excerptLength : Nat := 24

def excerpt (text : List Char) : String :=
  match Text.trimStart text with
  | [] => "<end of query>"
  | shown => String.ofList (shown.take excerptLength)

def byteLength (text : List Char) : Nat :=
  text.foldl (fun length c => length + c.utf8Size) 0

/-- The statement that a text is, blanks around it aside. -/
def parse (query : String) : Except SyntaxFault Statement :=
  let text := query.toList
  match Grammar.statement text with
  | .ok (statement, rest) =>
    match Text.skipBlanks rest with
    | [] => .ok statement
    | more => .error (.trailing (byteLength text - byteLength more) (excerpt more))
  | .error place => .error (.unexpected (byteLength text - byteLength place) (excerpt place))

end EntityQuery.Query
