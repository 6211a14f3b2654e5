import EntityQuery.Scope.Path

/-!
# Typed expressions

The SQL term of an expression and the type of its value. Paths have the type of what they denote; the
type of a parameter has to come from where it stands, which is what the `hint` of each function
carries. Two operands of an operator type each other: the left one is done first and its type is the
hint for the right one, except that a parameter on the left waits for the right one, unless that is
a parameter too.

A parameter that stands for an entity is given the entity's identifier.
-/

namespace EntityQuery

open Query (Expr)
open Scoped (misuse fail ofMapping)

/-- A term and the type of its value, when that is known. -/
structure Typed where
  term : Sql.Term
  type : Option SemanticType
  deriving Repr

namespace Typed

def boolean (term : Sql.Term) : Typed :=
  ⟨term, some .boolean⟩

/-- The type of a literal; null has any type. -/
def literalType : Query.Literal → Option SemanticType
  | .null => none
  | .bool _ => some .boolean
  | .int _ => some .integer
  | .double _ => some .double
  | .string _ => some .string

section

variable (context : Context)

/-- The type of the values for a parameter that stands for a value of a given type. -/
def slotType (source : ParameterSource) : SemanticType → Scoped SemanticType
  | .entity name => do return (← ofMapping (context.model.entity name)).identifier.type
  | .component name => misuse context (.componentParameter source.text name)
  | type => pure type

def slot (source : ParameterSource) (hint : Option SemanticType) : Scoped Typed := do
  match hint with
  | none => fail (.undetermined source.text)
  | some type => return ⟨.slot ⟨source, ← slotType context source type, false⟩, some type⟩

def parameter (expr : Expr) (hint : Option SemanticType) : Scoped Typed :=
  match expr with
  | .named name => slot context (.named name) hint
  | .ordinal position => slot context (.ordinal position) hint
  | .legacy => fail (.legacyParameter context.query)
  | other => fail (.undetermined other.text)

/-- The value that a path stands for; an entity stands for its identifier. -/
def denoted (path : List String) : Meaning → Scoped Typed
  | .column owner column type => return ⟨.column (owner.column column), some type⟩
  | .entity element => return ⟨.column element.identifier, some (.entity element.entity.name)⟩
  | .reference owner _ target column =>
    return ⟨.column (owner.column column), some (.entity target)⟩
  | .component .. => misuse context (.componentInExpression path)
  | .collection .. => misuse context (.collectionDereference path)

/-- Whether a path denotes null. A component is null when all its columns are. -/
def nullTest (path : List String) (negated : Bool) : Scoped Typed := do
  match ← Scope.resolve context path with
  | .component owner _ fields =>
    return boolean (.areNull (fields.map fun field => owner.column field.column) negated)
  | meaning => return boolean (.isNull (← denoted context path meaning).term negated)

/-- The table that holds the elements of a collection, and its column with the owner's key. -/
def elementTable? : Association → Scoped (Option (String × String))
  | .oneToMany target keyColumn => do
    return some ((← ofMapping (context.model.entity target)).table, keyColumn)
  | .manyToMany _ table keyColumn _ => return some (table, keyColumn)
  | .manyToOne .. => return none

/-- Whether a collection is empty: no row of the table of its elements has the owner's key. -/
def emptyTest (expr : Expr) (negated : Bool) : Scoped Typed := do
  match expr with
  | .path path =>
    match ← Scope.resolve context path with
    | .collection owner association =>
      match ← elementTable? context association with
      | some (table, keyColumn) =>
        modify (·.addTable table)
        let tableAlias ← Scope.nextAlias (aliasStem Char.isAlphanum table)
        let identifier := owner.outerColumn owner.entity.identifier.column
        return boolean (.noneFound ⟨table, tableAlias, keyColumn, identifier⟩ negated)
      | none => misuse context (.notCollection expr.text)
    | _ => misuse context (.notCollection expr.text)
  | _ => misuse context (.notCollection expr.text)

end

/-- Both operands of an operator, each the hint for the other. -/
def operands (leftIsParameter rightIsParameter : Bool)
    (left right : Option SemanticType → Scoped Typed) (hint : Option SemanticType) :
    Scoped (Typed × Typed) := do
  if leftIsParameter && !rightIsParameter then
    let second ← right hint
    let first ← left (second.type.or hint)
    return (first, second)
  else
    let first ← left hint
    let second ← right (first.type.or hint)
    return (first, second)

/-- The type of a calculation: a double makes it a double, else it is the first type that is
known. -/
def resultType (left right : Option SemanticType) : Option SemanticType :=
  if left = some .double ∨ right = some .double then some .double else left.or right

inductive Function where
  /-- One argument, with a hint for it and the type of the result, if it is not the argument's. -/
  | unary (hint result : Option SemanticType)
  | coalesce
  | concat
  deriving Repr, DecidableEq

def Function.ofName? (name : String) : Option Function :=
  match name with
  | "lower" | "upper" | "trim" => some (.unary (some .string) (some .string))
  | "length" => some (.unary (some .string) (some .integer))
  | "abs" => some (.unary none none)
  | "coalesce" => some .coalesce
  | "concat" => some .concat
  | _ => none

def aggregateType (function : Query.AggregateFunction) (argument : Option SemanticType) :
    Option SemanticType :=
  match function with
  | .count => some .integer
  | .avg => some .double
  | _ => argument

def firstType (arguments : List (Option Typed)) : Option SemanticType :=
  arguments.findSome? fun argument => argument.bind (·.type)

/-- All arguments in order: those that are done, and the parameters, which are left to the end and
typed by the others. -/
def fillParameters (context : Context) (type : Option SemanticType) :
    List Expr → List (Option Typed) → Scoped (List Sql.Term)
  | _ :: exprs, some done :: rest => do
    return done.term :: (← fillParameters context type exprs rest)
  | expr :: exprs, none :: rest => do
    let typed ← parameter context expr type
    return typed.term :: (← fillParameters context type exprs rest)
  | _, _ => return []

mutual
def ofExpr (context : Context) : Expr → Option SemanticType → Scoped Typed
  | .literal value, _ => return ⟨.literal value, literalType value⟩
  | .named name, hint => slot context (.named name) hint
  | .ordinal position, hint => slot context (.ordinal position) hint
  | .legacy, _ => fail (.legacyParameter context.query)
  | .path path, _ => do denoted context path (← Scope.resolve context path)
  | .nested inner, hint => do
    let typed ← ofExpr context inner hint
    return ⟨.group typed.term, typed.type⟩
  | .negate inner, hint => do
    let typed ← ofExpr context inner hint
    return ⟨.negate typed.term, typed.type⟩
  | .not inner, _ => do
    let typed ← ofExpr context inner (some .boolean)
    return boolean (.not typed.term)
  | .logical op left right, _ => do
    let first ← ofExpr context left (some .boolean)
    let second ← ofExpr context right (some .boolean)
    return boolean (.logical op first.term second.term)
  | .compare op left right, _ => do
    let (first, second) ← operands left.isParameter right.isParameter
      (ofExpr context left) (ofExpr context right) none
    return boolean (.compare op first.term second.term)
  | .arithmetic .concat left right, _ => do
    let (first, second) ← operands left.isParameter right.isParameter
      (ofExpr context left) (ofExpr context right) (some .string)
    return ⟨.concat [first.term, second.term], some .string⟩
  | .arithmetic op left right, hint => do
    let (first, second) ← operands left.isParameter right.isParameter
      (ofExpr context left) (ofExpr context right) hint
    return ⟨.arithmetic op first.term second.term, resultType first.type second.type⟩
  | .like subject pattern escape negated, _ => do
    let typedSubject ← ofExpr context subject (some .string)
    let typedPattern ← ofExpr context pattern (some .string)
    let typedEscape ← ofOption context escape (some .string)
    return boolean (.like typedSubject.term typedPattern.term (typedEscape.map (·.term)) negated)
  | .inList subject items negated, _ => do
    let typed ← ofExpr context subject none
    return boolean (.inList typed.term (← ofItems context items typed.type) negated)
  | .between subject low high negated, _ => do
    let typed ← ofExpr context subject none
    let typedLow ← ofExpr context low typed.type
    let typedHigh ← ofExpr context high typed.type
    return boolean (.between typed.term typedLow.term typedHigh.term negated)
  | .isNull (.path path) negated, _ => nullTest context path negated
  | .isNull subject negated, _ => do
    let typed ← ofExpr context subject none
    return boolean (.isNull typed.term negated)
  | .isEmpty subject negated, _ => emptyTest context subject negated
  | .call name arguments, _ => do
    let place := (Expr.call name arguments).text
    match Function.ofName? name with
    | none => misuse context (.unknownFunction name)
    | some (.unary hint result) =>
      match ← ofSole context arguments hint with
      | some typed => return ⟨.call name [typed.term], result.or typed.type⟩
      | none => fail (.misuse (.oneArgument name) place)
    | some .coalesce =>
      if arguments.isEmpty then fail (.misuse (.someArguments name) place)
      else
        let done ← ofPlain context arguments
        let type := firstType done
        return ⟨.call name (← fillParameters context type arguments done), type⟩
    | some .concat =>
      if arguments.isEmpty then fail (.misuse (.someArguments name) place)
      else return ⟨.concat (← ofList context arguments (some .string)), some .string⟩
  | .aggregate function _ none, _ =>
    match function with
    | .count => return ⟨.aggregate .count false none, some .integer⟩
    | _ => misuse context (.aggregateOfAll function)
  | .aggregate function distinct (some argument), _ => do
    let typed ← ofExpr context argument none
    return ⟨.aggregate function distinct (some typed.term), aggregateType function typed.type⟩

def ofOption (context : Context) : Option Expr → Option SemanticType → Scoped (Option Typed)
  | none, _ => return none
  | some expr, hint => do return some (← ofExpr context expr hint)

def ofSole (context : Context) : List Expr → Option SemanticType → Scoped (Option Typed)
  | [expr], hint => do return some (← ofExpr context expr hint)
  | _, _ => return none

/-- The items of an `in` list. Only an item that is a parameter and nothing else can take many
values. -/
def ofItems (context : Context) : List Expr → Option SemanticType → Scoped (List Sql.Term)
  | [], _ => return []
  | item :: rest, hint => do
    let typed ← ofExpr context item hint
    let term := if item.isParameter then typed.term.asListItem else typed.term
    return term :: (← ofItems context rest hint)

def ofList (context : Context) : List Expr → Option SemanticType → Scoped (List Sql.Term)
  | [], _ => return []
  | expr :: rest, hint => do
    let typed ← ofExpr context expr hint
    return typed.term :: (← ofList context rest hint)

/-- The arguments that are not parameters, each at its place. -/
def ofPlain (context : Context) : List Expr → Scoped (List (Option Typed))
  | [] => return []
  | expr :: rest => do
    if expr.isParameter then return none :: (← ofPlain context rest)
    else
      let typed ← ofExpr context expr none
      return some typed :: (← ofPlain context rest)
end

def determined (context : Context) (expr : Expr) : Scoped (Sql.Term × SemanticType) := do
  let typed ← ofExpr context expr none
  match typed.type with
  | some type => return (typed.term, type)
  | none => fail (.undetermined expr.text)

def condition (context : Context) (expr : Option Expr) : Scoped (Option Sql.Term) := do
  let typed ← ofOption context expr (some .boolean)
  return typed.map (·.term)

end Typed

end EntityQuery
