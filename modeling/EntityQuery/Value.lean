import EntityQuery.Number.Decimal
import EntityQuery.Text.Case
import EntityQuery.Time.Timestamp

/-!
# Types and values

`SemanticType` is the type of a column, of a selected expression or of a parameter. `Value` is a
scalar that is sent to or read from a database. `SemanticType.accepts` says which values a parameter
of a type can take.
-/

namespace EntityQuery

inductive SemanticType where
  | boolean
  | integer
  | double
  | string
  | timestamp
  | entity (name : String)
  /-- A value spread over several columns. -/
  | component (name : String)
  deriving Repr, DecidableEq

namespace SemanticType

/-- The type with one of the names used in mapping files, in any case. -/
def ofName? (name : String) : Option SemanticType :=
  match Text.lowerAscii name with
  | "integer" | "int" | "long" | "bigint" => some .integer
  | "double" | "float" | "decimal" | "real" => some .double
  | "string" | "text" | "varchar" => some .string
  | "boolean" | "bool" => some .boolean
  | "timestamp" | "datetime" => some .timestamp
  | _ => none

def isNumeric : SemanticType → Bool
  | .integer | .double => true
  | _ => false

def text : SemanticType → String
  | .boolean => "boolean"
  | .integer => "integer"
  | .double => "double"
  | .string => "string"
  | .timestamp => "timestamp"
  | .entity name => s!"entity({name})"
  | .component name => s!"component({name})"

end SemanticType

/-- A scalar: bound to a parameter or read from a row. Whole numbers are 64-bit. -/
inductive Value where
  | null
  | bool (value : Bool)
  | int (value : Int)
  | double (value : Double)
  | string (value : String)
  | timestamp (value : Timestamp)
  deriving Repr, DecidableEq

namespace Value

def kind : Value → String
  | .null => "null"
  | .bool _ => "boolean"
  | .int _ => "integer"
  | .double _ => "double"
  | .string _ => "string"
  | .timestamp _ => "timestamp"

def isNull : Value → Bool
  | .null => true
  | _ => false

def text : Value → String
  | .null => "NULL"
  | .bool value => toString value
  | .int value => toString value
  | .double value => DecimalStyle.plain.text value
  | .string value => value
  | .timestamp value => value.text

/-- Equality as numbers compare: a NaN differs from itself, and the two zeros are equal. -/
def same : Value → Value → Bool
  | .double x, .double y => x.same y
  | x, y => x == y

end Value

/-- Whether a value can be sent for a parameter of the type. A null goes everywhere, a whole number
can stand for a double, and a timestamp may be given as text. -/
def SemanticType.accepts : SemanticType → Value → Bool
  | _, .null => true
  | .boolean, .bool _ => true
  | .integer, .int _ => true
  | .double, .int _ => true
  | .double, .double _ => true
  | .string, .string _ => true
  | .timestamp, .timestamp _ => true
  | .timestamp, .string _ => true
  | _, _ => false

inductive ParameterValue where
  | single (value : Value)
  /-- One placeholder per element; only in an `in` list. -/
  | list (values : List Value)
  deriving Repr, DecidableEq

def ParameterValue.values : ParameterValue → List Value
  | .single value => [value]
  | .list values => values

end EntityQuery
