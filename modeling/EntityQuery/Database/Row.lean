import EntityQuery.Error
import EntityQuery.Value

/-!
# Rows

A row of a result as the database hands it out, and how a cell of it is read as a value of a type.
Reading allows for what databases commonly do: whole numbers for truth values, and text or a number
of seconds for timestamps.
-/

namespace EntityQuery

inductive Cell where
  | null
  | bool (value : Bool)
  /-- A whole number of any width. -/
  | int (value : Int)
  | double (value : Double)
  | text (value : String)
  /-- A kind of data that no type is read from. -/
  | other
  deriving Repr, DecidableEq

structure Row where
  names : List String
  cells : List Cell
  deriving Repr, DecidableEq

namespace Cell

inductive Fault where
  | unreadable
  | inconvertible (fault : ConversionFault)
  deriving Repr, DecidableEq

/-- A cell as a timestamp: text is read as one, and a number counts the seconds since 1970. -/
def timestamp : Cell → Except Fault Value
  | .text written =>
    match Timestamp.read? written with
    | some value => .ok (.timestamp value)
    | none => .error (.inconvertible (.notTimestamp written))
  | .int seconds =>
    match Timestamp.ofSeconds? seconds with
    | some value => .ok (.timestamp value)
    | none => .error (.inconvertible (.outOfRange seconds))
  | .null => .ok .null
  | _ => .error .unreadable

/-- A cell as a value of a type. Null is null for every type. -/
def read (type : SemanticType) (cell : Cell) : Except Fault Value :=
  match type, cell with
  | _, .null => .ok .null
  | .boolean, .bool value => .ok (.bool value)
  | .boolean, .int value => .ok (.bool (value != 0))
  | .integer, .int value | .entity _, .int value | .component _, .int value => .ok (.int value)
  | .integer, .text value | .entity _, .text value | .component _, .text value =>
    .ok (.string value)
  | .double, .double value => .ok (.double value)
  | .double, .int value => .ok (.double (.ofInt value))
  | .string, .text value => .ok (.string value)
  | .string, .int value => .ok (.string (toString value))
  | .timestamp, cell => cell.timestamp
  | _, _ => .error .unreadable

def ofValue (value : Value) (type : SemanticType) : Cell :=
  match value, type with
  | .null, _ => .null
  | .bool value, _ => .bool value
  | .int value, .double => .double (.ofInt value)
  | .int value, _ => .int value
  | .double value, _ => .double value
  | .string value, _ => .text value
  | .timestamp value, _ => .text value.text

end Cell

namespace Row

/-- The name of a column, or its position where it has none. -/
def columnName (row : Row) (column : Nat) : String :=
  (row.names[column]?).getD (toString column)

/-- The cell of a column, which has to have a name. -/
def cell? (row : Row) (column : Nat) : Option Cell :=
  if column < row.names.length then row.cells[column]? else none

def read (row : Row) (column : Nat) (type : SemanticType) : Except ExecutionFault Value :=
  match row.cell? column with
  | none => .error (.unreadable (row.columnName column))
  | some cell =>
    match cell.read type with
    | .ok value => .ok value
    | .error .unreadable => .error (.unreadable (row.columnName column))
    | .error (.inconvertible fault) => .error (.inconvertible (row.columnName column) fault)

end Row

end EntityQuery
