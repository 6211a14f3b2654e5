import EntityQuery.Keyed
import EntityQuery.Toml.Value

/-!
# Reading values out of TOML

A record is written as a table, where names that nobody asks for do no harm, or as an array with its
fields in their order. A field in an array cannot be left out, unless all fields after it are left out
too and each of them has a value of its own.

Where a table is asked for, a date or time counts as one: its text is the value of a single name
(`dateTimeName`).
-/

namespace EntityQuery.Toml

variable {α : Type}

def string? : Toml → Option String
  | .string text => some text
  | _ => none

def list? (item : Toml → Option α) : Toml → Option (List α)
  | .array items => items.mapM item
  | _ => none

/-- The name in a date or time that is taken as a table. -/
def dateTimeName : String := "$__toml_private_datetime"

def table? : Toml → Option (List (String × Toml))
  | .table entries => some entries
  | .dateTime value => some [(dateTimeName, .string value.text)]
  | _ => none

/-- A table whose values are all of one kind, sorted by name. -/
def entries? (item : Toml → Option α) (toml : Toml) : Option (List (String × α)) := do
  let read ← (← toml.table?).mapM fun (name, value) => do return (name, ← item value)
  return Keyed.ofList read

/-- The fields of a record, by name or by position. -/
inductive Record where
  | named (fields : List (String × Toml))
  | listed (fields : List Toml)
  deriving Repr

/-- A field of a record: its position in an array, and its name in a table. -/
structure Field where
  position : Nat
  name : String
  deriving Repr, DecidableEq

def record? : Toml → Option Record
  | .array items => some (.listed items)
  | toml => toml.table?.map .named

namespace Record

def find? (record : Record) (field : Field) : Option Toml :=
  match record with
  | .named fields => fields.lookup field.name
  | .listed fields => fields[field.position]?

def required? (record : Record) (field : Field) (item : Toml → Option α) : Option α :=
  (record.find? field).bind item

/-- A field that may be missing from a table. -/
def optional? (record : Record) (field : Field) (item : Toml → Option α) : Option (Option α) :=
  match record, record.find? field with
  | .named _, none => some none
  | .listed _, none => none
  | _, some value => (item value).map some

/-- A field with a value of its own for where it is missing. -/
def withDefault? (record : Record) (field : Field) (fallback : α) (item : Toml → Option α) :
    Option α :=
  match record.find? field with
  | none => some fallback
  | some value => item value

end Record

end EntityQuery.Toml
