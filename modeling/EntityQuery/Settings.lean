import EntityQuery.Error
import EntityQuery.Sql.Dialect
import EntityQuery.Toml.Document
import EntityQuery.Toml.Record

/-!
# Settings

A settings file can name a dialect, a mapping file and a database, and give substitutions for the
marks in queries. All of it is optional.
-/

namespace EntityQuery

structure Settings where
  /-- The dialect follows from the database where none is given. -/
  dialect : Option Sql.Dialect := none
  mapping : Option String := none
  databaseUrl : Option String := none
  substitutions : List (String × String) := []
  deriving Repr, DecidableEq

namespace Settings

open Toml

/-- A dialect by its name, which may also be the one key of a table with nothing in it. -/
def dialect? : Toml → Option Sql.Dialect
  | .string name | .table [(name, .table [])] | .table [(name, .array [])] =>
    Sql.Dialect.ofName? name
  | _ => none

def ofRecord? (record : Record) : Option Settings := do
  return {
    dialect := ← record.optional? ⟨0, "dialect"⟩ dialect?
    mapping := ← record.optional? ⟨1, "mapping"⟩ string?
    databaseUrl := ← record.optional? ⟨2, "database_url"⟩ string?
    substitutions := ← record.withDefault? ⟨3, "substitutions"⟩ [] (entries? string?) }

def ofFile (text : String) : Except Error Settings :=
  match (Toml.read? text).bind fun document => ofRecord? (.named document) with
  | some settings => .ok settings
  | none => .error (.config .settings)

def resolvedDialect (settings : Settings) : Sql.Dialect :=
  (settings.dialect.or (settings.databaseUrl.bind Sql.Dialect.ofUrl?)).getD default

end Settings

end EntityQuery
