import EntityQuery.Parameters

/-!
# SQL dialects

The places where the databases differ: how a placeholder and a truth value are written, how texts are
joined, how a part of the rows is asked for, and how rows are locked. All other SQL is common to
them.
-/

namespace EntityQuery.Sql

inductive Dialect where
  | postgres
  | sqlite
  | mysql
  deriving Repr, DecidableEq, Inhabited

namespace Dialect

def name : Dialect → String
  | .postgres => "postgres"
  | .sqlite => "sqlite"
  | .mysql => "mysql"

/-- The dialect with exactly this name. -/
def ofName? (name : String) : Option Dialect :=
  match name with
  | "postgres" => some .postgres
  | "sqlite" => some .sqlite
  | "mysql" => some .mysql
  | _ => none

/-- The dialect of a database URL, by the text before its first colon. -/
def ofUrl? (url : String) : Option Dialect :=
  match String.ofList (url.toList.takeWhile (· != ':')) with
  | "postgres" | "postgresql" => some .postgres
  | "sqlite" => some .sqlite
  | "mysql" | "mariadb" => some .mysql
  | _ => none

/-- The dialect that a user means by a name, in any case; an unknown name is given back in lower
case. -/
def read (text : String) : Except String Dialect :=
  match Text.lowerAscii text with
  | "postgres" | "postgresql" | "pg" => .ok .postgres
  | "sqlite" => .ok .sqlite
  | "mysql" | "mariadb" => .ok .mysql
  | other => .error other

/-- The placeholder of the parameter with this number, counted from 1 in each statement. -/
def placeholder (dialect : Dialect) (number : Nat) : String :=
  match dialect with
  | .postgres => "$" ++ toString number
  | .sqlite | .mysql => "?"

def boolLiteral (dialect : Dialect) (value : Bool) : String :=
  match dialect with
  | .postgres | .mysql => if value then "true" else "false"
  | .sqlite => if value then "1" else "0"

structure Concatenation where
  before : String
  between : String
  after : String
  deriving Repr, DecidableEq

def concatenation : Dialect → Concatenation
  | .postgres | .sqlite => ⟨"(", " || ", ")"⟩
  | .mysql => ⟨"concat(", ", ", ")"⟩

def concat (dialect : Dialect) (parts : List String) : String :=
  let form := dialect.concatenation
  form.before ++ form.between.intercalate parts ++ form.after

/-- What an offset needs before it when there is no limit. -/
def unlimited : Dialect → String
  | .postgres => ""
  | .sqlite => " limit -1"
  | .mysql => " limit 18446744073709551615"

def selectionClause (dialect : Dialect) (selection : RowSelection) : String :=
  let offset := selection.first.getD 0
  let offsetText := if offset = 0 then "" else " offset " ++ toString offset
  match selection.max with
  | some limit => " limit " ++ toString limit ++ offsetText
  | none => if offset = 0 then "" else dialect.unlimited ++ offsetText

def lockClause (dialect : Dialect) (mode : LockMode) : String :=
  match dialect, mode with
  | .sqlite, _ => ""
  | _, .none => ""
  | _, .upgrade => " for update"
  | _, .upgradeNoWait => " for update nowait"

end Dialect

end EntityQuery.Sql
