import EntityQuery.Database.Row
import EntityQuery.Plan.Bound

/-!
# Connections

A connection takes statements and answers each of them: with rows, perhaps with a failure after them,
and with the number of rows that were changed. The connection keeps a record of the statements it was
sent and of how many rows it has handed out.
-/

namespace EntityQuery

/-- The answer to one statement: the rows, and the reason if it fails after them. -/
structure Reply where
  rows : List Row := []
  failure : Option String := none
  affected : Nat := 0
  deriving Repr, DecidableEq

structure SentStatement where
  sql : String
  arguments : List Cell
  deriving Repr, DecidableEq

structure Connection where
  /-- The answers to the statements that are still to come. A statement beyond them finds and changes
  nothing. -/
  replies : List Reply := []
  sent : List SentStatement := []
  /-- How many rows have been handed out; a failure counts as one. -/
  pulled : Nat := 0
  deriving Repr, DecidableEq

def BoundStatement.sent (statement : BoundStatement) : SentStatement :=
  ⟨statement.sql, statement.values.map fun (value, type) => Cell.ofValue value type⟩

namespace Connection

def send (connection : Connection) (statement : BoundStatement) : Reply × Connection :=
  (connection.replies.headD {},
    { connection with
      replies := connection.replies.tail
      sent := connection.sent ++ [statement.sent] })

def pull (connection : Connection) (count : Nat) : Connection :=
  { connection with pulled := connection.pulled + count }

end Connection

/-- A use of a connection, which it changes also where it fails. -/
abbrev Executed : Type → Type :=
  ExceptT Error (StateM Connection)

namespace Executed

def send (statement : BoundStatement) : Executed Reply :=
  modifyGet fun connection => connection.send statement

def rows (statement : BoundStatement) : Executed (List Row) := do
  let reply ← send statement
  modify (·.pull (reply.rows.length + reply.failure.toList.length))
  match reply.failure with
  | some cause => throw (.execution (.statement statement.sql cause))
  | none => return reply.rows

def affected (statement : BoundStatement) : Executed Nat := do
  let reply ← send statement
  match reply.failure with
  | some cause => throw (.execution (.statement statement.sql cause))
  | none => return reply.affected

end Executed

end EntityQuery
