import EntityQuery.Database.Connection
import EntityQuery.Plan.Results

/-!
# Result streams

Results taken from the database one row at a time. The statement is sent when the first row is asked
for. A failure, or a row that cannot be read, ends the stream: it is given once, and nothing comes
after it. A stream that is closed gives nothing more.
-/

namespace EntityQuery

abbrev StreamEvent : Type :=
  Except Error QueryResult

namespace Plan

/-- What the rows of an answer bring, up to the first failure. -/
def events (plan : Plan) (sql : String) (failure : Option String) : List Row → List StreamEvent
  | [] => failure.toList.map fun cause => .error (.execution (.statement sql cause))
  | row :: rest =>
    match plan.readRow row with
    | .ok result => .ok result :: plan.events sql failure rest
    | .error fault => [.error (.execution fault)]

end Plan

inductive StreamPhase where
  | waiting
  | reading (coming : List StreamEvent)
  | closed
  deriving Repr

/-- A stream, which has the connection to itself. -/
structure ResultStream where
  plan : Plan
  statement : BoundStatement
  connection : Connection
  phase : StreamPhase := .waiting
  deriving Repr

namespace ResultStream

def isClosed (stream : ResultStream) : Bool :=
  match stream.phase with
  | .closed => true
  | _ => false

def close (stream : ResultStream) : ResultStream :=
  { stream with phase := .closed }

def opened (stream : ResultStream) : ResultStream :=
  match stream.phase with
  | .waiting =>
    let (reply, connection) := stream.connection.send stream.statement
    let coming := stream.plan.events stream.statement.sql reply.failure reply.rows
    { stream with connection, phase := .reading coming }
  | _ => stream

/-- What a stream still has to give, once its statement is sent. -/
def coming (stream : ResultStream) : List StreamEvent :=
  match stream.phase with
  | .reading coming => coming
  | _ => []

/-- The stream after some of what was to come has been taken, and the rest is left. -/
def advance (stream : ResultStream) (taken : Nat) (rest : List StreamEvent) : ResultStream :=
  match stream.phase with
  | .reading _ =>
    { stream with connection := stream.connection.pull taken, phase := .reading rest }
  | _ => stream

end ResultStream

/-- What comes of taking results from a list of events: the results, how many events were taken, the
events that are left, and the failure that ended it, if one did. -/
structure Taken where
  results : List QueryResult
  count : Nat
  rest : List StreamEvent
  /-- Whether there was nothing more to take. -/
  ended : Bool
  failure : Option Error
  deriving Repr

namespace Taken

/-- Takes so many results, or all of them where there is no limit. -/
def upTo (limit : Option Nat) : List StreamEvent → Taken
  | [] => ⟨[], 0, [], limit != some 0, none⟩
  | .error error :: rest =>
    if limit = some 0 then ⟨[], 0, .error error :: rest, false, none⟩
    else ⟨[], 1, rest, false, some error⟩
  | .ok result :: rest =>
    if limit = some 0 then ⟨[], 0, .ok result :: rest, false, none⟩
    else
      let more := upTo (limit.map (· - 1)) rest
      { more with results := result :: more.results, count := more.count + 1 }

end Taken

namespace ResultStream

/-- Takes so many results, or all that are left; a failure comes with the results before it. -/
def take (stream : ResultStream) (limit : Option Nat) : Taken × ResultStream :=
  let stream := stream.opened
  let taken := Taken.upTo limit stream.coming
  (taken, stream.advance taken.count taken.rest)

def next (stream : ResultStream) : Except Error (Option QueryResult) × ResultStream :=
  let (taken, stream) := stream.take (some 1)
  match taken.failure with
  | some error => (.error error, stream)
  | none => (.ok taken.results.head?, stream)

def collect (stream : ResultStream) : Except Error (List QueryResult) × ResultStream :=
  let (taken, stream) := stream.take none
  match taken.failure with
  | some error => (.error error, stream)
  | none => (.ok taken.results, stream)

end ResultStream

end EntityQuery
