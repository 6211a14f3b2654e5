import EntityQuery.Cursor.Stream

/-!
# Cursors

A cursor moves back and forth over the results of a stream. Results are taken from the stream when
the cursor first moves past them, and kept. Rows are numbered from 0. A move that fails leaves the
cursor where it was.
-/

namespace EntityQuery

inductive Position where
  | beforeFirst
  | at (row : Nat)
  | afterLast
  deriving Repr, DecidableEq

structure Cursor where
  source : ResultStream
  rows : List QueryResult := []
  exhausted : Bool := false
  position : Position := .beforeFirst
  /-- A number was too large for 64 bits. The program ends there, and no answer of it is seen. -/
  overflowed : Bool := false
  deriving Repr

/-- A move of a cursor. What it took from the source is kept also where it fails. -/
abbrev Move : Type → Type :=
  ExceptT Error (StateM Cursor)

namespace Cursor

/-! ## What the cursor shows -/

def current? (cursor : Cursor) : Option QueryResult :=
  match cursor.position with
  | .at row => cursor.rows[row]?
  | _ => none

def rowNumber? (cursor : Cursor) : Option Nat :=
  match cursor.position with
  | .at row => some row
  | _ => none

def isFirst (cursor : Cursor) : Bool :=
  cursor.position == .at 0

/-- The place of the cursor as a number: -1 before the first row, and the number of rows taken after
the last. -/
def index (cursor : Cursor) : Int :=
  match cursor.position with
  | .beforeFirst => -1
  | .at row => row
  | .afterLast => cursor.rows.length

/-! ## Moves -/

/-- Takes so many more rows, or all that are left. -/
def fill (limit : Option Nat) : Move Unit := do
  let cursor ← get
  if cursor.exhausted || limit == some 0 then return ()
  else
    let (taken, source) := cursor.source.take limit
    set { cursor with source, rows := cursor.rows ++ taken.results, exhausted := taken.ended }
    match taken.failure with
    | some error => throw error
    | none => return ()

/-- Takes rows until the one with a number is there; tells whether it is. -/
def fillTo (row : Nat) : Move Bool := do
  fill (some (row + 1 - (← get).rows.length))
  return row < (← get).rows.length

def place (position : Position) : Move Unit :=
  modify ({ · with position })

/-- Moves to a number, or past the end where there is no such row. -/
def moveTo (index : Int) : Move Bool := do
  if index < 0 then
    place .beforeFirst
    return false
  else
    let row := index.toNat
    if ← fillTo row then
      place (.at row)
      return true
    else
      place .afterLast
      return false

def next : Move Bool := do
  let cursor ← get
  if cursor.position = .afterLast then return false else moveTo (cursor.index + 1)

def previous : Move Bool := do
  if (← get).position = .afterLast then fill none
  moveTo ((← get).index - 1)

def first : Move Bool :=
  moveTo 0

def last : Move Bool := do
  fill none
  match (← get).rows.length with
  | 0 =>
    place .afterLast
    return false
  | count + 1 =>
    place (.at count)
    return true

def beforeFirst : Move Unit :=
  place .beforeFirst

/-- Moves past the last row, which takes all that are left. -/
def afterLast : Move Unit := do
  fill none
  place .afterLast

def overflow : Move Unit :=
  modify ({ · with overflowed := true })

/-- Moves to a number if it is one of 64 bits. -/
def moveToInt64 (index : Int) : Move Bool := do
  if minInt64 ≤ index ∧ index ≤ maxInt64 then moveTo index
  else
    overflow
    return false

def scroll (offset : Int) : Move Bool := do
  if (← get).position = .afterLast ∧ offset < 0 then fill none
  moveToInt64 ((← get).index + offset)

/-- Moves to the row with a number; a negative one counts from the end, where -1 is the last row. -/
def setRowNumber (row : Int) : Move Bool := do
  if row ≥ 0 then moveTo row
  else
    fill none
    moveTo ((← get).rows.length + row)

def isLast : Move Bool := do
  match (← get).position with
  | .at row => return !(← fillTo (row + 1))
  | _ => return false

/-- Gives up the source and the rows. -/
def close : Move Unit :=
  modify fun cursor =>
    { cursor with
      source := cursor.source.close, rows := [], exhausted := true, position := .afterLast }

end Cursor

end EntityQuery
