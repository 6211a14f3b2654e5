/-!
# Tables of text

A table has a header and rows with one cell for each column. A column is as wide as its widest cell.
-/

namespace EntityQuery.Command

def padded (width : Nat) (text : String) : String :=
  text ++ String.ofList (List.replicate (width - text.length) ' ')

structure Table where
  header : List String
  rows : List (List String)
  deriving Repr, DecidableEq

namespace Table

/-- The widths of columns, made wide enough for a row. -/
def widen (widths : List Nat) (row : List String) : List Nat :=
  widths.zipWith (fun width cell => max width cell.length) row

def widths (table : Table) : List Nat :=
  table.rows.foldl widen (table.header.map String.length)

def line (widths : List Nat) (row : List String) : String :=
  " │ ".intercalate (row.zipWith (fun cell width => padded width cell) widths)

def rule (widths : List Nat) : String :=
  "─┼─".intercalate (widths.map fun width => String.ofList (List.replicate width '─'))

def lines (table : Table) : List String :=
  line table.widths table.header :: rule table.widths :: table.rows.map (line table.widths)

end Table

end EntityQuery.Command
