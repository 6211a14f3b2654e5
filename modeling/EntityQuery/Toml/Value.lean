import EntityQuery.Toml.DateTime

/-!
# TOML values

The value of a TOML document is a table. While a document is read, the tables that are not written in
braces are kept as nodes that remember how they came to be, since that decides how they can grow:

* a table named by a header can take keys under that header, and only once;
* a table that is only part of a longer header may still get a header of its own;
* a table made by a dotted key grows by dotted keys only.

A table in braces and an array in brackets are complete where they are written.
-/

namespace EntityQuery

inductive Toml where
  | string (value : String)
  | integer (value : Int)
  | float (value : Double)
  | boolean (value : Bool)
  | dateTime (value : Toml.DateTime)
  | array (items : List Toml)
  | table (entries : List (String × Toml))
  deriving Repr

namespace Toml

inductive TableOrigin where
  /-- By a header, or as the document itself. -/
  | header
  /-- As part of a longer header. -/
  | implied
  /-- By a dotted key. -/
  | dotted
  deriving Repr, DecidableEq

inductive Node where
  | value (value : Toml)
  | table (origin : TableOrigin) (entries : List (String × Node))
  /-- Tables under a double header. The last one is open. -/
  | tables (tables : List (List (String × Node)))
  deriving Repr

abbrev Entries : Type :=
  List (String × Node)

namespace Entries

def set (entries : Entries) (key : String) (node : Node) : Entries :=
  match entries with
  | [] => [(key, node)]
  | (other, old) :: rest =>
    if other = key then (key, node) :: rest else (other, old) :: set rest key node

/-- Changes the table that a path leads to. Tables on the way that are not there yet are made; `made`
says how they came to be. A dotted key cannot go through a table that has a header. -/
def update (made : TableOrigin) (change : TableOrigin → Entries → Option Entries)
    (origin : TableOrigin) : List String → Entries → Option Entries
  | [], entries => change origin entries
  | key :: path, entries =>
    match entries.lookup key with
    | none => do
      let inner ← update made change made path []
      return entries.set key (.table made inner)
    | some (.value _) => none
    | some (.tables tables) => do
      let inner ← update made change .header path (tables.getLast?.getD [])
      return entries.set key (.tables (tables.dropLast ++ [inner]))
    | some (.table found inner) =>
      if made = .dotted ∧ found = .header then none
      else do
        let inner ← update made change found path inner
        return entries.set key (.table found inner)

/-- Adds a key that is not there yet to a table. A table made by dotted keys takes only dotted keys,
and other tables only plain ones. -/
def addKey (isDotted : Bool) (key : String) (value : Toml) (origin : TableOrigin)
    (entries : Entries) : Option Entries :=
  if (origin == .dotted) != isDotted then none
  else
    match entries.lookup key with
    | none => some (entries.set key (.value value))
    | some _ => none

/-- Adds a key and its value, where the names before the last dot lead to the table. -/
def insert (origin : TableOrigin) (entries : Entries) (path : List String) (key : String)
    (value : Toml) : Option Entries :=
  update .dotted (addKey (!path.isEmpty) key value) origin path entries

def openTable (key : String) (_ : TableOrigin) (entries : Entries) : Option Entries :=
  match entries.lookup key with
  | none => some (entries.set key (.table .header []))
  | some (.table .implied inner) => some (entries.set key (.table .header inner))
  | some _ => none

/-- Opens one more table of a double header. -/
def openNext (key : String) (_ : TableOrigin) (entries : Entries) : Option Entries :=
  match entries.lookup key with
  | none => some (entries.set key (.tables [[]]))
  | some (.tables tables) => some (entries.set key (.tables (tables ++ [[]])))
  | some _ => none

end Entries

mutual
def Node.toml : Node → Toml
  | .value known => known
  | .table _ entries => .table (Node.entriesToml entries)
  | .tables opened => .array (Node.tablesToml opened)

def Node.entriesToml : List (String × Node) → List (String × Toml)
  | [] => []
  | (key, node) :: rest => (key, node.toml) :: Node.entriesToml rest

def Node.tablesToml : List (List (String × Node)) → List Toml
  | [] => []
  | entries :: rest => .table (Node.entriesToml entries) :: Node.tablesToml rest
end

end Toml

end EntityQuery
