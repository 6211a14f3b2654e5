import EntityQuery.Scope.Basic
import EntityQuery.Text.Word

/-!
# Filters of a scope

A filter that is switched on restricts every table of its entity: through the where clause where the
table is the root of a range, and through the `on` clause of its join otherwise. In the text of the
condition, `{alias}` gives way to the alias of the table, and then each `:name` to a parameter; both
are found everywhere, inside quotes too.
-/

namespace EntityQuery

inductive FilterPiece where
  | plain (c : Char)
  | parameter (name : List Char)
  deriving Repr, DecidableEq

namespace FilterPiece

def chars : FilterPiece → List Char
  | .plain c => [c]
  | .parameter name => ':' :: name

/-- The first piece of a text that starts with the given character, and the text after the piece. -/
def next (c : Char) (rest : List Char) : FilterPiece × List Char :=
  if c = ':' then
    match Text.splitWord? rest with
    | some (name, after) => (.parameter name, after)
    | none => (.plain c, rest)
  else (.plain c, rest)

theorem length_next_le (c : Char) (rest : List Char) : (next c rest).2.length ≤ rest.length := by
  unfold next
  split
  · split
    · rename_i h
      exact Nat.le_of_lt (Text.length_of_splitWord? h)
    · exact Nat.le_refl _
  · exact Nat.le_refl _

def scan : List Char → List FilterPiece
  | [] => []
  | c :: rest => (next c rest).1 :: scan (next c rest).2
termination_by text => text.length
decreasing_by
  have := length_next_le c rest
  simp only [List.length_cons]
  omega

end FilterPiece

namespace Filter

/-- The text of a condition with the alias of the table put in. -/
def fillAlias (tableAlias : List Char) : List Char → List Char
  | '{' :: 'a' :: 'l' :: 'i' :: 'a' :: 's' :: '}' :: rest =>
    tableAlias ++ fillAlias tableAlias rest
  | c :: rest => c :: fillAlias tableAlias rest
  | [] => []

/-- A piece of the condition in a statement. Every parameter has to be declared. -/
def piece (entity : Entity) (filter : Filter) : FilterPiece → Except MappingFault Sql.Piece
  | .plain c => .ok (.text (String.singleton c))
  | .parameter name =>
    let parameter := String.ofList name
    match filter.parameters.lookup parameter with
    | some type => .ok (.slot ⟨.filter filter.name parameter, type, false⟩)
    | none => .error (.defect entity.name (.undeclaredParameter filter.name parameter))

def template (entity : Entity) (filter : Filter) (tableAlias : String) :
    Except MappingFault Sql.Template := do
  let text := fillAlias tableAlias.toList filter.condition.toList
  let pieces ← (FilterPiece.scan text).mapM (filter.piece entity)
  return ⟨pieces.foldr Sql.Template.prepend []⟩

end Filter

namespace Element

def filters (enabled : EnabledFilters) (element : Element) :
    Except MappingFault (List Sql.Template) :=
  let tableAlias := element.tableAlias.getD element.entity.table
  (element.entity.filters.filter fun filter => enabled.isEnabled filter.name).mapM
    fun filter => filter.template element.entity tableAlias

end Element

namespace Scope

/-- A table with the filters on its join, and the filters that restrict the rows instead. -/
def applyFilters (enabled : EnabledFilters) (entry : ScopeEntry) :
    Except MappingFault (ScopeEntry × List Sql.Template) := do
  let filters ← entry.element.filters enabled
  return match entry.origin with
    | some _ => (entry.restrict (filters.map .filter), [])
    | none => (entry, filters)

/-- The scope with all filters on its joins, and the filters on its roots. -/
def filtered (enabled : EnabledFilters) (scope : Scope) :
    Except MappingFault (Scope × List Sql.Template) := do
  let applied ← scope.entries.mapM (applyFilters enabled)
  return ({ scope with entries := applied.map (·.1) }, applied.flatMap (·.2))

end Scope

end EntityQuery
