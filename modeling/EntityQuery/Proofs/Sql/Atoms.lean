import EntityQuery.Proofs.Sql.Template
import EntityQuery.Sql.Printer

/-!
# What a statement refers to

An SQL statement refers to what is outside of its own text by three kinds of
atoms: it asks for parameters, it names columns, and it looks up rows of tables
that are not in its from clause. `Statement.atoms` lists them in the order of
the text. In every dialect the parameters of the text are those among the atoms
(`Statement.slots_template`), so that how a statement is written plays no part
in what is said about them.
-/

namespace EntityQuery.Sql

open List Term

/-- One thing that a statement refers to. -/
inductive Atom where
  | slot (slot : Slot)
  | column (ref : ColumnRef)
  | lookup (lookup : KeyLookup)
  deriving Repr, DecidableEq

namespace Atom

def slot? : Atom → Option Slot
  | .slot parameter => some parameter
  | _ => none

def lookup? : Atom → Option KeyLookup
  | .lookup found => some found
  | _ => none

def slots (atoms : List Atom) : List Slot :=
  atoms.filterMap slot?

def lookups (atoms : List Atom) : List KeyLookup :=
  atoms.filterMap lookup?

@[simp] theorem slots_append (atoms more : List Atom) :
    slots (atoms ++ more) = slots atoms ++ slots more :=
  filterMap_append

@[simp] theorem lookups_append (atoms more : List Atom) :
    lookups (atoms ++ more) = lookups atoms ++ lookups more :=
  filterMap_append

@[simp] theorem slots_nil : slots [] = [] := rfl

@[simp] theorem slots_slot (parameter : Slot) (rest : List Atom) :
    slots (.slot parameter :: rest) = parameter :: slots rest := rfl

@[simp] theorem slots_column (ref : ColumnRef) (rest : List Atom) :
    slots (.column ref :: rest) = slots rest := rfl

@[simp] theorem slots_lookup (found : KeyLookup) (rest : List Atom) :
    slots (.lookup found :: rest) = slots rest := rfl

@[simp] theorem slots_map_column {α : Type} (column : α → ColumnRef) (items : List α) :
    slots (items.map fun item => .column (column item)) = [] := by
  induction items with
  | nil => rfl
  | cons item rest ih => exact ih

@[simp] theorem slots_map_slot (parameters : List Slot) :
    slots (parameters.map .slot) = parameters := by
  induction parameters with
  | nil => rfl
  | cons parameter rest ih => exact congrArg (parameter :: ·) ih

theorem slots_flatMap {α : Type} (items : List α) (atoms : α → List Atom) :
    slots (items.flatMap atoms) = items.flatMap fun item => slots (atoms item) :=
  filterMap_flatMap

theorem lookups_map_column (refs : List ColumnRef) : lookups (refs.map .column) = [] := by
  induction refs with
  | nil => rfl
  | cons ref rest ih => exact ih

theorem lookups_flatMap {α : Type} (items : List α) (atoms : α → List Atom) :
    lookups (items.flatMap atoms) = items.flatMap fun item => lookups (atoms item) :=
  filterMap_flatMap

end Atom

/-! ## Terms -/

mutual
def Term.atoms : Term → List Atom
  | .literal _ => []
  | .column ref => [.column ref]
  | .slot parameter => [.slot parameter]
  | .group inner => inner.atoms
  | .negate inner => inner.atoms
  | .not inner => inner.atoms
  | .logical _ left right => left.atoms ++ right.atoms
  | .compare _ left right => left.atoms ++ right.atoms
  | .arithmetic _ left right => left.atoms ++ right.atoms
  | .concat parts => atomsOf parts
  | .like subject pattern none _ => subject.atoms ++ pattern.atoms
  | .like subject pattern (some escape) _ => subject.atoms ++ pattern.atoms ++ escape.atoms
  | .inList subject items _ => subject.atoms ++ atomsOf items
  | .between subject low high _ => subject.atoms ++ low.atoms ++ high.atoms
  | .isNull subject _ => subject.atoms
  | .areNull columns _ => columns.map .column
  | .noneFound found _ => [.lookup found]
  | .call _ arguments => atomsOf arguments
  | .aggregate _ _ none => []
  | .aggregate _ _ (some argument) => argument.atoms

def Term.atomsOf : List Term → List Atom
  | [] => []
  | term :: rest => term.atoms ++ atomsOf rest
end

theorem Term.flatMap_atoms_column (refs : List ColumnRef) :
    (refs.map column).flatMap atoms = refs.map .column := by
  induction refs with
  | nil => rfl
  | cons ref rest ih =>
    rw [map_cons, flatMap_cons, ih, atoms]
    rfl

theorem Term.slots_template (dialect : Dialect) (term : Term) :
    (term.template dialect).slots = Atom.slots term.atoms := by
  have hcolumns : ∀ columns : List ColumnRef, Atom.slots (columns.map .column) = [] :=
    Atom.slots_map_column id
  have hall : (∀ term : Term, (term.template dialect).slots = Atom.slots term.atoms)
      ∧ ∀ terms, (templates dialect terms).flatMap Template.slots = Atom.slots (atomsOf terms) := by
    apply atoms.mutual_induct <;> simp_all [template, templates, atoms, atomsOf, concatenated]
  exact hall.1 term

/-! ## Statements -/

def optionAtoms (term : Option Term) : List Atom :=
  term.toList.flatMap atoms

/-- The text of a filter refers to its parameters; what else is in it is not
known. -/
def filterAtoms (filter : Template) : List Atom :=
  filter.slots.map .slot

def Condition.atoms : Condition → List Atom
  | .term written => written.atoms
  | .filter text => filterAtoms text

/-- The columns of the equality of keys, and what the conditions refer to. -/
def JoinedTable.atoms (joined : JoinedTable) : List Atom :=
  [.column joined.left, .column joined.right] ++ joined.conditions.flatMap Condition.atoms

def TableRange.atoms (range : TableRange) : List Atom :=
  range.joins.flatMap JoinedTable.atoms

def Select.atoms (select : Select) : List Atom :=
  select.columns.flatMap (fun column => column.term.atoms)
    ++ select.ranges.flatMap TableRange.atoms
    ++ optionAtoms select.condition ++ select.filters.flatMap filterAtoms
    ++ select.groupBy.flatMap Term.atoms ++ optionAtoms select.having
    ++ select.orderBy.flatMap fun item => item.1.atoms

/-- What a select refers to outside of its from clause and of filters. -/
def Select.clauseAtoms (select : Select) : List Atom :=
  select.columns.flatMap (fun column => column.term.atoms) ++ optionAtoms select.condition
    ++ select.groupBy.flatMap Term.atoms ++ optionAtoms select.having
    ++ select.orderBy.flatMap fun item => item.1.atoms

def Update.atoms (update : Update) : List Atom :=
  update.assignments.flatMap (fun assignment => .column assignment.1 :: assignment.2.atoms)
    ++ optionAtoms update.condition

def Unlink.atoms (unlink : Unlink) : List Atom :=
  optionAtoms unlink.condition

def Delete.atoms (delete : Delete) : List Atom :=
  optionAtoms delete.condition

/-- What a statement refers to, in the order of its text. -/
def Statement.atoms : Statement → List Atom
  | .select statement => statement.atoms
  | .update statement => statement.atoms
  | .unlink statement => statement.atoms
  | .delete statement => statement.atoms

theorem slots_clause (intro : String) (template : Option Template) :
    (clause intro template).slots = template.toList.flatMap Template.slots := by
  cases template <;> simp [clause]

theorem slots_listClause (intro : String) (templates : List Template) :
    (listClause intro templates).slots = templates.flatMap Template.slots := by
  cases templates <;> simp [listClause]

theorem slots_optionClause (dialect : Dialect) (intro : String) (term : Option Term) :
    (clause intro (term.map (template dialect))).slots = Atom.slots (optionAtoms term) := by
  cases term with
  | none => rfl
  | some term => simp [clause, optionAtoms, term.slots_template dialect]

theorem slots_filterAtoms (filter : Template) : Atom.slots (filterAtoms filter) = filter.slots :=
  Atom.slots_map_slot filter.slots

theorem lookups_filterAtoms (filter : Template) : Atom.lookups (filterAtoms filter) = [] := by
  rw [filterAtoms]
  induction filter.slots with
  | nil => rfl
  | cons slot rest ih => exact ih

theorem Condition.slots_template (dialect : Dialect) (condition : Condition) :
    (condition.template dialect).slots = Atom.slots condition.atoms := by
  cases condition with
  | term written => exact written.slots_template dialect
  | filter text => exact (slots_filterAtoms text).symm

theorem JoinedTable.slots_template (dialect : Dialect) (joined : JoinedTable) :
    (joined.template dialect).slots = Atom.slots joined.atoms := by
  simp [JoinedTable.template, JoinedTable.atoms, flatMap_map, Atom.slots_flatMap,
    Condition.slots_template]

theorem TableRange.slots_template (dialect : Dialect) (range : TableRange) :
    (range.template dialect).slots = Atom.slots range.atoms := by
  simp [TableRange.template, TableRange.atoms, flatMap_map, Atom.slots_flatMap,
    JoinedTable.slots_template]

theorem Select.slots_restriction (dialect : Dialect) (select : Select) :
    (clause " where " (select.restriction dialect)).slots
      = Atom.slots (optionAtoms select.condition ++ select.filters.flatMap filterAtoms) := by
  have hfilters : Atom.slots (select.filters.flatMap filterAtoms)
      = select.filters.flatMap Template.slots := by
    simp only [Atom.slots_flatMap, slots_filterAtoms]
  rw [slots_clause, Atom.slots_append, hfilters, restriction]
  cases select.condition with
  | none => cases select.filters <;> simp [optionAtoms]
  | some term => cases select.filters <;> simp [optionAtoms, term.slots_template dialect]

theorem Select.slots_template (dialect : Dialect) (select : Select) :
    (select.template dialect).slots = Atom.slots select.atoms := by
  have hcolumns : (select.columns.map (SelectColumn.template dialect)).flatMap Template.slots
      = Atom.slots (select.columns.flatMap fun column => column.term.atoms) := by
    simp [SelectColumn.template, flatMap_map, Atom.slots_flatMap, Term.slots_template]
  have hranges : (select.ranges.map (TableRange.template dialect)).flatMap Template.slots
      = Atom.slots (select.ranges.flatMap TableRange.atoms) := by
    simp [flatMap_map, Atom.slots_flatMap, TableRange.slots_template]
  have hgroup : (select.groupBy.map (Term.template dialect)).flatMap Template.slots
      = Atom.slots (select.groupBy.flatMap Term.atoms) := by
    simp [flatMap_map, Atom.slots_flatMap, Term.slots_template]
  have horder : (select.orderBy.map (orderTemplate dialect)).flatMap Template.slots
      = Atom.slots (select.orderBy.flatMap fun item => item.1.atoms) := by
    simp [orderTemplate, flatMap_map, Atom.slots_flatMap, Term.slots_template]
  simp only [Select.template, Select.atoms, Template.slots_append, Template.slots_text,
    Template.slots_join, slots_restriction, slots_listClause, slots_optionClause, hcolumns,
    hranges, hgroup, horder, Atom.slots_append, nil_append, append_nil,
    append_assoc]

/-- In every dialect the parameters of the text are those that the statement asks
for, in order. -/
theorem Statement.slots_template (dialect : Dialect) (statement : Statement) :
    (statement.template dialect).slots = Atom.slots statement.atoms := by
  cases statement with
  | select statement => exact statement.slots_template dialect
  | update statement =>
    simp [Statement.template, Statement.atoms, Update.template, Update.atoms, whereClause,
      slots_optionClause, flatMap_map, Atom.slots_flatMap, Term.slots_template]
  | unlink statement =>
    simp [Statement.template, Statement.atoms, Unlink.template, Unlink.atoms, whereClause,
      slots_optionClause]
  | delete statement =>
    simp [Statement.template, Statement.atoms, Delete.template, Delete.atoms, whereClause,
      slots_optionClause]

end EntityQuery.Sql
