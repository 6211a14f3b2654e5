import EntityQuery.Proofs.Sql.Renaming

/-!
# What bulk statements do to a database

A bulk statement is about the rows of one table, and all columns in it are those
of one row; besides, it looks for rows of other tables. What an engine makes of
values is left open (`Engine`): nothing that is said here depends on how texts are
compared or numbers are added.

The value of a condition depends on those tables alone in which it looks for rows
(`Term.value_congr`), and not on what the tables are called in it
(`Term.value_bare`).
-/

namespace EntityQuery.Sql

open List Query

/-- How an engine computes with values. -/
structure Engine (Row Value : Type) where
  /-- The value of a row in a column. -/
  column : Row → String → Value
  /-- The row with another value in a column. -/
  assign : Row → String → Value → Row
  /-- What a statement is given for a parameter. -/
  parameter : Slot → Value
  literal : Literal → Value
  negate : Value → Value
  not : Value → Value
  logical : LogicalOp → Value → Value → Value
  compare : CompareOp → Value → Value → Value
  arithmetic : ArithmeticOp → Value → Value → Value
  concat : List Value → Value
  like : Value → Value → Option Value → Bool → Value
  inList : Value → List Value → Bool → Value
  between : Value → Value → Value → Bool → Value
  isNull : Value → Bool → Value
  areNull : List Value → Bool → Value
  call : String → List Value → Value
  aggregate : AggregateFunction → Bool → Option Value → Value
  /-- The value of a test for rows. -/
  truth : Bool → Value
  /-- Whether two keys are equal. -/
  sameKey : Value → Value → Bool
  /-- Whether a row is selected when the condition has this value. -/
  accepts : Value → Bool

/-- The rows of each table. -/
abbrev Database (Row : Type) : Type :=
  String → List Row

section

variable {Row Value : Type} (engine : Engine Row Value)

/-- Whether a lookup for a row finds one. -/
def KeyLookup.finds (database : Database Row) (row : Row) (lookup : KeyLookup) : Bool :=
  (database lookup.table).any fun other =>
    engine.sameKey (engine.column other lookup.keyColumn) (engine.column row lookup.owner.column)

mutual
def Term.value (database : Database Row) (row : Row) : Term → Value
  | .literal value => engine.literal value
  | .column ref => engine.column row ref.column
  | .slot parameter => engine.parameter parameter
  | .group inner => inner.value database row
  | .negate inner => engine.negate (inner.value database row)
  | .not inner => engine.not (inner.value database row)
  | .logical op left right =>
    engine.logical op (left.value database row) (right.value database row)
  | .compare op left right =>
    engine.compare op (left.value database row) (right.value database row)
  | .arithmetic op left right =>
    engine.arithmetic op (left.value database row) (right.value database row)
  | .concat parts => engine.concat (Term.values database row parts)
  | .like subject pattern none negated =>
    engine.like (subject.value database row) (pattern.value database row) none negated
  | .like subject pattern (some escape) negated =>
    engine.like (subject.value database row) (pattern.value database row)
      (some (escape.value database row)) negated
  | .inList subject items negated =>
    engine.inList (subject.value database row) (Term.values database row items) negated
  | .between subject low high negated =>
    engine.between (subject.value database row) (low.value database row)
      (high.value database row) negated
  | .isNull subject negated => engine.isNull (subject.value database row) negated
  | .areNull columns negated =>
    engine.areNull (columns.map fun ref => engine.column row ref.column) negated
  | .noneFound lookup negated => engine.truth (lookup.finds engine database row == negated)
  | .call function arguments => engine.call function (Term.values database row arguments)
  | .aggregate function distinct none => engine.aggregate function distinct none
  | .aggregate function distinct (some argument) =>
    engine.aggregate function distinct (some (argument.value database row))

def Term.values (database : Database Row) (row : Row) : List Term → List Value
  | [] => []
  | term :: rest => term.value database row :: Term.values database row rest
end

def restrict (database : Database Row) (table : String) (condition : Option Term) : List Row :=
  (database table).filter fun row =>
    condition.all fun term => engine.accepts (term.value engine database row)

namespace Statement

/-- The rows that a bulk statement is about. -/
def selected (database : Database Row) : Statement → List Row
  | .select _ => []
  | .update statement => restrict engine database statement.table statement.condition
  | .unlink statement => restrict engine database statement.table statement.condition
  | .delete statement => restrict engine database statement.table statement.condition

def run (database : Database Row) : Statement → Database Row
  | .select _ => database
  | .update statement => fun table =>
    if table = statement.table then
      (database table).map fun row =>
        if statement.condition.all fun term => engine.accepts (term.value engine database row) then
          statement.assignments.foldl (fun changed assignment =>
            engine.assign changed assignment.1.column (assignment.2.value engine database row)) row
        else row
    else database table
  | .unlink statement => fun table =>
    if table = statement.linkTable then
      let rows := restrict engine database statement.table statement.condition
      (database table).filter fun linked => !rows.any fun row =>
        engine.sameKey (engine.column linked statement.keyColumn)
          (engine.column row statement.identifier)
    else database table
  | .delete statement => fun table =>
    if table = statement.table then
      (database table).filter fun row => !statement.condition.all fun term =>
        engine.accepts (term.value engine database row)
    else database table

/-- The rows that each of several statements is about, when they are run one after
the other. -/
def selections (database : Database Row) : List Statement → List (List Row)
  | [] => []
  | statement :: rest =>
    statement.selected engine database :: selections (statement.run engine database) rest

end Statement

/-! ## What the value of a term depends on -/

namespace Term

variable {engine} {database other : Database Row} {row : Row}

mutual
/-- Databases that agree on the tables in which a term looks for rows give it the
same value. -/
theorem value_congr : ∀ {term : Term}, (∀ found ∈ term.atoms, ∀ lookup,
      found = .lookup lookup → other lookup.table = database lookup.table) →
    term.value engine other row = term.value engine database row
  | .literal _, _ | .slot _, _ | .column _, _ | .areNull _ _, _ | .aggregate _ _ none, _ => by
    simp only [value]
  | .noneFound lookup _, h => by
    rw [atoms, forall_mem_singleton] at h
    simp only [value, KeyLookup.finds, h lookup rfl]
  | .group inner, h | .negate inner, h | .not inner, h | .isNull inner _, h
  | .aggregate _ _ (some inner), h => by
    rw [atoms] at h
    simp only [value, value_congr h]
  | .logical _ left right, h | .compare _ left right, h | .arithmetic _ left right, h
  | .like left right none _, h => by
    rw [atoms, forall_mem_append] at h
    simp only [value, value_congr h.1, value_congr h.2]
  | .like _ _ (some _) _, h | .between _ _ _ _, h => by
    rw [atoms, forall_mem_append, forall_mem_append] at h
    simp only [value, value_congr h.1.1, value_congr h.1.2, value_congr h.2]
  | .concat items, h | .call _ items, h => by
    rw [atoms] at h
    simp only [value, values_congr h]
  | .inList _ items _, h => by
    rw [atoms, forall_mem_append] at h
    simp only [value, value_congr h.1, values_congr h.2]

theorem values_congr : ∀ {terms : List Term}, (∀ found ∈ atomsOf terms, ∀ lookup,
      found = .lookup lookup → other lookup.table = database lookup.table) →
    values engine other row terms = values engine database row terms
  | [], _ => by simp only [values]
  | _ :: _, h => by
    rw [atomsOf, forall_mem_append] at h
    simp only [values, value_congr h.1, values_congr h.2]
end

/-- What the tables are called in a term is of no account. -/
theorem value_bare (term : Term) :
    term.bare.value engine database row = term.value engine database row := by
  have hcolumn : ∀ ref, (Renaming.bare.column ref).column = ref.column := fun _ => rfl
  have hlookup : ∀ lookup, (Renaming.bare.lookup lookup).finds engine database row
      = lookup.finds engine database row := fun _ => rfl
  have hall : (∀ term : Term, term.bare.value engine database row = term.value engine database row)
      ∧ ∀ terms, values engine database row (renameAll .bare terms)
        = values engine database row terms := by
    apply rename.mutual_induct <;> simp_all [rename, renameAll, value, values, Function.comp_def]
  exact hall.1 term

end Term

variable {engine} {database other : Database Row}

/-- The rows that a condition selects are the same in databases that agree on the
table and on those in which it looks for rows. -/
theorem restrict_congr {table : String} {condition : Option Term}
    (htable : other table = database table)
    (h : ∀ lookup, .lookup lookup ∈ optionAtoms condition →
      other lookup.table = database lookup.table) :
    restrict engine other table condition = restrict engine database table condition := by
  rw [restrict, restrict, htable]
  refine filter_congr fun row _ => ?_
  cases condition with
  | none => rfl
  | some term =>
    rw [optionAtoms, Option.toList_some, flatMap_singleton] at h
    rw [Option.all_some, Option.all_some, Term.value_congr fun _ hfound lookup heq => h lookup (heq ▸ hfound)]

theorem restrict_bare {table : String} {condition found : Option Term}
    (h : found.map Term.bare = condition.map Term.bare) :
    restrict engine database table found = restrict engine database table condition := by
  have hbare : ∀ term : Option Term, restrict engine database table (term.map Term.bare)
      = restrict engine database table term := by
    rintro (_ | term)
    · rfl
    · simp only [restrict, Option.map_some, Option.all_some, Term.value_bare]
  rw [← hbare found, h, hbare condition]

/-- Statements that remove rows from other tables than a last one depends on do not
change what any of them selects. -/
theorem Statement.selections_eq {kept : String → Prop} {last : Statement} :
    ∀ {unlinks : List Unlink}, (∀ unlink ∈ unlinks, ¬kept unlink.linkTable) →
    (∀ statement ∈ unlinks.map Statement.unlink ++ [last], ∀ {other : Database Row},
      (∀ table, kept table → other table = database table) →
        statement.selected engine other = statement.selected engine database) →
    ∀ {other : Database Row}, (∀ table, kept table → other table = database table) →
      selections engine other (unlinks.map Statement.unlink ++ [last])
        = (unlinks.map Statement.unlink ++ [last]).map (selected engine database)
  | [], _, hlocal, other, hagree => by
    rw [map_nil, nil_append, selections, selections, map_singleton, hlocal last (.head _) hagree]
  | first :: rest, hlinks, hlocal, other, hagree => by
    obtain ⟨hlink, hrest⟩ := forall_mem_cons.mp hlinks
    rw [map_cons, cons_append] at hlocal ⊢
    obtain ⟨hfirst, hlocal'⟩ := forall_mem_cons.mp hlocal
    have hagree' : ∀ table, kept table →
        run engine other (.unlink first) table = database table := by
      intro table htable
      have hne : table ≠ first.linkTable := fun heq => hlink (heq ▸ htable)
      rw [← hagree table htable]
      exact if_neg hne
    rw [selections, map_cons, hfirst hagree, selections_eq hrest hlocal' hagree']

end

end EntityQuery.Sql
