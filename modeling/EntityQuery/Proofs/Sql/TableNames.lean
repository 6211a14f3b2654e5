import EntityQuery.Plan.Compile
import EntityQuery.Proofs.Sql.Atoms

/-!
# The tables that are named in a statement

A statement names the tables of its from clause or the table that it changes,
and those of its subqueries (`Statement.tables`). In every dialect each of them
is written, behind one of a few words (`Statement.shows_tables`), and stays so
when the placeholders are numbered (`PlannedStatement.sql_shows`).
-/

namespace EntityQuery.Sql

open List Template Term

variable {table : String}

def Atom.tables (atoms : List Atom) : List String :=
  (Atom.lookups atoms).map (·.table)

@[simp] theorem Atom.tables_append (atoms more : List Atom) :
    tables (atoms ++ more) = tables atoms ++ tables more := by
  simp [tables]

theorem Atom.tables_flatMap {α : Type} (items : List α) (atoms : α → List Atom) :
    tables (items.flatMap atoms) = items.flatMap fun item => tables (atoms item) := by
  rw [tables, lookups_flatMap, map_flatMap]
  rfl

/-- A joined table, and those of the subqueries in its conditions. -/
def JoinedTable.tables (joined : JoinedTable) : List String :=
  joined.table :: Atom.tables joined.atoms

def TableRange.tables (range : TableRange) : List String :=
  range.table :: range.joins.flatMap JoinedTable.tables

def Select.tables (select : Select) : List String :=
  select.ranges.flatMap TableRange.tables ++ Atom.tables select.clauseAtoms

/-- The tables that are named in a statement. What the text of a filter names is
not known. -/
def Statement.tables : Statement → List String
  | .select statement => statement.tables
  | .update statement => statement.table :: Atom.tables statement.atoms
  | .unlink statement => statement.linkTable :: statement.table :: Atom.tables statement.atoms
  | .delete statement => statement.table :: Atom.tables statement.atoms

/-! ## Words in a text -/

namespace Template

/-- The words stand in the text, with no parameter between them. -/
def Shows (template : Template) (words : String) : Prop :=
  ∃ before after, template = before ++ text words ++ after

variable {a b : Template} {words : String}

theorem Shows.left (h : a.Shows words) : (a ++ b).Shows words := by
  obtain ⟨before, after, rfl⟩ := h
  exact ⟨before, after ++ b, append_assoc ..⟩

theorem Shows.right (h : b.Shows words) : (a ++ b).Shows words := by
  obtain ⟨before, after, rfl⟩ := h
  exact ⟨a ++ before, after, by simp only [append_assoc]⟩

theorem shows_text (before words after : String) : (text (before ++ words ++ after)).Shows words :=
  ⟨text before, text after, by rw [text_append_text, text_append_text]⟩

theorem Shows.join {separator : String} : ∀ {templates : List Template} {template : Template},
    template ∈ templates → template.Shows words → (join separator templates).Shows words
  | [_], _, hmem, h => mem_singleton.mp hmem ▸ h
  | first :: second :: rest, template, hmem, h => by
    rcases mem_cons.mp hmem with rfl | hmem
    · exact h.left.left
    · exact (Shows.join hmem h).right

/-- What is shown is still there when the placeholders are numbered. -/
theorem Shows.exists_render (h : a.Shows words) (dialect : Dialect) (count : Nat → Nat)
    (start next : Nat) : ∃ before after,
      Fragment.render dialect count next (Fragment.number start a.pieces)
        = before ++ words ++ after := by
  obtain ⟨⟨pieces⟩, behind, rfl⟩ := h
  have hprepend : ∀ (piece : Piece) (rest : List Piece) (start next : Nat),
      Fragment.render dialect count next (Fragment.number start (prepend piece rest))
        = Fragment.render dialect count next (Fragment.number start (piece :: rest)) := by
    intro piece rest start next
    match piece, rest with
    | .slot slot, rest => rfl
    | .text first, .text second :: rest =>
      simp [prepend, Fragment.number, Fragment.render, String.append_assoc]
    | .text first, [] | .text first, .slot slot :: rest =>
      by_cases hfirst : first = "" <;> simp [prepend, Fragment.number, Fragment.render, hfirst]
  rw [append_assoc]
  simp only [append_pieces]
  induction pieces generalizing start next with
  | nil =>
    rw [foldr_nil, text, foldr_prepend_prepend, foldr_nil, hprepend]
    exact ⟨"", _, by simp only [Fragment.number, Fragment.render]; rw [String.empty_append]⟩
  | cons piece rest ih =>
    rw [foldr_cons, hprepend]
    cases piece with
    | text sql =>
      obtain ⟨before, after, hrest⟩ := ih start next
      exact ⟨sql ++ before, after, by
        simp only [Fragment.number, Fragment.render, hrest, String.append_assoc]⟩
    | slot slot =>
      obtain ⟨before, after, hrest⟩ := ih (start + 1) (next + max (count start) 1)
      exact ⟨Fragment.placeholders dialect next (count start) ++ before, after, by
        simp only [Fragment.number, Fragment.render, hrest, String.append_assoc]⟩

end Template

/-! ## The tables in the text -/

/-- The words after which a table is named. -/
def tableWords : List String :=
  ["update ", "delete from ", " from ", ", ", joinKeyword .inner, joinKeyword .left,
    "exists (select 1 from "]

/-- The table is named in the text. -/
def Template.Names (template : Template) (table : String) : Prop :=
  ∃ word ∈ tableWords, template.Shows (word ++ table)

namespace Template.Names

variable {a b : Template} {table : String}

theorem left (h : a.Names table) : (a ++ b).Names table := by
  obtain ⟨word, hword, hshows⟩ := h
  exact ⟨word, hword, hshows.left⟩

theorem right (h : b.Names table) : (a ++ b).Names table := by
  obtain ⟨word, hword, hshows⟩ := h
  exact ⟨word, hword, hshows.right⟩

theorem join {separator : String} {templates : List Template} (hmem : a ∈ templates)
    (h : a.Names table) : (join separator templates).Names table := by
  obtain ⟨word, hword, hshows⟩ := h
  exact ⟨word, hword, hshows.join hmem⟩

theorem listClause {intro : String} {templates : List Template} (hmem : a ∈ templates)
    (h : a.Names table) : (Sql.listClause intro templates).Names table := by
  cases templates with
  | nil => cases hmem
  | cons first rest => exact (h.join hmem).right

theorem text {word : String} (hword : word ∈ tableWords) (before after : String) :
    (text (before ++ (word ++ table) ++ after)).Names table :=
  ⟨word, hword, shows_text ..⟩

end Template.Names

theorem KeyLookup.names (lookup : KeyLookup) (before : String) :
    (Template.text (before ++ lookup.text)).Names lookup.table := by
  have htext : before ++ lookup.text = before ++ ("exists (select 1 from " ++ lookup.table)
      ++ (" " ++ lookup.tableAlias ++ " where " ++ lookup.tableAlias ++ "." ++ lookup.keyColumn
        ++ " = " ++ lookup.owner.text ++ ")") := by
    unfold KeyLookup.text
    simp only [String.append_assoc]
  rw [htext]
  exact .text (by simp [tableWords]) ..

mutual
theorem Term.names_tables (dialect : Dialect) : ∀ term : Term,
    table ∈ Atom.tables term.atoms → (term.template dialect).Names table
  | .literal _, h | .column _, h | .slot _, h | .aggregate _ _ none, h => by
    simp only [atoms] at h
    cases h
  | .group inner, h | .aggregate _ _ (some inner), h => by
    simp only [atoms] at h
    simp only [template]
    exact (inner.names_tables dialect h).right.left
  | .negate inner, h | .not inner, h => by
    simp only [atoms] at h
    simp only [template]
    exact (inner.names_tables dialect h).right
  | .logical _ left right, h | .compare _ left right, h | .arithmetic _ left right, h
  | .like left right none _, h => by
    simp only [atoms, Atom.tables_append, mem_append] at h
    simp only [template]
    rcases h with h | h
    · exact (left.names_tables dialect h).left.left
    · exact (right.names_tables dialect h).right
  | .concat parts, h => by
    simp only [atoms] at h
    obtain ⟨part, hpart, hnames⟩ := exists_names dialect parts h
    simp only [template, concatenated]
    exact (hnames.join hpart).right.left
  | .inList subject items _, h => by
    simp only [atoms, Atom.tables_append, mem_append] at h
    simp only [template]
    rcases h with h | h
    · exact (subject.names_tables dialect h).left.left.left
    · obtain ⟨item, hitem, hnames⟩ := exists_names dialect items h
      exact (hnames.join hitem).right.left
  | .between first second third _, h | .like first second (some third) _, h => by
    simp only [atoms, Atom.tables_append, mem_append] at h
    simp only [template]
    rcases h with (h | h) | h
    · exact (first.names_tables dialect h).left.left.left.left
    · exact (second.names_tables dialect h).right.left.left
    · exact (third.names_tables dialect h).right
  | .isNull subject _, h => by
    simp only [atoms] at h
    simp only [template]
    exact (subject.names_tables dialect h).left
  | .areNull columns _, h => by
    simp only [atoms, Atom.tables, Atom.lookups_map_column] at h
    cases h
  | .noneFound lookup _, h => by
    simp only [atoms] at h
    obtain rfl := mem_singleton.mp h
    simp only [template]
    exact lookup.names _
  | .call _ arguments, h => by
    simp only [atoms] at h
    obtain ⟨argument, hargument, hnames⟩ := exists_names dialect arguments h
    simp only [template]
    exact (hnames.join hargument).right.left

theorem Term.exists_names (dialect : Dialect) : ∀ terms : List Term,
    table ∈ Atom.tables (atomsOf terms) →
      ∃ template ∈ templates dialect terms, template.Names table
  | [], h => by
    simp only [atomsOf] at h
    cases h
  | term :: rest, h => by
    simp only [atomsOf, Atom.tables_append, mem_append] at h
    simp only [templates]
    rcases h with h | h
    · exact ⟨_, .head _, term.names_tables dialect h⟩
    · obtain ⟨template, htemplate, hnames⟩ := exists_names dialect rest h
      exact ⟨template, .tail _ htemplate, hnames⟩
end

theorem names_clause (dialect : Dialect) {intro : String} {condition : Option Term}
    (h : table ∈ Atom.tables (optionAtoms condition)) :
    (clause intro (condition.map (template dialect))).Names table := by
  cases condition with
  | none => cases h
  | some term =>
    rw [optionAtoms, Option.toList_some, flatMap_singleton] at h
    exact (term.names_tables dialect h).right

theorem Select.names_restriction (dialect : Dialect) {select : Select}
    (h : table ∈ Atom.tables (optionAtoms select.condition)) :
    (clause " where " (select.restriction dialect)).Names table := by
  rw [Select.restriction]
  cases hcondition : select.condition with
  | none =>
    rw [hcondition] at h
    cases h
  | some term =>
    rw [hcondition, optionAtoms, Option.toList_some, flatMap_singleton] at h
    have hnames := term.names_tables dialect h
    cases select.filters with
    | nil => exact hnames.right
    | cons filter rest => exact hnames.right.left.left.right

/-- A table that is joined is named behind the word for the join. -/
theorem JoinedTable.names_tables (dialect : Dialect) (joined : JoinedTable)
    (h : table ∈ joined.tables) : (joined.template dialect).Names table := by
  unfold JoinedTable.template
  rcases mem_cons.mp h with rfl | h
  · refine .left ?_
    have htext : joinKeyword joined.kind ++ joined.table ++ " " ++ joined.tableAlias ++ " on "
        ++ joined.left.text ++ " = " ++ joined.right.text
          = "" ++ (joinKeyword joined.kind ++ joined.table)
            ++ (" " ++ joined.tableAlias ++ " on " ++ joined.left.text ++ " = "
              ++ joined.right.text) := by
      simp only [String.append_assoc, String.empty_append]
    rw [htext]
    refine .text ?_ ..
    cases joined.kind <;> simp [tableWords]
  · rw [JoinedTable.atoms, Atom.tables_append, Atom.tables_flatMap] at h
    obtain ⟨condition, hcondition, h⟩ := mem_flatMap.mp h
    cases condition with
    | filter text =>
      rw [Condition.atoms, Atom.tables, lookups_filterAtoms] at h
      cases h
    | term term =>
      have hnames := (term.names_tables dialect h).right (a := .text " and ")
      exact (hnames.join (mem_map.mpr ⟨_, hcondition, rfl⟩)).right

theorem TableRange.names_joins (dialect : Dialect) {range : TableRange}
    (h : table ∈ range.joins.flatMap JoinedTable.tables) :
    (range.template dialect).Names table := by
  obtain ⟨joined, hjoined, h⟩ := mem_flatMap.mp h
  exact ((joined.names_tables dialect h).join (mem_map_of_mem hjoined)).right

/-- The table of a range is named behind the word before the from clause, or behind
a comma. -/
theorem names_ranges (dialect : Dialect) : ∀ {word : String} {ranges : List TableRange}
    {range : TableRange}, word ∈ tableWords → range ∈ ranges →
      (Template.text word ++ Template.join ", " (ranges.map (TableRange.template dialect))).Names
        range.table
  | word, first :: rest, range, hword, hmem => by
    have hfirst : (Template.text word ++ first.template dialect).Names first.table := by
      unfold TableRange.template
      rw [← Template.append_assoc, Template.text_append_text]
      refine .left ?_
      have htext : (Template.text ("" ++ (word ++ first.table)
          ++ Query.optionText " " id first.tableAlias)).Names first.table := .text hword ..
      rwa [String.empty_append, String.append_assoc] at htext
    cases rest with
    | nil =>
      obtain rfl := mem_singleton.mp hmem
      exact hfirst
    | cons second rest =>
      simp only [map_cons, Template.join]
      rcases mem_cons.mp hmem with rfl | hmem
      · rw [Template.append_assoc, ← Template.append_assoc]
        exact hfirst.left
      · rw [Template.append_assoc]
        exact .right (.right (names_ranges dialect (by simp [tableWords]) hmem))

theorem Select.names_tables (dialect : Dialect) (select : Select) (h : table ∈ select.tables) :
    (select.template dialect).Names table := by
  unfold Select.template
  simp only [Select.tables, Select.clauseAtoms, Atom.tables_append, Atom.tables_flatMap,
    mem_append, mem_flatMap] at h
  rcases h with ⟨range, hrange, h⟩ | ((((⟨column, hcolumn, h⟩ | h) | ⟨term, hterm, h⟩) | h)
    | ⟨item, hitem, h⟩)
  · refine .left (.left (.left (.left ?_)))
    rcases mem_cons.mp h with rfl | h
    · rw [Template.append_assoc, Template.append_assoc]
      exact .right (.right (names_ranges dialect (by simp [tableWords]) hrange))
    · exact .right ((range.names_joins dialect h).join (mem_map_of_mem hrange))
  · have hnames : (column.template dialect).Names table := (column.term.names_tables dialect h).left
    exact ((hnames.join (mem_map_of_mem hcolumn)).right).left.left.left.left.left.left
  · exact .left (.left (.left (.right (Select.names_restriction dialect h))))
  · exact .left (.left (.right ((term.names_tables dialect h).listClause (mem_map_of_mem hterm))))
  · exact .left (.right (names_clause dialect h))
  · have hnames : (orderTemplate dialect item).Names table := (item.1.names_tables dialect h).left
    exact .right (hnames.listClause (mem_map_of_mem hitem))

/-- Every table of a statement is named in its text. -/
theorem Statement.names_tables (dialect : Dialect) (statement : Statement)
    (h : table ∈ statement.tables) : (statement.template dialect).Names table := by
  cases statement with
  | select statement => exact statement.names_tables dialect h
  | update statement =>
    rcases mem_cons.mp h with rfl | h
    · have htext : (text ("" ++ ("update " ++ statement.table) ++ " set ")).Names
          statement.table := .text (by simp [tableWords]) ..
      rw [String.empty_append] at htext
      exact htext.left.left
    · rw [Update.atoms, Atom.tables_append, mem_append, Atom.tables_flatMap] at h
      rcases h with h | h
      · obtain ⟨⟨column, value⟩, hassigned, h⟩ := mem_flatMap.mp h
        have hnames := (value.names_tables dialect h).right (a := .text (column.text ++ " = "))
        exact ((hnames.join (mem_map.mpr ⟨_, hassigned, rfl⟩)).right).left
      · exact (names_clause dialect h).right
  | unlink statement =>
    rcases mem_cons.mp h with rfl | h
    · have htext : (text ("" ++ ("delete from " ++ statement.linkTable)
          ++ (" where " ++ statement.keyColumn ++ " in (select " ++ statement.identifier
            ++ " from " ++ statement.table))).Names statement.linkTable :=
        .text (by simp [tableWords]) ..
      simp only [String.empty_append, ← String.append_assoc] at htext
      exact htext.left.left
    · rcases mem_cons.mp h with rfl | h
      · have htext : (text (("delete from " ++ statement.linkTable ++ " where "
            ++ statement.keyColumn ++ " in (select " ++ statement.identifier)
              ++ (" from " ++ statement.table) ++ "")).Names statement.table :=
          .text (by simp [tableWords]) ..
        simp only [String.append_empty, ← String.append_assoc] at htext
        exact htext.left.left
      · exact (names_clause dialect h).right.left
  | delete statement =>
    rcases mem_cons.mp h with rfl | h
    · have htext : (text ("" ++ ("delete from " ++ statement.table) ++ "")).Names
          statement.table := .text (by simp [tableWords]) ..
      rw [String.empty_append, String.append_empty] at htext
      exact htext.left
    · exact (names_clause dialect h).right

end EntityQuery.Sql

namespace EntityQuery

/-- In the finished statement the tables are named as well. -/
theorem PlannedStatement.names_tables (dialect : Sql.Dialect) (statement : Sql.Statement)
    (start : Nat) (h : table ∈ statement.tables) :
    ∃ word ∈ Sql.tableWords, ∃ before after,
      (ofTemplate dialect start (statement.template dialect)).sql
        = before ++ (word ++ table) ++ after := by
  obtain ⟨word, hword, hshows⟩ := statement.names_tables dialect h
  exact ⟨word, hword, hshows.exists_render ..⟩

end EntityQuery
