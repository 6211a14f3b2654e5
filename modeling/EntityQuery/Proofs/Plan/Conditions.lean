import EntityQuery.Proofs.Plan.Filters
import EntityQuery.Proofs.Sql.Sentence

/-!
# When conditions put into a select only restrict it

An `on` clause is the equality of two keys, the condition of the join in the
query and the filters on the joined table, with `and` between their texts; a where
clause is the condition of the query and the filters on the roots. Where there
are filters, the condition of the query is written in parentheses. Nothing else
is.

So the clauses ask for all that is put into them as long as no condition of a
join and no filter has an `or` outside parentheses. With such an `or` in it, the
`on` clause can be true where the keys differ (`Sql.Select.Conjunctive`, by
`Sentence.IsAndOf`).
-/

namespace EntityQuery

open List

namespace Sql

open Template (text join)

/-! ## The text of an `on` clause -/

namespace JoinedTable

/-- What stands before the `on` clause of a joined table. -/
def opening (joined : JoinedTable) : String :=
  joinKeyword joined.kind ++ joined.table ++ " " ++ joined.tableAlias ++ " on "

/-- The equality of keys in the `on` clause. -/
def key (joined : JoinedTable) : Template :=
  text (joined.left.text ++ " = " ++ joined.right.text)

theorem template_eq (dialect : Dialect) (joined : JoinedTable) :
    joined.template dialect = text joined.opening
      ++ join " and " (joined.key :: joined.conditions.map (Condition.template dialect)) := by
  have hopening : text (joined.opening ++ (joined.left.text ++ " = " ++ joined.right.text))
      = text joined.opening ++ joined.key :=
    (Template.text_append_text ..).symm
  have htext : joined.opening ++ (joined.left.text ++ " = " ++ joined.right.text)
      = joinKeyword joined.kind ++ joined.table ++ " " ++ joined.tableAlias ++ " on "
        ++ joined.left.text ++ " = " ++ joined.right.text := by
    simp only [opening, String.append_assoc]
  rw [JoinedTable.template, ← htext, hopening]
  cases hconditions : joined.conditions with
  | nil =>
    have hkey : joined.key ++ join "" [] = joined.key := by
      have hempty := Template.text_append_text (joined.left.text ++ " = " ++ joined.right.text) ""
      rwa [String.append_empty] at hempty
    rw [map_nil, map_nil, Template.append_assoc, hkey]
    rfl
  | cons first rest =>
    have hjoin := Template.append_join " and " joined.key (first.template dialect)
      (rest.map (Condition.template dialect))
    rw [map_cons, map_map] at hjoin
    rw [Template.append_assoc, map_cons]
    exact congrArg (text joined.opening ++ ·) hjoin

end JoinedTable

/-! ## The clauses of a select -/

/-- How a condition of a join reads: the condition of the query as its tree says,
and a filter as the text can be read. -/
def Condition.Reads (dialect : Dialect) : Condition → Sentence → Prop
  | .term written, sentence => sentence = written.sentence dialect
  | .filter text, sentence => Sql.Reads text sentence

theorem Condition.Reads.templates {dialect : Dialect} {conditions : List Condition}
    {sentences : List Sentence} (h : List.Forall₂ (Condition.Reads dialect) conditions sentences) :
    List.Forall₂ Sql.Reads (conditions.map (Condition.template dialect)) sentences := by
  refine forall₂_map_left_iff.mpr (h.imp ?_)
  intro condition sentence hread
  cases condition with
  | term written =>
    rw [show sentence = written.sentence dialect from hread]
    exact written.reads_sentence dialect
  | filter text => exact hread

/-- How the clauses of a select read, however the texts of the filters are read. -/
structure Select.Conjunctive (dialect : Dialect) (select : Select) : Prop where
  /-- An `on` clause puts the conditions on the join after the equality of keys. -/
  joins : ∀ joined ∈ select.ranges.flatMap (·.joins), ∀ sentences,
    List.Forall₂ (Condition.Reads dialect) joined.conditions sentences →
      ∃ clause on, joined.template dialect = text joined.opening ++ clause ∧ Reads clause on
        ∧ on.IsAndOf (.single (.comparison joined.key) :: sentences)
  /-- Filters come after the condition of the query, which is put in parentheses. -/
  guarded : ∀ condition, select.condition = some condition → select.filters ≠ [] →
    ∀ sentences, List.Forall₂ Reads select.filters sentences →
      ∃ clause restriction, select.restriction dialect = some clause ∧ Reads clause restriction
        ∧ restriction.IsAndOf ((condition.sentence dialect).grouped :: sentences)
  /-- Without a condition in the query the filters stand alone. -/
  unguarded : select.condition = none → select.filters ≠ [] →
    ∀ sentences, List.Forall₂ Reads select.filters sentences →
      ∃ clause restriction, select.restriction dialect = some clause ∧ Reads clause restriction
        ∧ restriction.IsAndOf sentences

theorem Select.restriction_guarded {dialect : Dialect} {select : Select} {condition : Term}
    (hcondition : select.condition = some condition) (hfilters : select.filters ≠ []) :
    select.restriction dialect = some (join " and "
      ((text "(" ++ condition.template dialect ++ text ")") :: select.filters)) := by
  rw [restriction, hcondition]
  cases hlist : select.filters with
  | nil => exact absurd hlist hfilters
  | cons first rest =>
    have hclosing : text ")" ++ text " and " = text ") and " := Template.text_append_text ..
    simp only [join, Template.append_assoc, ← hclosing]

theorem Select.restriction_unguarded (dialect : Dialect) {select : Select}
    (hcondition : select.condition = none) (hfilters : select.filters ≠ []) :
    select.restriction dialect = some (join " and " select.filters) := by
  rw [restriction, hcondition]
  cases hlist : select.filters with
  | nil => exact absurd hlist hfilters
  | cons first rest => rfl

theorem Select.conjunctive (dialect : Dialect) (select : Select) : select.Conjunctive dialect := by
  refine ⟨?_, ?_, ?_⟩
  · intro joined _ sentences hsentences
    have hkey : Reads joined.key (.single (.comparison joined.key)) := ⟨rfl, trivial⟩
    obtain ⟨on, hreads, hon⟩ := hkey.exists_isAndOf (Condition.Reads.templates hsentences)
    exact ⟨_, on, joined.template_eq dialect, hreads, hon⟩
  · intro condition hcondition hfilters sentences hsentences
    have huser := (condition.reads_sentence dialect).grouped
    obtain ⟨restriction, hreads, hrestriction⟩ := huser.exists_isAndOf hsentences
    exact ⟨_, restriction, restriction_guarded hcondition hfilters, hreads, hrestriction⟩
  · intro hcondition hfilters sentences hsentences
    have hclause := restriction_unguarded dialect hcondition hfilters
    generalize select.filters = filters at hfilters hsentences hclause
    cases hsentences with
    | nil => exact absurd rfl hfilters
    | cons hfirst hrest =>
      obtain ⟨restriction, hreads, hrestriction⟩ := hfirst.exists_isAndOf hrest
      exact ⟨_, restriction, hclause, hreads, hrestriction⟩

end Sql

namespace Plan

variable {compiler : Compiler} {identifier query : String}
  {substitutions : List (String × String)} {plan : Plan}

/-- The conditions that are put into the clauses of a select, and how the clauses
read with them. The condition of each join of the query and the filters on each
table are in the clauses as a whole; they restrict the select where no condition
of a join and no filter has an `or` outside parentheses. -/
theorem compile_conditions_conjoin
    (h : compile compiler identifier query substitutions = .ok plan)
    (hselect : plan.kind.isManipulation = false) :
    ∃ text select tables marks, ∃ run : Lowered.SelectRun (compiler.context text) select,
      substituted substitutions query = .ok text ∧ parsed text = .ok (.select select)
      ∧ plan = ofLowered compiler identifier query run.lowered
      ∧ run.scope.entries = tables.map (·.entry)
      ∧ List.Forall₂ (ScopeEntry.Accounted (compiler.context text)) run.scope.entries marks
      ∧ marks.filterMap id = select.ranges.flatMap (·.joins)
      ∧ run.sql.Restricted compiler.model compiler.filters tables
      ∧ run.sql.Conjunctive compiler.dialect := by
  obtain ⟨text, select, run, htext, hparsed, hplan⟩ := exists_selectRun_of_compile h hselect
  obtain ⟨tables, hentries, hrestricted⟩ := run.exists_restricted
  obtain ⟨marks, haccounted, hmarks⟩ := run.exists_marks
  exact ⟨text, select, tables, marks, run, htext, hparsed, hplan, hentries, haccounted, hmarks,
    hrestricted, run.sql.conjunctive compiler.dialect⟩

/-- A join whose condition has an `or` outside parentheses. -/
theorem compile_conditions_conjoin_or : ∃ plan,
    compile Sample.compiler "q"
        "select p.name from Person p left join p.orders o with o.paid = true or o.total > 5" []
      = .ok plan
      ∧ plan.kind.isManipulation = false
      ∧ ∃ text select tables marks,
        ∃ run : Lowered.SelectRun (Sample.compiler.context text) select,
          plan = ofLowered Sample.compiler "q"
              "select p.name from Person p left join p.orders o with o.paid = true or o.total > 5"
              run.lowered
            ∧ run.scope.entries = tables.map (·.entry)
            ∧ List.Forall₂ (ScopeEntry.Accounted (Sample.compiler.context text))
              run.scope.entries marks
            ∧ marks.filterMap id = select.ranges.flatMap (·.joins)
            ∧ run.sql.Restricted Sample.compiler.model Sample.compiler.filters tables
            ∧ run.sql.Conjunctive Sample.compiler.dialect := by
  refine exists_ok_and (fun plan => plan.kind.isManipulation = false) (by decide +kernel)
    fun plan hplan hselect => ?_
  obtain ⟨text, select, tables, marks, run, -, -, hrest⟩ :=
    compile_conditions_conjoin hplan hselect
  exact ⟨hselect, text, select, tables, marks, run, hrest⟩

/-- The `on` clause of that join is true for a large order of any person. -/
theorem on_clause_without_key : ∃ plan on, ∃ truth : Sql.Template → Bool,
    compile Sample.compiler "q"
        "select p.name from Person p left join p.orders o with o.paid = true or o.total > 5" []
      = .ok plan
      ∧ plan.sql = "select person0_.name as col_0_0_ from person person0_"
        ++ " left outer join orders order1_ on " ++ "person0_.id = order1_.person_id"
        ++ " and order1_.paid = true or order1_.total > 5" ++ " where person0_.age >= $1"
      ∧ Sql.Reads (.text ("person0_.id = order1_.person_id"
        ++ " and order1_.paid = true or order1_.total > 5")) on
      ∧ on.holds truth = true ∧ truth (.text "person0_.id = order1_.person_id") = false := by
  obtain ⟨plan, hplan, hsql⟩ := exists_ok_of_any
    (x := compile Sample.compiler "q"
      "select p.name from Person p left join p.orders o with o.paid = true or o.total > 5" [])
    (p := fun plan => plan.sql == "select person0_.name as col_0_0_ from person person0_"
      ++ " left outer join orders order1_ on " ++ "person0_.id = order1_.person_id"
      ++ " and order1_.paid = true or order1_.total > 5" ++ " where person0_.age >= $1")
    (by decide +kernel)
  refine ⟨plan,
    .more (.comparison (.text "person0_.id = order1_.person_id")) .and " and "
      (.more (.comparison (.text "order1_.paid = true")) .or " or "
        (.single (.comparison (.text "order1_.total > 5")))),
    (· == .text "order1_.total > 5"), hplan, beq_iff_eq.mp hsql, ⟨by decide +kernel, ?_⟩,
    by decide +kernel, by decide +kernel⟩
  exact ⟨trivial, Sql.Sentence.spells_and, trivial,
    ⟨[' '], ['o', 'r'], [' '], by decide, by decide, by decide⟩, trivial⟩

end Plan

end EntityQuery
