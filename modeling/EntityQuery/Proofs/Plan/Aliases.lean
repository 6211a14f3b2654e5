import EntityQuery.Proofs.Sample
import EntityQuery.Proofs.Scope.Aliases
import EntityQuery.Proofs.Select

/-!
# The aliases of a statement

All aliases that a statement declares, in its from clauses and in its subqueries,
are stems of the model with the numbers from 0 on, each number once
(`compile_aliases_numbered`). They are all different unless the digits at the end
of a stem run together with a number. This takes eleven aliases at least, and a
stem that ends in a digit.
-/

namespace EntityQuery

open List Sql

open Sql (Atom)

namespace Sql

def TableRange.aliases (range : TableRange) : List String :=
  range.tableAlias.toList ++ range.joins.flatMap JoinedTable.aliases

def Select.aliases (select : Select) : List String :=
  select.ranges.flatMap TableRange.aliases ++ Atom.aliases select.clauseAtoms

/-- The aliases that a statement declares. The one table of a bulk statement has
none. -/
def Statement.aliases : Statement → List String
  | .select statement => statement.aliases
  | .update statement => Atom.aliases statement.atoms
  | .unlink statement => Atom.aliases statement.atoms
  | .delete statement => Atom.aliases statement.atoms

end Sql

def Lowered.aliases (lowered : Lowered) : List String :=
  lowered.statements.flatMap Statement.aliases

namespace Lowered

variable {context : Context} {lowered : Lowered}

theorem Bulk.exists_stems {kind : PlanKind} {exprs : List Query.Expr} {scope : Scope}
    (h : lowered.Bulk context kind exprs scope) :
    ∃ stems ⊆ context.model.stems, lowered.aliases.Perm (aliasesFrom 0 stems) := by
  obtain ⟨name, entity, -, htargets, hcounted⟩ := Scope.kept_counted.bulk
    (fun _ => []) (fun _ hs => (append_nil _).symm ▸ ⟨hs.mapped, hs.numbered⟩) h
  obtain ⟨stems, hsubset, -, hperm⟩ := hcounted.numbered
  refine ⟨stems, hsubset, .trans (.of_eq (flatMap_congr fun statement hstatement => ?_)) hperm⟩
  have htarget := htargets statement hstatement
  cases statement with
  | select select => cases htarget
  | update statement | unlink statement | delete statement => rfl

/-- The aliases of a statement are numbered through, with stems of the model. -/
theorem exists_stems {statement : Query.Statement} {s : Scope}
    (h : (ofStatement context statement).run {} = .ok (lowered, s)) :
    ∃ stems ⊆ context.model.stems, lowered.aliases.Perm (aliasesFrom 0 stems) := by
  cases statement with
  | select select =>
    obtain ⟨run, rfl, -⟩ := exists_selectRun h
    obtain ⟨stems, hsubset, -, hperm⟩ := (Scope.kept_counted.select run).numbered
    exact ⟨stems, hsubset, .trans (.of_eq (append_nil _)) hperm⟩
  | update update => exact (ofUpdate_run h).exists_stems
  | delete delete => exact (ofDelete_run h).exists_stems

end Lowered

namespace Plan

variable {compiler : Compiler} {identifier query : String}
  {substitutions : List (String × String)} {plan : Plan}

/-- The aliases of a statement are stems of the model, numbered through. They are
all different if and only if no two of them run together, which takes more than
ten of them and a stem that ends in a digit. -/
theorem compile_aliases_numbered
    (h : compile compiler identifier query substitutions = .ok plan) :
    ∃ text statement lowered stems, substituted substitutions query = .ok text
      ∧ parsed text = .ok statement ∧ lower compiler text statement = .ok lowered
      ∧ plan = ofLowered compiler identifier query lowered
      ∧ lowered.aliases.Perm (aliasesFrom 0 stems) ∧ stems ⊆ compiler.model.stems
      ∧ (lowered.aliases.Nodup ↔ ∀ i j, i < j → ¬RunTogether stems i j)
      ∧ (lowered.aliases.length ≤ 10 → lowered.aliases.Nodup)
      ∧ ((∀ stem ∈ compiler.model.stems, endsInDigit stem = false) → lowered.aliases.Nodup) := by
  obtain ⟨text, statement, lowered, s, htext, hparsed, hrun, rfl⟩ := compile_eq_ok h
  obtain ⟨stems, hsubset, hperm⟩ := Lowered.exists_stems hrun
  have hlength : lowered.aliases.length = stems.length := by
    rw [hperm.length_eq, aliasesFrom, length_map, length_zipIdx]
  refine ⟨text, statement, lowered, stems, htext, hparsed,
    bind_eq_ok.mpr ⟨(lowered, s), hrun, rfl⟩, rfl, hperm, hsubset, ?_, ?_, ?_⟩
  · rw [hperm.nodup_iff, nodup_aliasesFrom_iff]
  · intro hten
    exact hperm.nodup_iff.mpr (nodup_aliasesFrom_of_length_le (hlength ▸ hten))
  · intro hdigit
    refine hperm.nodup_iff.mpr (nodup_aliasesFrom_of_endsInDigit fun stem hstem => ?_)
    exact hdigit stem (hsubset hstem)

/-- More than ten aliases of a model without digits at the ends of its stems, among
them those of a table in between and of a subquery. -/
theorem compile_aliases_numbered_persons : ∃ plan lowered,
    compile Sample.compiler "q"
        "select t from Person a join a.tags t, Person b, Person c, Person d, Person e, Person f, Person g, Person h, Person i, Person j where a.orders is empty"
        [] = .ok plan
      ∧ plan = ofLowered Sample.compiler "q"
        "select t from Person a join a.tags t, Person b, Person c, Person d, Person e, Person f, Person g, Person h, Person i, Person j where a.orders is empty"
        lowered
      ∧ (∀ stem ∈ Sample.compiler.model.stems, endsInDigit stem = false)
      ∧ lowered.aliases.Nodup := by
  have hstems : ∀ stem ∈ Sample.compiler.model.stems, endsInDigit stem = false := by
    decide +kernel
  refine exists_ok_exists_and (fun _ => True) (by decide +kernel) fun plan hplan _ => ?_
  obtain ⟨-, -, lowered, -, -, -, -, heq, -, -, -, -, hnodup⟩ := compile_aliases_numbered hplan
  exact ⟨lowered, heq, hstems, hnodup hstems⟩

/-- An entity whose name is that of another one with a digit behind it. -/
def digitModel : Metamodel :=
  .ofEntities [⟨"T", "t", ⟨"id", "id", .integer⟩, [], []⟩,
    ⟨"T1", "t1", ⟨"id", "id", .integer⟩, [], []⟩]

/-- The first and the eleventh alias run together. -/
theorem aliases_run_together : digitModel.validate = .ok () ∧ ∃ plan lowered,
    compile ⟨digitModel, .postgres, ⟨[]⟩, false⟩ "q"
        "select a.id from T1 a, T b, T c, T d, T e, T f, T g, T h, T i, T j, T k" [] = .ok plan
      ∧ plan = ofLowered ⟨digitModel, .postgres, ⟨[]⟩, false⟩ "q"
        "select a.id from T1 a, T b, T c, T d, T e, T f, T g, T h, T i, T j, T k" lowered
      ∧ lowered.aliases
        = ["t10_", "t1_", "t2_", "t3_", "t4_", "t5_", "t6_", "t7_", "t8_", "t9_", "t10_"]
      ∧ ¬lowered.aliases.Nodup := by
  obtain ⟨_, hvalid⟩ := exists_ok_of_isSome (x := digitModel.validate) (by decide +kernel)
  exact ⟨hvalid, exists_plan_of_any (by decide +kernel)⟩

end Plan

end EntityQuery
