import EntityQuery.Proofs.Collection
import EntityQuery.Proofs.Plan.Numbering
import EntityQuery.Proofs.Sample
import EntityQuery.Proofs.Sql.TableNames

/-!
# The tables that a plan uses

While a statement is compiled, its scope lists the tables that it uses: those of
its from clause, with the tables between two entities, and those of subqueries.
`Scope.Listed` says that nothing is listed besides, and every step keeps it. So
the tables of a plan are just those that its statements name
(`compile_tables_named`).
-/

namespace EntityQuery

open List Sql ScopeEntry

open Sql (Atom)

variable {s : Scope} {exprs : List Query.Expr}

/-! ## The tables of a scope -/

def tableCollection : Collection KeyLookup String :=
  .ofTables (fun table _ => [table]) (·.table)

namespace Scope

/-- The scope lists the tables that have been used, in order, and no others. -/
structure Listed (scope : Scope) (used : List String) : Prop where
  sorted : scope.tables.Pairwise (· < ·)
  mem_iff : ∀ table, table ∈ scope.tables ↔ table ∈ used

variable {context : Context} {s s' : Scope} {used : List String}

theorem Listed.extend (h : s.Listed used) (new : List String)
    (htables : s'.tables = new.foldl (fun tables table => Keyed.insertKey table tables) s.tables) :
    s'.Listed (used ++ new) := by
  constructor
  · rw [htables]
    exact Keyed.pairwise_foldl_insertKey new h.sorted
  · intro table
    rw [htables, Keyed.mem_foldl_insertKey, h.mem_iff, mem_append, or_comm]

/-- Every table of a statement is listed. -/
theorem kept_listed : tableCollection.Kept context fun s _ used => s.Listed used where
  empty _ := ⟨.nil, fun _ => .rfl⟩
  same _ _ htables h := ⟨htables ▸ h.sorted, htables ▸ h.mem_iff⟩
  perm _ hperm h := ⟨h.sorted, fun table => (h.mem_iff table).trans hperm.mem_iff⟩
  root alias? _ h := by
    refine h.extend [_] ?_
    unfold withRoot withEntry
    split <;> rfl
  join alias? _ _ _ _ horigin h := by
    obtain ⟨-, linkAlias, -, -, -, htables⟩ := joinOrigin_eq horigin
    rw [show tableCollection.ofKeys = fun joined => [joined.table] from rfl, ← map_eq_flatMap]
    refine h.extend _ ?_
    rw [map_append, foldl_append, ← htables, map_singleton, (joinOrigin_run horigin).1.table_eq]
    rfl
  parameter _ _ _ h := (append_nil _).symm ▸ h
  column _ _ h := (append_nil _).symm ▸ h
  lookup _ _ _ _ h := h.extend [_] rfl
  children _ h := h

end Scope

/-! ## The tables of a statement -/

namespace Lowered

variable {context : Context}

/-- The tables are listed in order, and are those that the statements name. -/
structure ListsTables (lowered : Lowered) : Prop where
  sorted : lowered.tables.Pairwise (· < ·)
  mem_iff : ∀ table, table ∈ lowered.tables ↔
    ∃ statement ∈ lowered.statements, table ∈ statement.tables

theorem SelectRun.listsTables {select : Query.Select} (run : SelectRun context select) :
    run.lowered.ListsTables := by
  have hlisted := Scope.kept_listed.select run
  refine ⟨hlisted.sorted, fun table => (hlisted.mem_iff table).trans ?_⟩
  constructor
  · exact fun h => ⟨.select run.sql, .head _, h⟩
  · rintro ⟨_, hmem, h⟩
    obtain rfl := mem_singleton.mp hmem
    exact h

end Lowered

/-- A bulk statement names its table, the one that it removes rows from besides,
and those of its subqueries. -/
theorem Sql.Statement.mem_tables {statement : Statement} {target table : String}
    (h : statement.target? = some target) :
    table ∈ statement.tables ↔ table = target
      ∨ table ∈ statement.linkTable?.toList.flatMap ([·]) ++ Atom.tables statement.atoms := by
  cases statement with
  | select statement => cases h
  | update statement | delete statement =>
    obtain rfl := Option.some.inj h
    exact mem_cons
  | unlink statement =>
    obtain rfl := Option.some.inj h
    simp only [tables, linkTable?, Statement.atoms, mem_cons, mem_append, Option.toList_some,
      flatMap_singleton]
    tauto

namespace Lowered

variable {context : Context}

theorem Bulk.listsTables {kind : PlanKind} {lowered : Lowered} {scope : Scope}
    (h : lowered.Bulk context kind exprs scope) : lowered.ListsTables := by
  obtain ⟨name, entity, -, htargets, hlisted⟩ := Scope.kept_listed.bulk ([·])
    (fun table hs => hs.extend [table] rfl) h
  refine ⟨h.tables_eq ▸ hlisted.sorted, fun table => ?_⟩
  rw [h.tables_eq, hlisted.mem_iff, mem_append, tableCollection, Collection.ofTables,
    mem_singleton, mem_flatMap]
  have htables : ∀ statement ∈ lowered.statements, (table ∈ statement.tables ↔ table = entity.table
      ∨ table ∈ statement.linkTable?.toList.flatMap ([·]) ++ Atom.tables statement.atoms) :=
    fun statement hstatement => Statement.mem_tables (htargets statement hstatement)
  constructor
  · rintro (rfl | ⟨statement, hstatement, htable⟩)
    · obtain ⟨first, hfirst⟩ := exists_mem_of_ne_nil _ h.nonempty
      exact ⟨first, hfirst, (htables first hfirst).mpr (.inl rfl)⟩
    · exact ⟨statement, hstatement, (htables statement hstatement).mpr (.inr htable)⟩
  · rintro ⟨statement, hstatement, htable⟩
    rcases (htables statement hstatement).mp htable with rfl | htable
    · exact .inl rfl
    · exact .inr ⟨statement, hstatement, htable⟩

theorem listsTables_of_run {statement : Query.Statement} {lowered : Lowered}
    (h : (ofStatement context statement).run {} = .ok (lowered, s)) : lowered.ListsTables := by
  cases statement with
  | select select =>
    obtain ⟨run, rfl, -⟩ := exists_selectRun h
    exact run.listsTables
  | update update => exact (ofUpdate_run h).listsTables
  | delete delete => exact (ofDelete_run h).listsTables

end Lowered

/-! ## The tables of a plan -/

namespace Plan

variable {compiler : Compiler} {identifier query : String}
  {substitutions : List (String × String)} {plan : Plan}

/-- The tables of a plan are those that its statements name: each of them is named
in the text of the statement, and nothing else is listed. A delete lists the
tables of all many-to-many associations of its entity. -/
theorem compile_tables_named (h : compile compiler identifier query substitutions = .ok plan) :
    ∃ text statement lowered, substituted substitutions query = .ok text
      ∧ parsed text = .ok statement ∧ lower compiler text statement = .ok lowered
      ∧ plan = ofLowered compiler identifier query lowered
      ∧ plan.tables.Pairwise (· < ·)
      ∧ (∀ table, table ∈ plan.tables ↔ ∃ written ∈ lowered.statements, table ∈ written.tables)
      ∧ List.Forall₂ (fun written planned => ∀ table ∈ written.tables, ∃ word ∈ tableWords,
          ∃ before after, planned.sql = before ++ (word ++ table) ++ after)
        lowered.statements plan.statements
      ∧ ∀ delete, statement = .delete delete → ∃ entity,
        compiler.model.entity delete.entity = .ok entity ∧ entity.table ∈ plan.tables
          ∧ ∀ property ∈ entity.properties, ∀ link, property.link? = some link →
            link.1 ∈ plan.tables := by
  obtain ⟨text, statement, lowered, s, htext, hparsed, hrun, rfl⟩ := compile_eq_ok h
  have hlists := Lowered.listsTables_of_run hrun
  refine ⟨text, statement, lowered, htext, hparsed, bind_eq_ok.mpr ⟨(lowered, s), hrun, rfl⟩, rfl,
    hlists.sorted, hlists.mem_iff, ?_, ?_⟩
  · refine (PlannedStatement.forall₂_ofTemplates compiler.dialect lowered.statements 0).imp ?_
    rintro written _ ⟨first, rfl⟩ table htable
    exact PlannedStatement.names_tables compiler.dialect written first htable
  · rintro delete rfl
    obtain ⟨run, rfl, rfl⟩ := Lowered.exists_deleteRun hrun
    refine ⟨run.root.entity, run.entity_eq, (hlists.mem_iff _).mpr ?_, ?_⟩
    · exact ⟨.delete ⟨run.root.entity.table, run.condition⟩,
        mem_append_right _ (.head _), .head _⟩
    · intro property hproperty link hlink
      obtain ⟨unlink, hunlink, rfl⟩ := run.exists_unlink hproperty hlink
      refine (hlists.mem_iff _).mpr ⟨.unlink unlink, ?_, .head _⟩
      exact mem_append_left _ (mem_map_of_mem hunlink)

/-- A table between two entities, one of an implicit join and one of a subquery. -/
theorem compile_tables_named_tags : ∃ plan lowered,
    compile Sample.compiler "q"
        "select t from Person p join p.tags t where p.orders is empty and p.employer.name = :n"
        [] = .ok plan
      ∧ plan = ofLowered Sample.compiler "q"
        "select t from Person p join p.tags t where p.orders is empty and p.employer.name = :n"
        lowered
      ∧ plan.tables = ["company", "orders", "person", "person_tag", "tag"]
      ∧ ∀ table, table ∈ plan.tables ↔
        ∃ written ∈ lowered.statements, table ∈ written.tables := by
  refine exists_ok_exists_and
    (fun plan => plan.tables = ["company", "orders", "person", "person_tag", "tag"])
    (by decide +kernel) fun plan hplan htables => ?_
  obtain ⟨-, -, lowered, -, -, -, heq, -, hnamed, -⟩ := compile_tables_named hplan
  exact ⟨lowered, heq, htables, hnamed⟩

end Plan

end EntityQuery
