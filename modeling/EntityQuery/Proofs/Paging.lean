import EntityQuery.Proofs.Cursor.Modes

/-!
# Paging in memory

Where a select fetches a collection, several rows make up one result, and a part
of the rows is not a part of the results. So the statement is sent without asking
for a part, and the part is cut out of the results. `list_paging_slice` says that
this is all that paging does: the same statement is sent as without it, and from
the same results, with all elements of their collections, some are dropped at
both ends.
-/

namespace EntityQuery

open Sample PreparedQuery

namespace RowSelection

variable {α : Type}

theorem apply_eq (selection : RowSelection) (rows : List α) :
    selection.apply rows
      = (rows.drop (selection.first.getD 0)).take (selection.max.getD rows.length) := by
  unfold apply
  cases selection.max with
  | some max => rfl
  | none =>
    refine (List.take_of_length_le ?_).symm
    exact (List.length_drop ..).trans_le (Nat.sub_le ..)

theorem apply_of_isEmpty {selection : RowSelection} (h : selection.isEmpty)
    (rows : List α) : selection.apply rows = rows := by
  obtain ⟨hfirst, hmax⟩ := Bool.and_eq_true_iff.mp h
  rw [apply, beq_iff_eq.mp hfirst, Option.isNone_iff_eq_none.mp hmax]
  rfl

theorem selectionClause_of_isEmpty {selection : RowSelection} (h : selection.isEmpty)
    (dialect : Sql.Dialect) : dialect.selectionClause selection = "" := by
  obtain ⟨hfirst, hmax⟩ := Bool.and_eq_true_iff.mp h
  rw [Sql.Dialect.selectionClause, beq_iff_eq.mp hfirst, Option.isNone_iff_eq_none.mp hmax]
  rfl

end RowSelection

namespace Plan

variable {compiler : Compiler} {identifier query : String}
  {substitutions : List (String × String)} {plan : Plan}

theorem exists_statement (hcompile : compile compiler identifier query substitutions = .ok plan)
    (hselect : plan.kind.isManipulation = false) : ∃ statement, plan.statements = [statement] := by
  obtain ⟨text, select, run, -, -, rfl⟩ := exists_selectRun_of_compile hcompile hselect
  exact ⟨_, rfl⟩

theorem endWith_nothing (statement : BoundStatement) : endWith "" statement = statement := by
  simp [endWith]

/-- The end of the statement is all that paging changes. -/
theorem bind_paging (hcompile : compile compiler identifier query substitutions = .ok plan)
    (hselect : plan.kind.isManipulation = false) (dialect : Sql.Dialect) (parameters : Parameters)
    (filters : EnabledFilters) (paging : Paging) :
    plan.bind dialect parameters filters paging
      = plan.bind dialect parameters filters .off >>= fun statements =>
        .ok (statements.map (endWith (ending dialect parameters paging))) := by
  obtain ⟨statement, hstatement⟩ := exists_statement hcompile hselect
  unfold bind
  cases plan.parameters.validate parameters plan.query with
  | error fault => rfl
  | ok _ =>
    cases plan.bindings.mapM fun binding => binding.values parameters filters with
    | error fault => rfl
    | ok resolved =>
      simp only [hstatement, hselect, Bool.false_eq_true, if_false]
      change Except.ok [endWith _ _] = Except.ok [endWith _ (endWith "" _)]
      rw [endWith_nothing]

end Plan

namespace PreparedQuery

variable {prepared : PreparedQuery} {plan : Plan}

/-- Whether a part is asked for or not, the statement of a list that fetches a collection
only locks the rows. -/
theorem bound_fetching (hkind : plan.kind = .select true) (parameters : Parameters) :
    prepared.bound plan parameters
        (if plan.kind.fetchesCollection && !parameters.selection.isEmpty then .inMemory else .sql)
      = prepared.bound plan { parameters with selection := {} } .inMemory := by
  have hmerge : plan.kind.fetchesCollection = true := by rw [hkind]; rfl
  have hselection : prepared.bound plan { parameters with selection := {} } .inMemory
      = prepared.bound plan parameters .inMemory := rfl
  rw [hselection, hmerge, Bool.true_and]
  cases hempty : parameters.selection.isEmpty with
  | false => rfl
  | true =>
    have hending : Plan.ending prepared.dialect parameters .sql
        = Plan.ending prepared.dialect parameters .inMemory := by
      rw [Plan.ending, RowSelection.selectionClause_of_isEmpty hempty, String.empty_append]
      rfl
    simp only [Bool.not_true, Bool.false_eq_true, if_false, bound, Plan.bind, hending]

/-- Where a collection is fetched, the part that is asked for is cut out of all results. -/
theorem list_run_fetching (hplan : prepared.compiled = some plan) (hkind : plan.kind = .select true)
    {parameters : Parameters} {statement : BoundStatement}
    (hbound : prepared.bound plan { parameters with selection := {} } .inMemory = .ok [statement])
    (connection : Connection) :
    (prepared.list parameters).run connection
      = ((plan.answer statement.sql (connection.send statement).1).map parameters.selection.apply,
        (connection.send statement).2.pull ((connection.send statement).1.rows.length
          + (connection.send statement).1.failure.toList.length)) := by
  rw [list_run hplan hkind ((bound_fetching hkind parameters).trans hbound), hkind]
  refine congrArg (fun part => (Except.map part _, _)) (funext fun results => ?_)
  cases hempty : parameters.selection.isEmpty with
  | false => rfl
  | true => exact (RowSelection.apply_of_isEmpty hempty results).symm

end PreparedQuery

/-- Where a collection is fetched, a list that asks for a part of the results does what the
list of all results does. Where the values cannot be bound, neither sends anything. Otherwise
both send one statement, which ends with the lock at most, and it is the answer to this
statement that the results of both are read from; the list of the part fails if the other
does, and has of its results those that are asked for. -/
theorem list_paging_slice {compiler : Plan.Compiler} {identifier query : String}
    {substitutions : List (String × String)} {plan : Plan} {prepared : PreparedQuery}
    (hcompile : Plan.compile compiler identifier query substitutions = .ok plan)
    (hplan : prepared.compiled = some plan) (hkind : plan.kind = .select true)
    (parameters : Parameters) (connection : Connection) :
    let whole := (prepared.list { parameters with selection := {} }).run connection
    let part := (prepared.list parameters).run connection
    (∃ fault, plan.bind prepared.dialect parameters prepared.filters .off = .error fault
      ∧ whole = (.error (.binding fault), connection) ∧ part = whole)
    ∨ ∃ statement : BoundStatement,
      plan.bind prepared.dialect parameters prepared.filters .off = .ok [statement]
      ∧ whole.2.sent = connection.sent
        ++ [(Plan.endWith (prepared.dialect.lockClause parameters.lock) statement).sent]
      ∧ part.2 = whole.2
      ∧ (∀ results, whole.1 = .ok results ↔ (connection.replies.headD {}).failure = none
        ∧ plan.readRows (connection.replies.headD {}).rows = .ok results)
      ∧ (∀ results, whole.1 = .ok results → part.1 = .ok
        ((results.drop (parameters.selection.first.getD 0)).take
          (parameters.selection.max.getD results.length)))
      ∧ ∀ error, whole.1 = .error error → part.1 = .error error := by
  intro whole part
  have hselect : plan.kind.isManipulation = false := by rw [hkind]; rfl
  have hpaging : plan.bind prepared.dialect { parameters with selection := {} } prepared.filters
      .inMemory = _ := Plan.bind_paging hcompile hselect prepared.dialect parameters
        prepared.filters .inMemory
  cases hbind : plan.bind prepared.dialect parameters prepared.filters .off with
  | error fault =>
    rw [hbind] at hpaging
    have hbound : prepared.bound plan { parameters with selection := {} } .inMemory
        = .error (.binding fault) := by
      rw [bound, hpaging]
      rfl
    have hwhole : whole = (.error (.binding fault), connection) :=
      list_run_of_error hplan hkind ((bound_fetching hkind _).trans (by exact hbound)) connection
    have hpart : part = (.error (.binding fault), connection) :=
      list_run_of_error hplan hkind ((bound_fetching hkind _).trans hbound) connection
    exact .inl ⟨fault, rfl, hwhole, hpart.trans hwhole.symm⟩
  | ok bound =>
    obtain ⟨statement, rfl⟩ := Plan.bind_eq_singleton hcompile hselect hbind
    rw [hbind] at hpaging
    have hbound : prepared.bound plan { parameters with selection := {} } .inMemory
        = .ok [Plan.endWith (prepared.dialect.lockClause parameters.lock) statement] := by
      rw [bound, hpaging]
      rfl
    have hall : ∀ x : Except Error (List QueryResult), x.map ({} : RowSelection).apply = x := by
      intro x
      cases x <;> rfl
    have hwhole : whole = _ :=
      list_run_fetching hplan hkind (by exact hbound) connection
    have hpart : part = _ := list_run_fetching hplan hkind hbound connection
    rw [hall] at hwhole
    refine .inr ⟨statement, rfl, ?_, ?_, ?_, ?_, ?_⟩
    · exact congrArg (·.2.sent) hwhole
    · rw [hpart, hwhole]
    · intro results
      rw [hwhole]
      exact Plan.answer_eq_ok
    · intro results hresults
      rw [hwhole] at hresults
      rw [hpart, ← RowSelection.apply_eq]
      exact congrArg (Except.map _) hresults
    · intro error herror
      rw [hwhole] at herror
      rw [hpart]
      exact congrArg (Except.map _) herror

def Sample.personsQuery : String :=
  "select p from Person p left join fetch p.orders"

/-- The second of two persons; the first comes in three rows, with two orders. -/
theorem list_paging_slice_persons : ∃ plan results,
    Plan.compile compiler "q" personsQuery [] = .ok plan
      ∧ plan.kind = .select true
      ∧ (((prepared plan).list {}).run { replies := [{ rows := personRows }] }).1
        = .ok results
      ∧ results.length = 2
      ∧ (((prepared plan).list { selection := ⟨some 1, some 5⟩ }).run
        { replies := [{ rows := personRows }] }).1 = .ok (results.drop 1) := by
  obtain ⟨⟨plan, results⟩, hcomputed, hfacts⟩ := exists_ok_of_any
    (x := do
      let plan ← Plan.compile compiler "q" personsQuery []
      let results ← (((prepared plan).list {}).run
        { replies := [{ rows := personRows }] }).1
      return (plan, results))
    (p := fun found => decide (found.1.kind = .select true ∧ found.2.length = 2))
    (by decide +kernel)
  obtain ⟨_, hplan, hrest⟩ := bind_eq_ok.mp hcomputed
  obtain ⟨_, hresults, hrest⟩ := bind_eq_ok.mp hrest
  cases Except.ok.inj hrest
  obtain ⟨hkind, hlength⟩ := of_decide_eq_true hfacts
  refine ⟨plan, results, hplan, hkind, hresults, hlength, ?_⟩
  rcases list_paging_slice hplan (show (prepared plan).compiled = some plan from rfl) hkind
      { selection := ⟨some 1, some 5⟩ } { replies := [{ rows := personRows }] } with
    ⟨fault, -, hwhole, -⟩ | ⟨statement, -, -, -, -, hslice, -⟩
  · cases hresults.symm.trans (congrArg (·.1) hwhole)
  · rw [hslice results hresults]
    exact congrArg Except.ok (List.take_of_length_le (by simp [hlength]))

end EntityQuery
