import EntityQuery.Proofs.Cursor.Refinement
import EntityQuery.Proofs.Plan.Binding

/-!
# The ways to run a select

A select is run as a list, as a stream that is read to its end, or behind a
cursor that goes on to the next row until there is none. The list takes all
rows before it reads the first of them; the other two read each row as it
comes. `select_modes_agree` says that nobody can tell the results apart, and
that one of them fails where the others do, whatever the database answers.

All three are told from the script of the answer: a stream delivers it
(`delivers_of_pending`), a cursor visits it (`visits_of_pending`), and the list
is its outcome (`list_run`).
-/

namespace EntityQuery

open PreparedQuery ResultStream

variable {results results' : List QueryResult} {failure failure' : Option Error}
  {statement : BoundStatement}

/-- What is left of a script for those who only see its end. -/
def outcome (results : List QueryResult) : Option Error → Except Error (List QueryResult)
  | none => .ok results
  | some error => .error error

theorem outcome_eq_ok {found : List QueryResult} :
    outcome results failure = .ok found ↔ failure = none ∧ results = found := by
  cases failure <;> simp [outcome]

theorem outcome_eq_error (results : List QueryResult) :
    (∃ error, outcome results failure = .error error) ↔ ∃ error, failure = some error := by
  cases failure <;> simp [outcome]

/-! ## Streams -/

namespace ResultStream

/-- The results of a stream, one after the other, up to its end or its failure. -/
inductive Delivers : ResultStream → List QueryResult → Option Error → ResultStream → Prop
  | done {stream after} : stream.next = (.ok none, after) → Delivers stream [] none after
  | failed {stream after error} : stream.next = (.error error, after) →
      Delivers stream [] (some error) after
  | more {stream result between results failure after} :
      stream.next = (.ok (some result), between) → Delivers between results failure after →
      Delivers stream (result :: results) failure after

variable {stream : ResultStream}

theorem Delivers.unique {after after' : ResultStream} (h : Delivers stream results failure after)
    (h' : Delivers stream results' failure' after') :
    results = results' ∧ failure = failure' ∧ after = after' := by
  induction h generalizing results' with
  | done hnext | failed hnext => cases h' <;> simp_all
  | more hnext _ ih =>
    cases h' with
    | done hnext' | failed hnext' => simp_all
    | more hnext' hrest =>
      obtain ⟨hresult, rfl⟩ := Prod.mk.inj (hnext.symm.trans hnext')
      obtain rfl := Option.some.inj (Except.ok.inj hresult)
      obtain ⟨rfl, rfl, rfl⟩ := ih hrest
      exact ⟨rfl, rfl, rfl⟩

theorem sent_take (limit : Option Nat) :
    (stream.take limit).2.connection.sent = stream.opened.connection.sent := by
  rw [connection_take]
  rfl

theorem opened_sent_take (limit : Option Nat) :
    (stream.take limit).2.opened.connection.sent = stream.opened.connection.sent := by
  rw [opened_take, sent_take]

theorem delivers_of_pending : ∀ {results : List QueryResult} {failure : Option Error}
    {stream : ResultStream}, stream.pending = script results failure →
    ∃ after, stream.Delivers results failure after
      ∧ after.connection.sent = stream.opened.connection.sent
  | [], failure, stream, h => by
    have htake : (stream.take (some 1)).1
        = ⟨[], failure.toList.length, [], failure.isNone, failure⟩ := by
      rw [take_fst, h, Taken.upTo_script_gt fun n hn => Option.some.inj hn ▸ Nat.one_pos]
      simp
    cases failure with
    | none => exact ⟨_, .done (by simp [next, htake]), sent_take (some 1)⟩
    | some error => exact ⟨_, .failed (by simp [next, htake]), sent_take (some 1)⟩
  | result :: rest, failure, stream, h => by
    have htake : Taken.upTo (some 1) stream.pending
        = ⟨[result], 1, script rest failure, false, none⟩ := by
      rw [h, Taken.upTo_script_le (Nat.succ_pos _)]
      rfl
    have hleft : (stream.take (some 1)).2.pending = script rest failure := by
      rw [pending_take, htake]
    obtain ⟨after, hrest, hsent⟩ := delivers_of_pending hleft
    refine ⟨after, .more ?_ hrest, hsent.trans (opened_sent_take _)⟩
    have hfst : (stream.take (some 1)).1 = _ := (take_fst ..).trans htake
    simp [next, hfst]

theorem collect_of_pending (h : stream.pending = script results failure) :
    stream.collect.1 = outcome results failure
      ∧ stream.collect.2.connection.sent = stream.opened.connection.sent := by
  have htake : (stream.take none).1
      = ⟨results, results.length + failure.toList.length, [], failure.isNone, failure⟩ := by
    rw [take_fst, h, Taken.upTo_script_gt (by simp)]
  have hsent : (stream.take none).2.connection.sent = stream.opened.connection.sent := sent_take _
  cases failure with
  | none | some error =>
    exact ⟨by simp [collect, htake, outcome], by simpa [collect, htake] using hsent⟩

end ResultStream

/-! ## Cursors -/

namespace Cursor

open Move

/-- The rows that a cursor stands at, going on to the next one until there is
none or it fails. -/
inductive Visits : Cursor → List QueryResult → Option Error → Cursor → Prop
  | done {cursor after} : Runs next cursor false after → Visits cursor [] none after
  | failed {cursor after error} : Fails next cursor error after →
      Visits cursor [] (some error) after
  | more {cursor result between results failure after} : Runs next cursor true between →
      between.current? = some result → Visits between results failure after →
      Visits cursor (result :: results) failure after

variable {cursor : Cursor}

theorem Visits.unique {after after' : Cursor} (h : Visits cursor results failure after)
    (h' : Visits cursor results' failure' after') :
    results = results' ∧ failure = failure' ∧ after = after' := by
  induction h generalizing results' with
  | done hnext | failed hnext => cases h' <;> grind [Runs, Fails]
  | more hnext hcurrent _ ih =>
    cases h' with
    | done hnext' | failed hnext' => grind [Runs, Fails]
    | more hnext' hcurrent' hrest =>
      obtain ⟨-, rfl⟩ := hnext.unique hnext'
      obtain rfl := Option.some.inj (hcurrent.symm.trans hcurrent')
      obtain ⟨rfl, rfl, rfl⟩ := ih hrest
      exact ⟨rfl, rfl, rfl⟩

/-- The cursor stands at the last row it has taken, and does not know whether
there are more. -/
structure Ahead (cursor : Cursor) : Prop where
  open_end : cursor.exhausted = false
  index_eq : cursor.index + 1 = cursor.rows.length

theorem Ahead.position_ne (h : cursor.Ahead) : cursor.position ≠ .afterLast := by
  intro hposition
  have hindex := h.index_eq
  rw [index, hposition] at hindex
  change (cursor.rows.length : Int) + 1 = cursor.rows.length at hindex
  omega

/-- The next row is the one behind those that are taken. -/
theorem Ahead.next_eq (h : cursor.Ahead) : next.run cursor = (do
    if ← fillTo cursor.rows.length then
      place (.at cursor.rows.length)
      return true
    else
      place .afterLast
      return false : Move Bool).run cursor := by
  have hindex : ¬((cursor.rows.length : Int) < 0) := by omega
  have hrun : next.run cursor = (moveTo (cursor.index + 1)).run cursor := by
    rw [next, run_exceptT_bind]
    change (if cursor.position = .afterLast then _ else _ : Move Bool).run cursor = _
    rw [if_neg h.position_ne]
  rw [hrun, h.index_eq, moveTo, if_neg hindex, Int.toNat_natCast]

theorem Ahead.fillTo_runs (h : cursor.Ahead)
    (hfailure : (cursor.source.take (some 1)).1.failure = none) :
    Runs (fillTo cursor.rows.length) cursor
      (decide (cursor.rows.length < (cursor.taking (some 1)).rows.length))
      (cursor.taking (some 1)) := by
  refine (runs_get cursor).bind ?_
  rw [Nat.add_sub_cancel_left]
  exact (fill_eq_take (by rw [h.open_end]; rfl) hfailure).bind
    ((runs_get (cursor.taking _)).bind (runs_pure ..))

theorem visits_of_pending : ∀ {results : List QueryResult} {failure : Option Error}
    {cursor : Cursor}, cursor.Ahead → cursor.source.pending = script results failure →
    ∃ after, cursor.Visits results failure after
      ∧ after.source.connection.sent = cursor.source.opened.connection.sent
  | [], failure, cursor, hahead, h => by
    obtain ⟨hfailure, hrows, -⟩ := taking_of_gt h fun n hn => Option.some.inj hn ▸ Nat.one_pos
    cases failure with
    | none =>
      have hfill := hahead.fillTo_runs hfailure
      rw [hrows, List.append_nil, decide_eq_false (Nat.lt_irrefl _)] at hfill
      refine ⟨{ cursor.taking (some 1) with position := .afterLast }, .done ?_, sent_take _⟩
      rw [Runs, hahead.next_eq]
      exact hfill.bind ((runs_modify ..).bind (runs_pure ..))
    | some error =>
      refine ⟨cursor.taking (some 1), .failed ?_, sent_take _⟩
      rw [Fails, hahead.next_eq]
      refine Fails.bind ((runs_get cursor).bind_fails ?_) _
      rw [Nat.add_sub_cancel_left]
      exact (fill_fails (by rw [hahead.open_end]; rfl) hfailure).bind _
  | result :: rest, failure, cursor, hahead, h => by
    obtain ⟨hfailure, hrows, hended, hleft⟩ := taking_of_le h (Nat.succ_pos _)
    have hlength : (cursor.taking (some 1)).rows.length = cursor.rows.length + 1 := by simp [hrows]
    have hfill := hahead.fillTo_runs hfailure
    rw [hlength, decide_eq_true (Nat.lt_succ_self _)] at hfill
    -- The cursor stands at the new row, again ahead of what is left.
    have hahead' : Ahead { cursor.taking (some 1) with position := .at cursor.rows.length } :=
      ⟨hended, by rw [hlength]; rfl⟩
    obtain ⟨after, hrest, hsent⟩ := visits_of_pending hahead' hleft
    refine ⟨after, .more ?_ ?_ hrest, hsent.trans (opened_sent_take _)⟩
    · rw [Runs, hahead.next_eq]
      exact hfill.bind ((runs_modify ..).bind (runs_pure ..))
    · simp [current?, hrows]

end Cursor

/-! ## Queries -/

theorem Plan.readRows_eq_mapM {plan : Plan} (hkind : plan.kind = .select false) :
    ∀ rows : List Row, plan.readRows rows = rows.mapM plan.readRow := by
  intro rows
  have hmerge : plan.kind.fetchesCollection = false := by rw [hkind]; rfl
  have hread : plan.readRows rows
      = (rows.mapM fun row => row.values plan.returns plan.fetches) >>= fun values =>
        pure (values.map plan.result) := by
    simp [readRows, hmerge]
  rw [hread]
  clear hread
  induction rows with
  | nil => rfl
  | cons row rest ih =>
    simp only [List.mapM_cons, readRow, ← ih, bind_assoc, pure_bind, List.map_cons]

/-- What a select makes of the answer to its statement. -/
def Plan.answer (plan : Plan) (sql : String) (reply : Reply) : Except Error (List QueryResult) :=
  match reply.failure with
  | some cause => .error (.execution (.statement sql cause))
  | none =>
    match plan.readRows reply.rows with
    | .error fault => .error (.execution fault)
    | .ok results => .ok results

theorem Plan.answer_eq_ok {plan : Plan} {sql : String} {reply : Reply} :
    plan.answer sql reply = .ok results
      ↔ reply.failure = none ∧ plan.readRows reply.rows = .ok results := by
  unfold answer
  cases reply.failure with
  | some cause => simp
  | none => cases plan.readRows reply.rows <;> simp

namespace PreparedQuery

variable (prepared : PreparedQuery) (parameters : Parameters) (connection : Connection)

/-- A select as a stream that is read to its end. -/
def collected : Except Error (List QueryResult) × Connection :=
  match prepared.iterate parameters connection with
  | .error error => (.error error, connection)
  | .ok stream => (stream.collect.1, stream.collect.2.connection)

/-- A select as a stream whose results are asked for one by one. -/
inductive Iterates : List QueryResult → Option Error → Connection → Prop
  | refused {error} : prepared.iterate parameters connection = .error error →
      Iterates [] (some error) connection
  | streamed {stream results failure after} : prepared.iterate parameters connection = .ok stream →
      stream.Delivers results failure after → Iterates results failure after.connection

/-- A select behind a cursor that goes over all rows. -/
inductive Scrolls : List QueryResult → Option Error → Connection → Prop
  | refused {error} : prepared.scroll parameters connection = .error error →
      Scrolls [] (some error) connection
  | visited {cursor results failure after} : prepared.scroll parameters connection = .ok cursor →
      cursor.Visits results failure after → Scrolls results failure after.source.connection

variable {prepared} {parameters} {plan : Plan}

theorem run_lift_bind {α β : Type} (x : Except Error α) (f : α → Executed β)
    (connection : Connection) :
    ((liftM x : Executed α) >>= f).run connection = match x with
      | .ok a => (f a).run connection
      | .error error => (.error error, connection) := by
  cases x <;> rfl

theorem rows_run (statement : BoundStatement) (connection : Connection) :
    (Executed.rows statement).run connection =
      let reply := (connection.send statement).1
      let after := (connection.send statement).2.pull
        (reply.rows.length + reply.failure.toList.length)
      match reply.failure with
      | some cause => (.error (.execution (.statement statement.sql cause)), after)
      | none => (.ok reply.rows, after) := by
  have hsend : (Executed.send statement).run connection
      = (.ok (connection.send statement).1, (connection.send statement).2) := rfl
  rw [Executed.rows, run_exceptT_bind, hsend]
  generalize connection.send statement = answer
  obtain ⟨⟨rows, failure, affected⟩, after⟩ := answer
  cases failure <;> rfl

theorem selectPlan_eq (hplan : prepared.compiled = some plan) {fetching : Bool}
    (hkind : plan.kind = .select fetching) (operation : Operation) :
    ofQuery (prepared.selectPlan operation) = .ok plan := by
  rw [selectPlan, PreparedQuery.plan, hplan]
  change ofQuery (if plan.kind.isManipulation then _ else _) = _
  rw [hkind]
  rfl

theorem list_run_of_error (hplan : prepared.compiled = some plan) {fetching : Bool}
    (hkind : plan.kind = .select fetching) {error : Error}
    (hbound : prepared.bound plan parameters
      (if plan.kind.fetchesCollection && !parameters.selection.isEmpty then .inMemory else .sql)
        = .error error) (connection : Connection) :
    (prepared.list parameters).run connection = (.error error, connection) := by
  unfold list
  rw [run_lift_bind, selectPlan_eq hplan hkind]
  simp only
  rw [run_lift_bind, hbound]

/-- A list takes all rows first, and reads them if no failure comes after
them. -/
theorem list_run (hplan : prepared.compiled = some plan) {fetching : Bool}
    (hkind : plan.kind = .select fetching)
    (hbound : prepared.bound plan parameters
      (if plan.kind.fetchesCollection && !parameters.selection.isEmpty then .inMemory else .sql)
        = .ok [statement]) (connection : Connection) :
    (prepared.list parameters).run connection
      = ((plan.answer statement.sql (connection.send statement).1).map fun results =>
          if plan.kind.fetchesCollection && !parameters.selection.isEmpty then
            parameters.selection.apply results
          else results,
        (connection.send statement).2.pull ((connection.send statement).1.rows.length
          + (connection.send statement).1.failure.toList.length)) := by
  unfold list
  rw [run_lift_bind, selectPlan_eq hplan hkind]
  simp only
  rw [run_lift_bind, hbound]
  simp only [List.getLast?_singleton, run_exceptT_bind, rows_run]
  generalize connection.send statement = answer
  obtain ⟨⟨rows, failure, affected⟩, after⟩ := answer
  unfold Plan.answer
  cases failure with
  | some cause => rfl
  | none =>
    cases hread : plan.readRows rows <;>
      · simp only [hread]
        rfl

theorem list_run_single (hplan : prepared.compiled = some plan) (hkind : plan.kind = .select false)
    (hbound : prepared.bound plan parameters .sql = .ok [statement]) (connection : Connection) :
    (prepared.list parameters).run connection
      = (plan.answer statement.sql (connection.send statement).1,
        (connection.send statement).2.pull ((connection.send statement).1.rows.length
          + (connection.send statement).1.failure.toList.length)) := by
  rw [list_run hplan hkind (by rw [hkind]; exact hbound), hkind]
  cases plan.answer statement.sql (connection.send statement).1 <;> rfl

theorem validateScrollability_eq (hplan : prepared.compiled = some plan)
    (hkind : plan.kind = .select false) : ofQuery prepared.validateScrollability = .ok () := by
  rw [validateScrollability, PreparedQuery.plan, hplan]
  change ofQuery (if plan.kind.fetchesCollection then _ else _) = _
  rw [hkind]
  rfl

theorem openSelect_of_bound (hplan : prepared.compiled = some plan)
    (hkind : plan.kind = .select false) {bound : Except Error (List BoundStatement)}
    (hbound : prepared.bound plan parameters .sql = bound) (operation : Operation) :
    prepared.openSelect operation parameters = bound >>= fun statements =>
      statements.getLast?.elim (.error (.query (.misuse .noStatement prepared.query)))
        fun statement => .ok (plan, statement) := by
  rw [openSelect, selectPlan_eq hplan hkind, validateScrollability_eq hplan hkind, ← hbound]
  refine congrArg (prepared.bound plan parameters .sql >>= ·) (funext fun statements => ?_)
  cases statements.getLast? <;> rfl

end PreparedQuery

/-- The plan of a select sends one statement. -/
theorem Plan.bind_eq_singleton {compiler : Compiler} {identifier query : String}
    {substitutions : List (String × String)} {plan : Plan}
    (hcompile : compile compiler identifier query substitutions = .ok plan)
    (hselect : plan.kind.isManipulation = false) {dialect : Sql.Dialect}
    {parameters : Parameters} {filters : EnabledFilters} {paging : Paging}
    {bound : List BoundStatement} (hbind : plan.bind dialect parameters filters paging = .ok bound) :
    ∃ statement, bound = [statement] := by
  obtain ⟨-, resolved, -, rfl⟩ := bind_eq_ok_statements hbind
  obtain ⟨text, select, run, -, -, rfl⟩ := exists_selectRun_of_compile hcompile hselect
  exact ⟨_, rfl⟩

/-- The ways to run a select do the same: they send the statements `sent`,
which is one if the values can be bound and none otherwise, and have the same
results or fail together. What a stream gives before it fails are the results of
the first rows. -/
structure ModesAgree (prepared : PreparedQuery) (plan : Plan) (parameters : Parameters)
    (connection : Connection) (sent : List SentStatement) : Prop where
  single : (∃ statement, prepared.bound plan parameters .sql = .ok [statement]
      ∧ sent = [statement.sent])
    ∨ ∃ error, prepared.bound plan parameters .sql = .error error ∧ sent = []
      ∧ ((prepared.list parameters).run connection).1 = .error error
  list_sent : ((prepared.list parameters).run connection).2.sent = connection.sent ++ sent
  collected_sent : (prepared.collected parameters connection).2.sent = connection.sent ++ sent
  scrolls_sent : ∀ {visited failure after},
    prepared.Scrolls parameters connection visited failure after →
      after.sent = connection.sent ++ sent
  collected_ok : ∀ {results}, ((prepared.list parameters).run connection).1 = .ok results
    ↔ (prepared.collected parameters connection).1 = .ok results
  scrolls_ok : ∀ {results}, ((prepared.list parameters).run connection).1 = .ok results
    ↔ ∃ after, prepared.Scrolls parameters connection results none after
  collected_error : (∃ error, ((prepared.list parameters).run connection).1 = .error error)
    ↔ ∃ error, (prepared.collected parameters connection).1 = .error error
  scrolls_error : (∃ error, ((prepared.list parameters).run connection).1 = .error error)
    ↔ ∃ visited error after,
      prepared.Scrolls parameters connection visited (some error) after
  iterates : ∃ delivered failure after,
    prepared.Iterates parameters connection delivered failure after
      ∧ (prepared.collected parameters connection).1 = outcome delivered failure
  delivered : ∀ {delivered error after},
    prepared.Iterates parameters connection delivered (some error) after →
      ∃ rows, rows <+: (connection.replies.headD {}).rows ∧ rows.mapM plan.readRow = .ok delivered

namespace PreparedQuery

variable {prepared : PreparedQuery} {parameters : Parameters} {plan : Plan}

theorem list_eq_outcome (hplan : prepared.compiled = some plan) (hkind : plan.kind = .select false)
    (hbound : prepared.bound plan parameters .sql = .ok [statement]) (connection : Connection) :
    ∃ results failure, plan.events statement.sql (connection.send statement).1.failure
          (connection.send statement).1.rows = script results failure
      ∧ (∃ rows, rows <+: (connection.send statement).1.rows
        ∧ rows.mapM plan.readRow = .ok results)
      ∧ ∀ found, ((prepared.list parameters).run connection).1 = .ok found
        ↔ outcome results failure = .ok found := by
  obtain ⟨results, failure, hevents, hfailure⟩ := plan.events_eq_script statement.sql
    (connection.send statement).1.failure (connection.send statement).1.rows
  refine ⟨results, failure, hevents, ?_, fun found => ?_⟩
  · rcases hfailure with ⟨hread, -⟩ | ⟨before, row, after, fault, hrows, hread, -⟩
    · exact ⟨_, List.prefix_refl _, hread⟩
    · exact ⟨before, ⟨row :: after, hrows.symm⟩, hread⟩
  · rw [list_run_single hplan hkind hbound, Plan.answer_eq_ok, Plan.readRows_eq_mapM hkind,
      outcome_eq_ok]
    rcases hfailure with ⟨hread, rfl⟩ | ⟨before, row, after, fault, hrows, -, hrow, rfl⟩
    · rw [hread, Option.map_eq_none_iff, Except.ok.injEq]
    · -- A row that cannot be read fails the list as it fails the stream.
      have hread : (connection.send statement).1.rows.mapM plan.readRow ≠ .ok found := by
        intro hfound
        obtain ⟨result, -, hresult⟩ := exists_right_of_forall₂ (mapM_eq_ok_iff.mp hfound)
          (show row ∈ _ by rw [hrows]; simp)
        rw [hrow] at hresult
        cases hresult
      exact ⟨fun h => absurd h.2 hread, fun h => nomatch h.1⟩

variable {connection : Connection}

theorem Iterates.unique {after after' : Connection}
    (h : prepared.Iterates parameters connection results failure after)
    (h' : prepared.Iterates parameters connection results' failure' after') :
    results = results' ∧ failure = failure' := by
  cases h with
  | refused hopen => cases h' <;> simp_all
  | streamed hopen hdelivers =>
    cases h' with
    | refused hopen' => cases hopen.symm.trans hopen'
    | streamed hopen' hdelivers' =>
      obtain rfl := Except.ok.inj (hopen.symm.trans hopen')
      obtain ⟨hresults, hfailure, -⟩ := hdelivers.unique hdelivers'
      exact ⟨hresults, hfailure⟩

theorem Scrolls.unique {after after' : Connection}
    (h : prepared.Scrolls parameters connection results failure after)
    (h' : prepared.Scrolls parameters connection results' failure' after') :
    results = results' ∧ failure = failure' ∧ after = after' := by
  cases h with
  | refused hopen => cases h' <;> simp_all
  | visited hopen hvisits =>
    cases h' with
    | refused hopen' => cases hopen.symm.trans hopen'
    | visited hopen' hvisits' =>
      obtain rfl := Except.ok.inj (hopen.symm.trans hopen')
      obtain ⟨hresults, hfailure, hafter⟩ := hvisits.unique hvisits'
      exact ⟨hresults, hfailure, by rw [hafter]⟩

end PreparedQuery

theorem exists_error_iff {ε α : Type} {x : Except ε α} :
    (∃ error, x = .error error) ↔ ∀ a, x ≠ .ok a := by
  cases x <;> simp

namespace ModesAgree

variable {prepared : PreparedQuery} {parameters : Parameters} {connection : Connection}
  {plan : Plan} {sent : List SentStatement}

/-- Ways that all go by one script agree. -/
theorem of_script (results : List QueryResult) (failure : Option Error)
    {scrolled iterated : Connection}
    (hsingle : (∃ statement, prepared.bound plan parameters .sql = .ok [statement]
        ∧ sent = [statement.sent])
      ∨ ∃ error, prepared.bound plan parameters .sql = .error error ∧ sent = []
        ∧ ((prepared.list parameters).run connection).1 = .error error)
    (hsent : ((prepared.list parameters).run connection).2.sent = connection.sent ++ sent)
    (hlist : ∀ found, ((prepared.list parameters).run connection).1 = .ok found
      ↔ outcome results failure = .ok found)
    (hcollected : (prepared.collected parameters connection).1 = outcome results failure
      ∧ (prepared.collected parameters connection).2.sent = connection.sent ++ sent)
    (hscrolls : prepared.Scrolls parameters connection results failure scrolled
      ∧ scrolled.sent = connection.sent ++ sent)
    (hiterates : prepared.Iterates parameters connection results failure iterated)
    (hrows : failure ≠ none → ∃ rows, rows <+: (connection.replies.headD {}).rows
      ∧ rows.mapM plan.readRow = .ok results) :
    ModesAgree prepared plan parameters connection sent where
  single := hsingle
  list_sent := hsent
  collected_sent := hcollected.2
  scrolls_sent h := by
    obtain ⟨-, -, rfl⟩ := hscrolls.1.unique h
    exact hscrolls.2
  collected_ok := by
    intro found
    rw [hlist, hcollected.1]
  scrolls_ok := by
    intro found
    rw [hlist, outcome_eq_ok]
    constructor
    · rintro ⟨rfl, rfl⟩
      exact ⟨scrolled, hscrolls.1⟩
    · rintro ⟨after, h⟩
      obtain ⟨hresults, hfailure, -⟩ := hscrolls.1.unique h
      exact ⟨hfailure, hresults⟩
  collected_error := by
    rw [exists_error_iff, hcollected.1, exists_error_iff]
    exact forall_congr' fun found => not_congr (hlist found)
  scrolls_error := by
    have hfails : (∃ error, ((prepared.list parameters).run connection).1 = .error error)
        ↔ ∃ error, failure = some error := by
      rw [← outcome_eq_error results, exists_error_iff, exists_error_iff]
      exact forall_congr' fun found => not_congr (hlist found)
    rw [hfails]
    constructor
    · rintro ⟨error, rfl⟩
      exact ⟨results, error, scrolled, hscrolls.1⟩
    · rintro ⟨visited, error, after, h⟩
      exact ⟨error, (hscrolls.1.unique h).2.1⟩
  iterates := ⟨results, failure, iterated, hiterates, hcollected.1⟩
  delivered h := by
    obtain ⟨rfl, rfl⟩ := hiterates.unique h
    exact hrows nofun

end ModesAgree

/-- A compiled select that fetches no collection gives the same as a list, as a
stream and behind a cursor. -/
theorem select_modes_agree {compiler : Plan.Compiler} {identifier query : String}
    {substitutions : List (String × String)} {plan : Plan} {prepared : PreparedQuery}
    (hcompile : Plan.compile compiler identifier query substitutions = .ok plan)
    (hplan : prepared.compiled = some plan) (hkind : plan.kind = .select false)
    (parameters : Parameters) (connection : Connection) :
    ∃ sent, ModesAgree prepared plan parameters connection sent := by
  cases hbind : plan.bind prepared.dialect parameters prepared.filters .sql with
  | error fault =>
    have hbound : prepared.bound plan parameters .sql = .error (.binding fault) := by
      rw [bound, hbind]
    have hiterate : prepared.iterate parameters connection = .error (.binding fault) := by
      rw [iterate, openSelect_of_bound hplan hkind hbound]
      rfl
    have hscroll : prepared.scroll parameters connection = .error (.binding fault) := by
      rw [scroll, openSelect_of_bound hplan hkind hbound]
      rfl
    have hlist := list_run_of_error hplan hkind (by rw [hkind]; exact hbound) connection
    have hcollected : prepared.collected parameters connection
        = (.error (.binding fault), connection) := by
      rw [collected, hiterate]
    have hsame : connection.sent = connection.sent ++ [] := (List.append_nil _).symm
    exact ⟨[], .of_script [] (some (.binding fault))
      (.inr ⟨_, hbound, rfl, by rw [hlist]⟩) (by rw [hlist]; exact hsame)
      (fun found => by rw [hlist]; rfl) (by rw [hcollected]; exact ⟨rfl, hsame⟩)
      ⟨.refused hscroll, hsame⟩ (.refused hiterate) fun _ => ⟨[], List.nil_prefix, rfl⟩⟩
  | ok bound =>
    obtain ⟨statement, rfl⟩ := Plan.bind_eq_singleton hcompile (by rw [hkind]; rfl) hbind
    have hbound : prepared.bound plan parameters .sql = .ok [statement] := by
      rw [bound, hbind]
    obtain ⟨results, failure, hevents, hrows, hlist⟩ :=
      list_eq_outcome hplan hkind hbound connection
    let stream : ResultStream := { plan, statement, connection }
    have hpending : stream.pending = script results failure := hevents
    have hiterate : prepared.iterate parameters connection = .ok stream := by
      rw [iterate, openSelect_of_bound hplan hkind hbound]
      rfl
    have hscroll : prepared.scroll parameters connection = .ok { source := stream } := by
      rw [scroll, openSelect_of_bound hplan hkind hbound]
      rfl
    have hcollect := collect_of_pending hpending
    obtain ⟨streamed, hdelivers, -⟩ := delivers_of_pending hpending
    have hahead : Cursor.Ahead { source := stream } := ⟨rfl, rfl⟩
    obtain ⟨visited, hvisits, hsent⟩ := Cursor.visits_of_pending hahead hpending
    have hcollected : prepared.collected parameters connection
        = (stream.collect.1, stream.collect.2.connection) := by
      rw [collected, hiterate]
    refine ⟨[statement.sent], .of_script results failure (.inl ⟨statement, hbound, rfl⟩) ?_ hlist ?_
      ⟨.visited hscroll hvisits, hsent⟩ (.streamed hiterate hdelivers) fun _ => hrows⟩
    · rw [list_run_single hplan hkind hbound]
      rfl
    · rw [hcollected]
      exact hcollect

/-- Two rows, the second of which cannot be read, and a failure behind them. -/
theorem select_modes_agree_broken : ∃ plan,
    Plan.compile Sample.compiler "q" "select p.age from Person p where p.name in (:names)" []
        = .ok plan
      ∧ plan.kind = .select false
      ∧ ∃ sent, ModesAgree (Sample.prepared plan) plan Sample.parameters
        { replies := [⟨[⟨["col_0_0_"], [.int 30]⟩, ⟨["col_0_0_"], [.text "x"]⟩], some "lost", 0⟩] }
        sent := by
  refine exists_ok_and (fun plan => plan.kind = .select false) (by decide +kernel)
    fun plan hplan hselect => ?_
  exact ⟨hselect, select_modes_agree hplan rfl hselect _ _⟩

end EntityQuery
