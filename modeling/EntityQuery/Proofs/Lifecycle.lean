import EntityQuery.Proofs.Cursor.Modes
import EntityQuery.Proofs.Cursor.Sending
import EntityQuery.Proofs.Plan.Parameters

/-!
# The life of a prepared query

A prepared query is called in any order: it is compiled, asked for its plan, and run
against connections that may answer anything. `PreparedQuery.perform` is one such
call, and `life_cycle` says what is true after any row of them. The first compilation
that succeeds gives the query its plan for good, and no other call changes it. A call
that is refused sends nothing. Statements are sent only by calls that fit the kind of
the plan, and an update sends its statements in order, up to the first that fails.

One call either sends nothing, or it fits the plan and fails for the database alone
(`perform_sends`); the rest follows by induction over the calls.
-/

namespace EntityQuery

open List

variable {operation : Operation} {parameters : Parameters} {statements : List BoundStatement}

/-- The failure is one of the query or of its parameters. -/
def Error.IsRefusal (error : Error) : Prop :=
  (∃ fault, error = .query fault) ∨ ∃ fault, error = .binding fault

theorem Error.IsExecution.not_isRefusal {error : Error} (h : error.IsExecution) :
    ¬error.IsRefusal := by
  obtain ⟨fault, rfl⟩ := h
  rintro (⟨_, h⟩ | ⟨_, h⟩) <;> cases h

namespace PreparedQuery

variable {statement : BoundStatement} {answer : Except Error Nat} {sent : List SentStatement}
  {replies : List Reply}

/-! ## Calls -/

/-- A call of a prepared query. One that runs the query is given a connection; a stream
or a cursor is used up to the next call. -/
inductive Call where
  | compile (substitutions : List (String × String)) (shallow : Bool)
  | plan
  | validateScrollability
  | list (parameters : Parameters) (connection : Connection)
  | iterate (parameters : Parameters) (connection : Connection) (uses : List StreamUse)
  | scroll (parameters : Parameters) (connection : Connection) (moves : List CursorMove)
  | executeUpdate (parameters : Parameters) (connection : Connection)
  deriving Repr

def Call.sentBefore : Call → List SentStatement
  | .list _ connection | .iterate _ connection _ | .scroll _ connection _
  | .executeUpdate _ connection => connection.sent
  | _ => []

/-- What comes of a call. -/
structure Outcome where
  prepared : PreparedQuery
  /-- The statements that the connection was sent, those before the call included. -/
  sent : List SentStatement
  failures : List Error
  deriving Repr

def perform (prepared : PreparedQuery) : Call → Outcome
  | .compile substitutions shallow =>
    match prepared.compile substitutions shallow with
    | .ok compiled => ⟨compiled, [], []⟩
    | .error error => ⟨prepared, [], [error]⟩
  | .plan => ⟨prepared, [], failures (ofQuery prepared.plan)⟩
  | .validateScrollability => ⟨prepared, [], failures (ofQuery prepared.validateScrollability)⟩
  | .list parameters connection =>
    let run := (prepared.list parameters).run connection
    ⟨prepared, run.2.sent, failures run.1⟩
  | .iterate parameters connection uses =>
    match prepared.iterate parameters connection with
    | .error error => ⟨prepared, connection.sent, [error]⟩
    | .ok stream =>
      let used := along StreamUse.apply uses stream
      ⟨prepared, used.2.connection.sent, used.1⟩
  | .scroll parameters connection moves =>
    match prepared.scroll parameters connection with
    | .error error => ⟨prepared, connection.sent, [error]⟩
    | .ok cursor =>
      let moved := along CursorMove.apply moves cursor
      ⟨prepared, moved.2.source.connection.sent, moved.1⟩
  | .executeUpdate parameters connection =>
    let run := (prepared.executeUpdate parameters).run connection
    ⟨prepared, run.2.sent, failures run.1⟩

def after (prepared : PreparedQuery) (calls : List Call) : PreparedQuery :=
  calls.foldl (fun prepared call => (prepared.perform call).prepared) prepared

/-- The plan that a call makes of the query as it was given, if it compiles it. -/
def compiledBy (prepared : PreparedQuery) : Call → Option Plan
  | .compile substitutions shallow =>
    (Plan.compile ⟨prepared.model, prepared.dialect, prepared.filters, shallow⟩
      prepared.identifier prepared.query substitutions).toOption
  | _ => none

/-- The calls that can send statements of plans of this kind. -/
def Call.Fits : Call → PlanKind → Prop
  | .list .., kind => kind.isManipulation = false
  | .iterate .., kind | .scroll .., kind => kind = .select false
  | .executeUpdate .., kind => kind.isManipulation = true
  | _, _ => False

/-! ## The plan -/

variable {prepared : PreparedQuery} {plan : Plan}

theorem compile_prepared (prepared : PreparedQuery) (substitutions : List (String × String))
    (shallow : Bool) :
    (prepared.perform (.compile substitutions shallow)).prepared
      = { prepared with
          compiled := prepared.compiled.or
            (prepared.compiledBy (.compile substitutions shallow)) } := by
  obtain ⟨identifier, query, filters, model, dialect, compiled⟩ := prepared
  cases compiled with
  | some plan => rfl
  | none =>
    simp only [perform, compile, compiledBy, Option.none_or]
    cases Plan.compile ⟨model, dialect, filters, shallow⟩ identifier query substitutions <;> rfl

/-- A call changes the plan only if there is none yet and it compiles the query. -/
theorem perform_prepared (prepared : PreparedQuery) (call : Call) :
    (prepared.perform call).prepared
      = { prepared with compiled := prepared.compiled.or (prepared.compiledBy call) } := by
  have hkept : prepared
      = { prepared with compiled := prepared.compiled.or none } := by
    rw [Option.or_none]
  cases call with
  | compile substitutions shallow => exact compile_prepared prepared substitutions shallow
  | iterate parameters connection uses | scroll parameters connection moves =>
    refine Eq.trans ?_ hkept
    simp only [perform]
    split <;> rfl
  | _ => exact hkept

/-- The first call that compiles the query decides its plan. -/
theorem after_eq (calls : List Call) (prepared : PreparedQuery) :
    prepared.after calls
      = { prepared with
          compiled := prepared.compiled.or (calls.findSome? prepared.compiledBy) } := by
  induction calls generalizing prepared with
  | nil =>
    rw [findSome?_nil, Option.or_none]
    rfl
  | cons call rest ih =>
    have hstep : prepared.after (call :: rest)
        = (prepared.perform call).prepared.after rest := rfl
    -- What a call would compile does not depend on the plan.
    have hsame : (prepared.perform call).prepared.compiledBy = prepared.compiledBy := by
      rw [perform_prepared]
      funext other
      cases other <;> rfl
    rw [hstep, ih, hsame, perform_prepared, Option.or_assoc]
    congr 2
    rw [findSome?_cons]
    cases prepared.compiledBy call <;> rfl

/-! ## What is sent -/

theorem ofQuery_eq_ok {α : Type} {result : Except QueryFault α} {a : α} :
    ofQuery result = .ok a ↔ result = .ok a := by
  cases result <;> simp [ofQuery]

theorem plan_eq_ok : prepared.plan = .ok plan ↔ prepared.compiled = some plan := by
  unfold PreparedQuery.plan
  cases prepared.compiled <;> simp

theorem selectPlan_eq_ok (h : ofQuery (prepared.selectPlan operation) = .ok plan) :
    prepared.compiled = some plan ∧ plan.kind.isManipulation = false := by
  obtain ⟨found, hfound, h⟩ := bind_eq_ok.mp (ofQuery_eq_ok.mp h)
  cases hkind : found.kind.isManipulation with
  | true =>
    rw [hkind, if_pos rfl] at h
    cases h
  | false =>
    rw [hkind, if_neg Bool.false_ne_true] at h
    obtain rfl := Except.ok.inj h
    exact ⟨plan_eq_ok.mp hfound, hkind⟩

theorem openSelect_eq_ok (h : prepared.openSelect operation parameters = .ok (plan, statement)) :
    prepared.compiled = some plan ∧ plan.kind = .select false := by
  obtain ⟨found, hfound, h⟩ := bind_eq_ok.mp h
  obtain ⟨_, hscrolls, h⟩ := bind_eq_ok.mp h
  obtain ⟨statements, -, h⟩ := bind_eq_ok.mp h
  have hsame : found = plan := by
    cases hlast : statements.getLast? with
    | none =>
      rw [hlast] at h
      cases h
    | some last =>
      rw [hlast] at h
      exact (Prod.mk.inj (Except.ok.inj h)).1
  rw [hsame] at hfound
  obtain ⟨hcompiled, hselect⟩ := selectPlan_eq_ok hfound
  refine ⟨hcompiled, ?_⟩
  obtain ⟨shown, hshown, hfetch⟩ := bind_eq_ok.mp (ofQuery_eq_ok.mp hscrolls)
  rw [Option.some.inj ((plan_eq_ok.mp hshown).symm.trans hcompiled)] at hfetch
  cases hkind : plan.kind with
  | select fetching =>
    cases fetching with
    | false => rfl
    | true =>
      rw [hkind] at hfetch
      cases hfetch
  | update | delete =>
    rw [hkind] at hselect
    cases hselect

/-- Nothing was sent. Or else there is a plan of a kind that fits, one statement at most
was sent if it is a select, and the failures are those of the database. -/
inductive Sends (prepared : PreparedQuery) (fits : PlanKind → Prop)
    (before after : List SentStatement) (failures : List Error) : Prop where
  | nothing (hsame : after = before)
  | fitting {plan : Plan} {sent : List SentStatement} (hplan : prepared.compiled = some plan)
      (hfits : fits plan.kind) (hsent : after = before ++ sent)
      (honce : plan.kind.isManipulation = false → sent.length ≤ 1)
      (hfailures : ∀ error ∈ failures, error.IsExecution)

theorem list_sends (prepared : PreparedQuery) (parameters : Parameters) (connection : Connection) :
    prepared.Sends (·.isManipulation = false) connection.sent
      ((prepared.list parameters).run connection).2.sent
      (failures ((prepared.list parameters).run connection).1) := by
  unfold list
  rw [run_lift_bind]
  cases hplan : ofQuery (prepared.selectPlan .list) with
  | error error => exact .nothing rfl
  | ok plan =>
    simp only
    rw [run_lift_bind]
    generalize prepared.bound plan parameters _ = bound
    cases bound with
    | error error => exact .nothing rfl
    | ok statements =>
      simp only
      cases hlast : statements.getLast? with
      | none => exact .nothing rfl
      | some statement =>
        obtain ⟨hcompiled, hselect⟩ := selectPlan_eq_ok hplan
        have hlog : (connection.send statement).2.sent
            = connection.sent ++ [statement.sent] := rfl
        simp only [run_exceptT_bind, rows_run]
        generalize connection.send statement = answer at hlog
        obtain ⟨⟨rows, failure, affected⟩, after⟩ := answer
        have hfitting : ∀ failures : List Error, (∀ error ∈ failures, error.IsExecution) →
            prepared.Sends (·.isManipulation = false) connection.sent after.sent failures :=
          fun _ => .fitting hcompiled hselect hlog fun _ => Nat.le_refl 1
        cases failure with
        | some cause => exact hfitting _ fun error herror => ⟨_, mem_singleton.mp herror⟩
        | none =>
          cases hread : plan.readRows rows with
          | error fault =>
            simp only [hread]
            exact hfitting _ fun error herror => ⟨fault, mem_singleton.mp herror⟩
          | ok results =>
            simp only [hread]
            exact hfitting _ (forall_mem_nil _)

/-- How far the statements of an update get: all of them are sent and the last one is
counted, or they are sent up to the first that fails. -/
inductive UpdateRun (replies : List Reply) (statements : List BoundStatement) :
    Except Error Nat → List SentStatement → Prop
  | done : (∀ n < statements.length, (replies.getD n {}).failure = none) →
      UpdateRun replies statements (.ok (replies.getD (statements.length - 1) {}).affected)
        (statements.map (·.sent))
  | failed {before : List BoundStatement} {failing : BoundStatement} {rest : List BoundStatement}
      {cause : String} : statements = before ++ failing :: rest →
      (∀ n < before.length, (replies.getD n {}).failure = none) →
      (replies.getD before.length {}).failure = some cause →
      UpdateRun replies statements (.error (.execution (.statement failing.sql cause)))
        ((before ++ [failing]).map (·.sent))

theorem affected_run (statement : BoundStatement) (connection : Connection) :
    (Executed.affected statement).run connection =
      match (connection.send statement).1.failure with
      | some cause =>
        (.error (.execution (.statement statement.sql cause)), (connection.send statement).2)
      | none => (.ok (connection.send statement).1.affected, (connection.send statement).2) := by
  have hsend : (Executed.send statement).run connection
      = (.ok (connection.send statement).1, (connection.send statement).2) := rfl
  rw [Executed.affected, run_exceptT_bind, hsend]
  generalize connection.send statement = answer
  obtain ⟨⟨rows, failure, affected⟩, after⟩ := answer
  cases failure <;> rfl

/-- One more statement comes before the others. -/
theorem UpdateRun.cons {first : BoundStatement} (hne : statements ≠ [])
    (hfirst : (replies.headD {}).failure = none) (h : UpdateRun replies.tail statements answer sent)
    :
    UpdateRun replies (first :: statements) answer (first.sent :: sent) := by
  have hsucc : ∀ n, replies.tail.getD n {} = replies.getD (n + 1) {} := by
    intro n
    cases replies <;> rfl
  have hall : ∀ {count : Nat}, (∀ n < count, (replies.tail.getD n {}).failure = none) →
      ∀ n < count + 1, (replies.getD n {}).failure = none := by
    intro count hcount n hn
    cases n with
    | zero => cases replies <;> exact hfirst
    | succ n =>
      rw [← hsucc]
      exact hcount n (Nat.lt_of_succ_lt_succ hn)
  cases h with
  | done hok =>
    have hdone : UpdateRun replies (first :: statements) _ _ := .done (hall hok)
    have hlast : (first :: statements).length - 1 = statements.length - 1 + 1 :=
      (Nat.sub_add_cancel (length_pos_of_ne_nil hne)).symm
    rwa [hlast, ← hsucc] at hdone
  | failed hstatements hbefore hfails =>
    rename_i before failing rest cause
    have hfailed : UpdateRun replies (first :: statements) _
        ((first :: before ++ [failing]).map (·.sent)) :=
      .failed (by rw [hstatements]; rfl) (hall hbefore) (by
        rw [length_cons, ← hsucc]
        exact hfails)
    exact hfailed

theorem updates_run (hne : statements ≠ []) (start : Nat) (connection : Connection) :
    ∃ sent,
      UpdateRun connection.replies statements
        ((statements.foldlM (fun _ statement => Executed.affected statement) start).run
          connection).1 sent
      ∧ ((statements.foldlM (fun _ statement => Executed.affected statement) start).run
          connection).2.sent = connection.sent ++ sent := by
  induction statements generalizing start connection with
  | nil => exact absurd rfl hne
  | cons first rest ih =>
    have hzero : connection.replies.getD 0 {} = (connection.send first).1 := by
      cases hreplies : connection.replies <;> simp [Connection.send, hreplies]
    rw [foldlM_cons, run_exceptT_bind, affected_run]
    cases hfailure : (connection.send first).1.failure with
    | some cause =>
      have hfailed : UpdateRun connection.replies (first :: rest) _
          (([] ++ [first] : List BoundStatement).map (·.sent)) :=
        .failed rfl (fun n hn => absurd hn (Nat.not_lt_zero n)) (by
          rw [length_nil, hzero]
          exact hfailure)
      exact ⟨_, hfailed, rfl⟩
    | none =>
      cases rest with
      | nil =>
        have hdone : UpdateRun connection.replies [first] _ _ := .done (by
          intro n hn
          obtain rfl := Nat.lt_one_iff.mp hn
          rw [hzero]
          exact hfailure)
        rw [length_singleton, Nat.sub_self, hzero] at hdone
        exact ⟨_, hdone, rfl⟩
      | cons second rest =>
        obtain ⟨sent, hrun, hsent⟩ := ih (cons_ne_nil _ _)
          (connection.send first).1.affected (connection.send first).2
        refine ⟨first.sent :: sent, hrun.cons (cons_ne_nil _ _) hfailure, ?_⟩
        exact hsent.trans (append_assoc ..)

theorem UpdateRun.isExecution (h : UpdateRun replies statements answer sent) {error : Error}
    (herror : answer = .error error) : error.IsExecution := by
  cases h with
  | done => cases herror
  | failed => exact ⟨_, (Except.error.inj herror).symm⟩

theorem executeUpdate_sends (prepared : PreparedQuery) (parameters : Parameters)
    (connection : Connection) :
    prepared.Sends (·.isManipulation = true) connection.sent
      ((prepared.executeUpdate parameters).run connection).2.sent
      (failures ((prepared.executeUpdate parameters).run connection).1) := by
  unfold executeUpdate
  rw [run_lift_bind]
  cases hplan : ofQuery prepared.plan with
  | error error => exact .nothing rfl
  | ok plan =>
    simp only
    cases hkind : plan.kind.isManipulation with
    | false => exact .nothing rfl
    | true =>
      rw [if_pos rfl, run_lift_bind]
      cases prepared.bound plan parameters .off with
      | error error => exact .nothing rfl
      | ok statements =>
        cases statements with
        | nil => exact .nothing rfl
        | cons first rest =>
          obtain ⟨sent, hrun, hsent⟩ :=
            updates_run (cons_ne_nil first rest) 0 connection
          refine .fitting (plan_eq_ok.mp (ofQuery_eq_ok.mp hplan)) hkind hsent ?_ ?_
          · exact fun hselect => nomatch hkind.symm.trans hselect
          · exact fun error herror => hrun.isExecution (mem_failures herror)

theorem within_start (plan : Plan) (statement : BoundStatement) (connection : Connection) :
    ResultStream.Within statement connection.sent { plan, statement, connection } :=
  ⟨rfl, fun _ => rfl, .inl rfl, fun _ h => nomatch h⟩

/-- A stream of a plan that fetches no collection, whatever it was used for. -/
theorem sends_of_within (hopen : prepared.openSelect operation parameters = .ok (plan, statement))
    {before : List SentStatement} {stream : ResultStream} (hwithin : stream.Within statement before)
    {failures : List Error} (hfailures : ∀ error ∈ failures, error.IsExecution) :
    prepared.Sends (· = .select false) before stream.connection.sent failures := by
  obtain ⟨hcompiled, hkind⟩ := openSelect_eq_ok hopen
  rcases hwithin.sent with hsame | hsent
  · exact .nothing hsame
  · exact .fitting hcompiled hkind hsent (fun _ => Nat.le_refl 1) hfailures

/-- One call sends nothing, or it fits the plan and fails for the database alone. -/
theorem perform_sends (prepared : PreparedQuery) (call : Call) :
    prepared.Sends call.Fits call.sentBefore (prepared.perform call).sent
      (prepared.perform call).failures := by
  cases call with
  | compile substitutions shallow =>
    refine .nothing ?_
    simp only [perform]
    split <;> rfl
  | plan | validateScrollability => exact .nothing rfl
  | list parameters connection => exact prepared.list_sends parameters connection
  | iterate parameters connection uses =>
    simp only [perform, iterate]
    cases hopen : prepared.openSelect .iterate parameters with
    | error error => exact .nothing rfl
    | ok found =>
      obtain ⟨plan, statement⟩ := found
      obtain ⟨hwithin, hfailures⟩ :=
        keeps_along StreamUse.keeps uses (within_start plan statement connection)
      exact sends_of_within hopen hwithin hfailures
  | scroll parameters connection moves =>
    simp only [perform, scroll]
    cases hopen : prepared.openSelect .scroll parameters with
    | error error => exact .nothing rfl
    | ok found =>
      obtain ⟨plan, statement⟩ := found
      have hstart : Cursor.Within statement connection.sent
          { source := { plan, statement, connection } } :=
        within_start plan statement connection
      obtain ⟨hwithin, hfailures⟩ := keeps_along CursorMove.keeps moves hstart
      exact sends_of_within hopen hwithin hfailures
  | executeUpdate parameters connection => exact prepared.executeUpdate_sends parameters connection

theorem executeUpdate_run (hplan : prepared.compiled = some plan)
    (hkind : plan.kind.isManipulation)
    (hbound : prepared.bound plan parameters .off = .ok statements) (connection : Connection) :
    (prepared.executeUpdate parameters).run connection
      = (statements.foldlM (fun _ statement => Executed.affected statement) 0).run connection := by
  have hok : ofQuery prepared.plan = .ok plan := ofQuery_eq_ok.mpr (plan_eq_ok.mpr hplan)
  unfold executeUpdate
  rw [run_lift_bind, hok]
  simp only [hkind, if_true]
  rw [run_lift_bind, hbound]

/-- A plan that was compiled has a statement to send. -/
theorem bound_ne_nil {compiler : Plan.Compiler} {identifier query : String}
    {substitutions : List (String × String)}
    (hcompile : Plan.compile compiler identifier query substitutions = .ok plan) {paging : Paging}
    (hbound : prepared.bound plan parameters paging = .ok statements) : statements ≠ [] := by
  have hplanned : plan.statements ≠ [] := by
    obtain ⟨text, statement, lowered, s, -, -, hrun, rfl⟩ := Plan.compile_eq_ok hcompile
    rw [← length_pos_iff, Plan.length_statements, length_pos_iff]
    cases statement with
    | select select =>
      obtain ⟨run, rfl, -⟩ := Lowered.exists_selectRun hrun
      exact cons_ne_nil _ _
    | update update => exact (Lowered.ofUpdate_run hrun).nonempty
    | delete delete => exact (Lowered.ofDelete_run hrun).nonempty
  have hbind : plan.bind prepared.dialect parameters prepared.filters paging = .ok statements := by
    unfold bound at hbound
    split at hbound
    · rename_i found hfound
      rw [hfound, Except.ok.inj hbound]
    · cases hbound
  obtain ⟨-, resolved, -, rfl⟩ := Plan.bind_eq_ok_statements hbind
  exact mt mapIdx_eq_nil_iff.mp hplanned

/-! ## Any row of calls -/

/-- What is true of a query that was created and then called. -/
structure LifeCycle (fresh : PreparedQuery) (calls : List Call) : Prop where
  /-- The plan is the one of the first call that compiled the query. -/
  state : fresh.after calls = { fresh with compiled := calls.findSome? fresh.compiledBy }
  /-- No other call changes the query. -/
  kept : ∀ call, fresh.compiledBy call = none →
    ((fresh.after calls).perform call).prepared = fresh.after calls
  refused : ∀ call, ∀ error ∈ ((fresh.after calls).perform call).failures, error.IsRefusal →
    ((fresh.after calls).perform call).sent = call.sentBefore
  /-- A call that sends something fits the plan; if that is a select, it sends one
  statement. -/
  fits : ∀ call, ((fresh.after calls).perform call).sent ≠ call.sentBefore →
    ∃ plan sent, (fresh.after calls).compiled = some plan ∧ call.Fits plan.kind
      ∧ ((fresh.after calls).perform call).sent = call.sentBefore ++ sent
      ∧ (plan.kind.isManipulation = false → sent.length ≤ 1)
  /-- Whatever the answers are, an update sends all its statements or fails on the way. -/
  updates : ∀ {plan : Plan} {parameters : Parameters} {statements : List BoundStatement}
    (connection : Connection), (fresh.after calls).compiled = some plan →
    plan.kind.isManipulation = true →
    (fresh.after calls).bound plan parameters .off = .ok statements →
      statements ≠ [] ∧ ∃ sent,
        ((fresh.after calls).perform (.executeUpdate parameters connection)).sent
          = connection.sent ++ sent
        ∧ UpdateRun connection.replies statements
          (((fresh.after calls).executeUpdate parameters).run connection).1 sent

theorem exists_compile_of_compiledBy {call : Call} (h : prepared.compiledBy call = some plan) :
    ∃ substitutions shallow,
      Plan.compile ⟨prepared.model, prepared.dialect, prepared.filters, shallow⟩
        prepared.identifier prepared.query substitutions = .ok plan := by
  cases call with
  | compile substitutions shallow => exact ⟨substitutions, shallow, toOption_eq_some.mp h⟩
  | _ => cases h

end PreparedQuery

namespace Sample

def deletion : PreparedQuery where
  identifier := "q"
  query := "delete from Person p where p.age > :age"
  filters := {}
  model := model
  dialect := .postgres

/-- The second compilation would be of a shallow query. -/
def compiledTwice : List PreparedQuery.Call :=
  [.plan, .compile [] false, .compile [] true]

def fortyYears : Parameters where
  named := [("age", .single (.int 40))]

/-- Two rows are changed, and then the database fails. -/
def lockedTable : Connection where
  replies := [{ affected := 2 }, { failure := some "locked" }]

end Sample

namespace PreparedQuery

variable {plan : Plan}

/-- The life of a query, from its creation over any calls. -/
theorem life_cycle (identifier query : String) (filters : EnabledFilters) (model : Metamodel)
    (dialect : Sql.Dialect) (calls : List Call) :
    LifeCycle { identifier, query, filters, model, dialect } calls := by
  generalize hfresh : ({ identifier, query, filters, model, dialect } : PreparedQuery) = fresh
  have hnone : fresh.compiled = none := by rw [← hfresh]
  have hstate : fresh.after calls
      = { fresh with compiled := calls.findSome? fresh.compiledBy } := by
    rw [after_eq, hnone, Option.none_or]
  constructor
  · exact hstate
  · intro call hcall
    have hsame : (fresh.after calls).compiledBy call = fresh.compiledBy call := by
      rw [hstate]
      cases call <;> rfl
    rw [perform_prepared, hsame, hcall, Option.or_none]
  · intro call error herror hrefused
    cases (fresh.after calls).perform_sends call with
    | nothing hsame => exact hsame
    | fitting _ _ _ _ hfailures =>
      exact absurd hrefused (hfailures error herror).not_isRefusal
  · intro call hchanged
    cases (fresh.after calls).perform_sends call with
    | nothing hsame => exact absurd hsame hchanged
    | fitting hplan hfits hsent honce _ => exact ⟨_, _, hplan, hfits, hsent, honce⟩
  · intro plan parameters statements connection hplan hkind hbound
    have hfound : calls.findSome? fresh.compiledBy = some plan := by
      rw [hstate] at hplan
      exact hplan
    obtain ⟨call, -, hcall⟩ := exists_of_findSome?_eq_some hfound
    obtain ⟨substitutions, shallow, hcompile⟩ := exists_compile_of_compiledBy hcall
    have hne := bound_ne_nil hcompile hbound
    obtain ⟨sent, hrun, hsent⟩ := updates_run hne 0 connection
    rw [← executeUpdate_run hplan hkind hbound] at hrun hsent
    exact ⟨hne, sent, hsent, hrun⟩

/-- A delete of two statements, the second of which fails. -/
theorem life_cycle_deletion : ∃ (plan : Plan) (statements : List BoundStatement),
    Sample.deletion.compiledBy (.compile [] false) = some plan
      ∧ (Sample.deletion.after Sample.compiledTwice).compiled = some plan
      ∧ statements.length = 2
      ∧ ∃ sent, ((Sample.deletion.after Sample.compiledTwice).perform
            (.executeUpdate Sample.fortyYears Sample.lockedTable)).sent
          = Sample.lockedTable.sent ++ sent
        ∧ UpdateRun Sample.lockedTable.replies statements
          (((Sample.deletion.after Sample.compiledTwice).executeUpdate Sample.fortyYears).run
            Sample.lockedTable).1 sent := by
  have hlife : LifeCycle Sample.deletion Sample.compiledTwice :=
    life_cycle "q" "delete from Person p where p.age > :age" {} Sample.model .postgres _
  obtain ⟨⟨plan, statements⟩, hcomputed, hfacts⟩ := exists_ok_of_any
    (x := do
      let plan ← Plan.compile ⟨Sample.model, .postgres, {}, false⟩ "q"
        "delete from Person p where p.age > :age" []
      let statements ← Sample.deletion.bound plan Sample.fortyYears .off
      return (plan, statements))
    (p := fun found => found.1.kind.isManipulation && found.2.length == 2) (by decide +kernel)
  obtain ⟨_, hplan, hrest⟩ := bind_eq_ok.mp hcomputed
  obtain ⟨_, hbound, hrest⟩ := bind_eq_ok.mp hrest
  cases Except.ok.inj hrest
  obtain ⟨hkind, hlength⟩ := Bool.and_eq_true_iff.mp hfacts
  have hcompiles : Sample.deletion.compiledBy (.compile [] false) = some plan :=
    toOption_eq_some.mpr hplan
  have hfirst : Sample.compiledTwice.findSome? Sample.deletion.compiledBy = some plan := by
    rw [Sample.compiledTwice, findSome?_cons, findSome?_cons, hcompiles]
    rfl
  have hstate : Sample.deletion.after Sample.compiledTwice
      = { Sample.deletion with compiled := some plan } := by
    rw [hlife.state, hfirst]
  have hcompiled : (Sample.deletion.after Sample.compiledTwice).compiled = some plan := by
    rw [hstate]
  have hbound' : (Sample.deletion.after Sample.compiledTwice).bound plan Sample.fortyYears .off
      = .ok statements := by
    rw [hstate]
    exact hbound
  obtain ⟨-, sent, hsent, hrun⟩ := hlife.updates Sample.lockedTable hcompiled hkind hbound'
  exact ⟨plan, statements, hcompiles, hcompiled, beq_iff_eq.mp hlength, sent, hsent, hrun⟩

end PreparedQuery

end EntityQuery
