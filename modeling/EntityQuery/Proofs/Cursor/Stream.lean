import EntityQuery.Cursor.Stream
import EntityQuery.Proofs.Scoped

/-!
# What a stream gives

Whatever the database answers, what a stream has to give is a list of results
and perhaps a failure at its end (`script`). Taking from it is taking from
that list: `upTo_script_le` while there are results left, and
`upTo_script_gt` where the end is reached. What is left after a take is again
a script, so that everything a reader of the stream sees can be told from the
script alone.

`pending` is what a stream still has to give, whether its statement was sent
or not.
-/

namespace EntityQuery

theorem run_exceptT_bind {σ α β : Type} (x : ExceptT Error (StateM σ) α)
    (f : α → ExceptT Error (StateM σ) β) (state : σ) :
    (x >>= f).run state = match x.run state with
      | (.ok a, state') => (f a).run state'
      | (.error error, state') => (.error error, state') := by
  change ExceptT.run (ExceptT.bind x f) state = _
  simp only [ExceptT.run, ExceptT.bind, ExceptT.mk, Bind.bind, StateT.bind]
  rcases hstep : x state with ⟨result, state'⟩
  cases result <;> rfl

/-- Results, and then perhaps a failure. -/
def script (results : List QueryResult) (failure : Option Error) : List StreamEvent :=
  results.map .ok ++ failure.toList.map .error

namespace Taken

theorem upTo_script_le : ∀ {results : List QueryResult} {failure : Option Error} {n : Nat},
    n ≤ results.length →
    upTo (some n) (script results failure)
      = ⟨results.take n, n, script (results.drop n) failure, false, none⟩
  | results, failure, 0, _ => by
    simp only [List.take_zero, List.drop_zero]
    generalize script results failure = events
    cases events with
    | nil => rfl
    | cons event rest => cases event <;> rfl
  | result :: rest, failure, n + 1, h => by
    have hrest : n ≤ rest.length := by
      simp only [List.length_cons] at h
      omega
    have hcons : script (result :: rest) failure = .ok result :: script rest failure := rfl
    rw [hcons, upTo, if_neg (by simp)]
    simp [upTo_script_le hrest]

theorem upTo_script_gt : ∀ {results : List QueryResult} {failure : Option Error}
    {limit : Option Nat}, (∀ n, limit = some n → results.length < n) →
    upTo limit (script results failure)
      = ⟨results, results.length + failure.toList.length, [], failure.isNone, failure⟩
  | [], failure, limit, h => by
    have hlimit : limit ≠ some 0 := fun h0 => absurd (h 0 h0) (Nat.not_lt_zero _)
    cases failure with
    | none | some error => simp [script, upTo, hlimit]
  | result :: rest, failure, limit, h => by
    have hlimit : limit ≠ some 0 := fun h0 => absurd (h 0 h0) (Nat.not_lt_zero _)
    have hrest : ∀ n, limit.map (· - 1) = some n → rest.length < n := by
      intro n hn
      obtain ⟨m, hm, rfl⟩ := Option.map_eq_some_iff.mp hn
      have := h m hm
      simp only [List.length_cons] at this
      omega
    have hcons : script (result :: rest) failure = .ok result :: script rest failure := rfl
    rw [hcons, upTo, if_neg hlimit]
    simp only [upTo_script_gt hrest, List.length_cons, Taken.mk.injEq, true_and, and_true]
    omega

end Taken

namespace ResultStream

variable (stream : ResultStream) (limit : Option Nat)

/-- What a stream still has to give; one that waits sends its statement for
it. -/
def pending (stream : ResultStream) : List StreamEvent :=
  stream.opened.coming

theorem take_fst : (stream.take limit).1 = Taken.upTo limit stream.pending := rfl

theorem take_snd : (stream.take limit).2 = stream.opened.advance
    (Taken.upTo limit stream.pending).count (Taken.upTo limit stream.pending).rest := rfl

theorem opened_advance (count : Nat) (rest : List StreamEvent) :
    (stream.opened.advance count rest).opened = stream.opened.advance count rest := by
  obtain ⟨plan, statement, connection, phase⟩ := stream
  cases phase <;> rfl

theorem pending_take : (stream.take limit).2.pending = (Taken.upTo limit stream.pending).rest := by
  rw [pending, take_snd, opened_advance]
  obtain ⟨plan, statement, connection, phase⟩ := stream
  cases phase with
  | closed => cases limit <;> rfl
  | waiting | reading coming => rfl

theorem connection_take : (stream.take limit).2.connection
    = stream.opened.connection.pull (Taken.upTo limit stream.pending).count := by
  rw [take_snd]
  obtain ⟨plan, statement, connection, phase⟩ := stream
  cases phase with
  | closed => cases limit <;> rfl
  | waiting | reading coming => rfl

theorem take_eq_self {stream : ResultStream} {limit : Option Nat} (hopened : stream.opened = stream)
    (hcount : (Taken.upTo limit stream.pending).count = 0)
    (hrest : (Taken.upTo limit stream.pending).rest = stream.pending) :
    (stream.take limit).2 = stream := by
  rw [take_snd, hcount, hrest, pending, hopened]
  obtain ⟨plan, statement, connection, phase⟩ := stream
  cases phase with
  | closed => rfl
  | waiting => cases congrArg ResultStream.phase hopened
  | reading coming => rfl

theorem opened_take : (stream.take limit).2.opened = (stream.take limit).2 := by
  rw [take_snd, opened_advance]

end ResultStream

namespace Plan

/-- The rows of an answer bring the results of the rows that can be read, up to
the first that cannot; a failure of the answer comes after all of them. -/
theorem events_eq_script (plan : Plan) (sql : String) (cause : Option String) :
    ∀ rows : List Row, ∃ results failure,
      plan.events sql cause rows = script results failure
        ∧ ((rows.mapM plan.readRow = .ok results ∧ failure = cause.map fun text =>
            .execution (.statement sql text))
          ∨ ∃ before row after fault, rows = before ++ row :: after
            ∧ before.mapM plan.readRow = .ok results ∧ plan.readRow row = .error fault
            ∧ failure = some (.execution fault))
  | [] => by
    refine ⟨[], cause.map fun text => .execution (.statement sql text), ?_, .inl ⟨rfl, rfl⟩⟩
    cases cause <;> rfl
  | row :: rest => by
    obtain ⟨results, failure, hevents, hrest⟩ := events_eq_script plan sql cause rest
    cases hrow : plan.readRow row with
    | error fault =>
      refine ⟨[], some (.execution fault), ?_, .inr ⟨[], row, rest, fault, rfl, rfl, hrow, rfl⟩⟩
      simp [events, hrow, script]
    | ok result =>
      have hcons : ∀ {rows : List Row} {found : List QueryResult},
          rows.mapM plan.readRow = .ok found →
          (row :: rows).mapM plan.readRow = .ok (result :: found) := by
        intro rows found h
        exact mapM_eq_ok_iff.mpr (.cons hrow (mapM_eq_ok_iff.mp h))
      refine ⟨result :: results, failure, ?_, ?_⟩
      · simp [events, hrow, hevents, script]
      · rcases hrest with ⟨hall, hfailure⟩ | ⟨before, bad, after, fault, rfl, hbefore, hrest⟩
        · exact .inl ⟨hcons hall, hfailure⟩
        · exact .inr ⟨row :: before, bad, after, fault, rfl, hcons hbefore, hrest⟩

theorem events_eq_of_read {plan : Plan} {sql : String} : ∀ {rows : List Row}
    {results : List QueryResult}, rows.mapM plan.readRow = .ok results →
    plan.events sql none rows = script results none := by
  intro rows results h
  induction mapM_eq_ok_iff.mp h with
  | nil => rfl
  | cons hrow hrest ih => simp [events, hrow, ih (mapM_eq_ok_iff.mpr hrest), script]

end Plan

/-- Nothing has been asked of the stream yet, and all rows of its answer can be
read. -/
structure ResultStream.Hydrates (stream : ResultStream) (results : List QueryResult) : Prop where
  waiting : stream.phase = .waiting
  succeeds : (stream.connection.send stream.statement).1.failure = none
  reads : (stream.connection.send stream.statement).1.rows.mapM stream.plan.readRow = .ok results

theorem ResultStream.Hydrates.pending_eq {stream : ResultStream} {results : List QueryResult}
    (h : stream.Hydrates results) : stream.pending = script results none := by
  obtain ⟨hwaiting, hsucceeds, hreads⟩ := h
  obtain ⟨plan, statement, connection, phase⟩ := stream
  obtain rfl : phase = .waiting := hwaiting
  have hevents : ResultStream.pending ⟨plan, statement, connection, .waiting⟩
      = plan.events statement.sql (connection.send statement).1.failure
        (connection.send statement).1.rows := rfl
  have hfailure : (connection.send statement).1.failure = none := hsucceeds
  rw [hevents, hfailure, Plan.events_eq_of_read hreads]

end EntityQuery
