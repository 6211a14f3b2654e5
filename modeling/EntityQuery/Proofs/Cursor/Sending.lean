import EntityQuery.Proofs.Cursor.Moves

/-!
# What streams and cursors send

A stream sends its statement when it is first asked for a result, and never
again, and it fails only for what the database answers (`ResultStream.Within`).
All uses of a stream keep to this, and so do all moves of a cursor on top of it,
also those that fail (`StreamUse.keeps`, `CursorMove.keeps`).

`Keeps` is the judgement for one step, whatever it is a step of; `keeps_along`
is the induction over a row of steps.
-/

namespace EntityQuery

open List

/-- The failure is one of the database, or of reading its rows. -/
def Error.IsExecution (error : Error) : Prop :=
  ∃ fault, error = .execution fault

/-- The outcome is a state that fulfils the invariant, and at most a failure of the
database. -/
structure Keeps {σ α : Type} (inv : σ → Prop) (outcome : Except Error α × σ) : Prop where
  state : inv outcome.2
  failure : ∀ error, outcome.1 = .error error → error.IsExecution

def failures {α : Type} : Except Error α → List Error
  | .ok _ => []
  | .error error => [error]

theorem mem_failures {α : Type} {answer : Except Error α} {error : Error}
    (h : error ∈ failures answer) : answer = .error error := by
  cases answer with
  | ok a => cases h
  | error found => rw [mem_singleton.mp h]

def along {ι σ α : Type} (apply : ι → σ → Except Error α × σ) : List ι → σ → List Error × σ
  | [], state => ([], state)
  | step :: rest, state =>
    let later := along apply rest (apply step state).2
    (failures (apply step state).1 ++ later.1, later.2)

theorem keeps_along {ι σ α : Type} {apply : ι → σ → Except Error α × σ} {inv : σ → Prop}
    (hstep : ∀ step state, inv state → Keeps inv (apply step state)) :
    ∀ (steps : List ι) {state : σ}, inv state →
      inv (along apply steps state).2
        ∧ ∀ error ∈ (along apply steps state).1, error.IsExecution
  | [], _, h => ⟨h, forall_mem_nil _⟩
  | step :: rest, state, h => by
    have hfirst := hstep step state h
    obtain ⟨hlast, hrest⟩ := keeps_along hstep rest hfirst.state
    refine ⟨hlast, forall_mem_append.mpr ⟨fun error herror => ?_, hrest⟩⟩
    exact hfirst.failure error (mem_failures herror)

/-! ## Streams -/

namespace ResultStream

/-- The stream has sent this statement at most, and nothing before it is asked for a
result; what is to come are results and failures of the database. -/
structure Within (statement : BoundStatement) (before : List SentStatement)
    (stream : ResultStream) : Prop where
  statement_eq : stream.statement = statement
  waiting : stream.phase = .waiting → stream.connection.sent = before
  sent : stream.connection.sent = before ∨ stream.connection.sent = before ++ [statement.sent]
  coming : ∀ error, .error error ∈ stream.coming → error.IsExecution

end ResultStream

theorem Plan.events_isExecution (plan : Plan) (sql : String) (failure : Option String) :
    ∀ (rows : List Row) (error : Error), .error error ∈ plan.events sql failure rows →
      error.IsExecution
  | [], error, h => by
    obtain ⟨cause, -, heq⟩ := mem_map.mp h
    exact ⟨_, (Except.error.inj heq).symm⟩
  | row :: rest, error, h => by
    rw [events] at h
    cases hrow : plan.readRow row with
    | ok result =>
      rw [hrow] at h
      rcases mem_cons.mp h with heq | hmem
      · cases heq
      · exact events_isExecution plan sql failure rest error hmem
    | error fault =>
      rw [hrow] at h
      exact ⟨fault, Except.error.inj (mem_singleton.mp h)⟩

/-- A failure that ends the taking was among the events, and so is all that is left. -/
theorem Taken.upTo_mem (events : List StreamEvent) (limit : Option Nat) :
    (∀ error, (upTo limit events).failure = some error → .error error ∈ events)
      ∧ (upTo limit events).rest ⊆ events := by
  induction events generalizing limit with
  | nil =>
    refine ⟨fun error h => ?_, List.Subset.refl _⟩
    cases h
  | cons event rest ih =>
    cases event with
    | error error =>
      rw [upTo]
      split
      · refine ⟨fun error h => ?_, List.Subset.refl _⟩
        cases h
      · refine ⟨fun found h => ?_, subset_cons_self ..⟩
        rw [Option.some.inj h]
        exact .head _
    | ok result =>
      rw [upTo]
      split
      · refine ⟨fun error h => ?_, List.Subset.refl _⟩
        cases h
      · obtain ⟨hfailure, hrest⟩ := ih (limit.map (· - 1))
        exact ⟨fun error h => .tail _ (hfailure error h), fun event h => .tail _ (hrest h)⟩

namespace ResultStream

variable {statement : BoundStatement} {before : List SentStatement} {stream : ResultStream}

/-- A stream that is open has sent its statement; so has one that was waiting and is opened. -/
theorem Within.opened (h : stream.Within statement before) :
    stream.opened.Within statement before := by
  cases hphase : stream.phase with
  | waiting =>
    obtain rfl := h.statement_eq
    have hsent := h.waiting hphase
    simp only [ResultStream.opened, hphase]
    constructor
    · rfl
    · exact fun hwaiting => nomatch hwaiting
    · exact .inr (congrArg (· ++ [stream.statement.sent]) hsent)
    · exact stream.plan.events_isExecution _ _ _
  | reading coming | closed => simpa only [ResultStream.opened, hphase] using h

theorem Within.advance (h : stream.Within statement before) (count : Nat) {rest : List StreamEvent}
    (hrest : rest ⊆ stream.coming) : (stream.advance count rest).Within statement before := by
  unfold ResultStream.advance
  split
  · exact ⟨h.statement_eq, fun hwaiting => (nomatch hwaiting), h.sent,
      fun error herror => h.coming error (hrest herror)⟩
  · exact h

theorem Within.take (h : stream.Within statement before) (limit : Option Nat) :
    (stream.take limit).2.Within statement before
      ∧ ∀ error, (stream.take limit).1.failure = some error → error.IsExecution := by
  obtain ⟨hfailure, hrest⟩ := Taken.upTo_mem stream.opened.coming limit
  refine ⟨h.opened.advance _ hrest, fun error herror => ?_⟩
  exact h.opened.coming error (hfailure error herror)

theorem Within.keeps_take {α : Type} (h : stream.Within statement before) (limit : Option Nat)
    {answer : Except Error α}
    (hanswer : ∀ error, answer = .error error → (stream.take limit).1.failure = some error) :
    Keeps (Within statement before) (answer, (stream.take limit).2) := by
  obtain ⟨hafter, hfailure⟩ := h.take limit
  exact ⟨hafter, fun error herror => hfailure error (hanswer error herror)⟩

theorem Within.close (h : stream.Within statement before) : stream.close.Within statement before :=
  ⟨h.statement_eq, fun hwaiting => (nomatch hwaiting), h.sent, fun _ herror => nomatch herror⟩

end ResultStream

inductive StreamUse where
  | next
  | collect
  | close
  deriving Repr, DecidableEq

namespace StreamUse

def apply : StreamUse → ResultStream → Except Error (List QueryResult) × ResultStream
  | .next, stream => (stream.next.1.map Option.toList, stream.next.2)
  | .collect, stream => stream.collect
  | .close, stream => (.ok [], stream.close)

theorem keeps {statement : BoundStatement} {before : List SentStatement} (use : StreamUse)
    (stream : ResultStream) (h : stream.Within statement before) :
    Keeps (ResultStream.Within statement before) (use.apply stream) := by
  cases use with
  | next | collect =>
    simp only [apply, ResultStream.next, ResultStream.collect]
    cases hfailed : (stream.take _).1.failure with
    | none => exact h.keeps_take _ fun _ herror => nomatch herror
    | some error =>
      refine h.keeps_take _ fun found herror => ?_
      rw [hfailed, Except.error.inj herror]
  | close => exact ⟨h.close, fun _ herror => nomatch herror⟩

end StreamUse

/-! ## Cursors -/

namespace Cursor

variable {statement : BoundStatement} {before : List SentStatement} {α β : Type}

def Within (statement : BoundStatement) (before : List SentStatement) (cursor : Cursor) : Prop :=
  cursor.source.Within statement before

/-- From every cursor within its statement the move leads to such a cursor. -/
def Stays (statement : BoundStatement) (before : List SentStatement) (move : Move α) : Prop :=
  ∀ ⦃cursor : Cursor⦄, cursor.Within statement before →
    Keeps (Within statement before) (move.run cursor)

namespace Stays

theorem pure (a : α) : Stays statement before (Pure.pure a : Move α) :=
  fun _ h => ⟨h, fun _ herror => nomatch herror⟩

theorem fail {error : Error} (h : error.IsExecution) :
    Stays statement before (throw error : Move α) := by
  refine fun _ hcursor => ⟨hcursor, fun found hfound => ?_⟩
  rwa [← Except.error.inj hfound]

theorem read {f : Cursor → Move α}
    (hf : ∀ cursor : Cursor, cursor.Within statement before → Stays statement before (f cursor)) :
    Stays statement before (get >>= f) := by
  intro cursor h
  rw [run_exceptT_bind]
  exact hf cursor h h

theorem write {cursor : Cursor} (h : cursor.Within statement before) :
    Stays statement before (set cursor : Move Unit) :=
  fun _ _ => ⟨h, fun _ herror => nomatch herror⟩

theorem bind {x : Move β} {f : β → Move α} (hx : Stays statement before x)
    (hf : ∀ b, Stays statement before (f b)) : Stays statement before (x >>= f) := by
  intro cursor h
  have hfirst := hx h
  rw [run_exceptT_bind]
  generalize x.run cursor = first at hfirst
  obtain ⟨answer, after⟩ := first
  cases answer with
  | ok b => exact hf b hfirst.state
  | error error =>
    refine ⟨hfirst.state, fun found hfound => hfirst.failure found ?_⟩
    rw [Except.error.inj hfound]

theorem map {x : Move β} (f : β → α) (hx : Stays statement before x) :
    Stays statement before (f <$> x) := by
  rw [← bind_pure_comp]
  exact hx.bind fun b => pure (f b)

theorem change {f : Cursor → Cursor}
    (h : ∀ cursor : Cursor, cursor.Within statement before → (f cursor).Within statement before) :
    Stays statement before (modify f : Move Unit) :=
  fun cursor hcursor => ⟨h cursor hcursor, fun _ herror => nomatch herror⟩

theorem place (position : Position) : Stays statement before (Cursor.place position) :=
  change fun _ h => h

theorem fill (limit : Option Nat) : Stays statement before (Cursor.fill limit) := by
  refine read fun cursor h => ?_
  split
  · exact pure ()
  · obtain ⟨hafter, hfailure⟩ := h.take limit
    refine bind (write hafter) fun _ => ?_
    cases hfailed : (Taken.upTo limit cursor.source.opened.coming).failure with
    | none => exact pure ()
    | some error => exact fail (hfailure error hfailed)

theorem fillTo (row : Nat) : Stays statement before (Cursor.fillTo row) :=
  read fun _ _ => bind (fill _) fun _ => read fun _ _ => pure _

theorem moveTo (index : Int) : Stays statement before (Cursor.moveTo index) := by
  unfold Cursor.moveTo
  split
  · exact bind (place _) fun _ => pure _
  · refine bind (fillTo _) fun found => ?_
    split <;> exact bind (place _) fun _ => pure _

theorem moveToInt64 (index : Int) : Stays statement before (Cursor.moveToInt64 index) := by
  unfold Cursor.moveToInt64
  split
  · exact moveTo _
  · exact bind (change fun _ h => h) fun _ => pure _

theorem fillIf (test : Prop) [Decidable test] {x : Unit → Move α}
    (hx : Stays statement before (x ())) :
    Stays statement before (if test then Cursor.fill none >>= x else x ()) := by
  split
  · exact bind (fill none) fun _ => hx
  · exact hx

end Stays

end Cursor

theorem CursorMove.keeps {statement : BoundStatement} {before : List SentStatement}
    (move : CursorMove) (cursor : Cursor) (h : cursor.Within statement before) :
    Keeps (Cursor.Within statement before) (move.apply cursor) := by
  have hstays : Cursor.Stays statement before move.action := by
    cases move with
    | next =>
      refine .map _ (.read fun cursor _ => ?_)
      split
      · exact .pure _
      · exact .moveTo _
    | previous => exact .map _ (.read fun cursor _ => .fillIf _ (.read fun _ _ => .moveTo _))
    | scroll offset =>
      exact .map _ (.read fun cursor _ => .fillIf _ (.read fun _ _ => .moveToInt64 _))
    | first => exact .map _ (.moveTo 0)
    | last =>
      refine .map _ (.bind (.fill none) fun _ => .read fun cursor _ => ?_)
      cases cursor.rows.length with
      | zero | succ count => exact .bind (.place _) fun _ => .pure _
    | beforeFirst => exact .map _ (.place _)
    | afterLast => exact .map _ (.bind (.fill none) fun _ => .place _)
    | setRowNumber row =>
      refine .map _ ?_
      unfold Cursor.setRowNumber
      split
      · exact .moveTo _
      · exact .bind (.fill none) fun _ => .read fun _ _ => .moveTo _
    | isLast =>
      refine .map _ (.read fun cursor _ => ?_)
      cases cursor.position with
      | «at» row => exact .bind (.fillTo _) fun _ => .pure _
      | _ => exact .pure _
    | close => exact .map _ (.change fun _ hcursor => hcursor.close)
  exact hstays h

end EntityQuery
