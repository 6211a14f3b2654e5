import EntityQuery.Proofs.Cursor.Refinement

/-!
# Moves that fail

A source gives results and then perhaps a failure. A move that comes upon the
failure does so while it fills the buffer, before it changes the position: it is
as if it had not been made, but for the rows it has taken (`Cursor.Undone`).
The failure is gone then, and all results are in the buffer, so that from there
on the cursor is one over the list of them.

`Cursor.Fares` is the judgement for a part of a move: it ends well and keeps what
is known of the cursor (`Cursor.Awaits`), or it is undone. Parts that fill the
buffer may come in front of others (`Fares.fill`); a change of the position
comes last (`Fares.settle`).
-/

namespace EntityQuery

open List Sample

namespace Cursor

open Move

variable {results : List QueryResult} {failure : Option Error} {cursor after : Cursor}
  {α β : Type}

/-- As long as its end is not known, the source has the rest of the results to
give, and then the failure. -/
structure Awaits (results : List QueryResult) (failure : Option Error) (cursor : Cursor) :
    Prop where
  pending : cursor.exhausted = false → ∃ rest, results = cursor.rows ++ rest
    ∧ cursor.source.pending = script rest failure
  at_lt : ∀ row, cursor.position = .at row → row < cursor.rows.length
  exhausted : cursor.position = .afterLast → cursor.exhausted = true
  kept : cursor.rows <+: results

/-- The cursor has moved nowhere, and is now one over the list of the results. -/
structure Undone (results : List QueryResult) (cursor after : Cursor) : Prop where
  kept : cursor.rows <+: after.rows
  rows_eq : after.rows = results
  tracks : after.Tracks ⟨results, cursor.position⟩

/-- From this cursor the move ends well, or comes upon the failure and is undone. -/
def Fares (results : List QueryResult) (failure : Option Error) (cursor : Cursor) (move : Move α) :
    Prop :=
  (∃ a after, Runs move cursor a after ∧ after.Awaits results failure)
    ∨ ∃ error after, Fails move cursor error after ∧ failure = some error
      ∧ Undone results cursor after

namespace Fares

variable {f : Unit → Move α} {position : Position} {x : Move β}

theorem pure (h : cursor.Awaits results failure) (a : α) :
    Fares results failure cursor (Pure.pure a) :=
  .inl ⟨a, cursor, runs_pure .., h⟩

theorem map (f : β → α) (h : Fares results failure cursor x) :
    Fares results failure cursor (f <$> x) := by
  rcases h with ⟨a, after, hruns, hafter⟩ | ⟨error, after, hfails, hafter⟩
  · exact .inl ⟨f a, after, hruns.map, hafter⟩
  · rw [← bind_pure_comp]
    exact .inr ⟨error, after, hfails.bind _, hafter⟩

/-- What is undone after a part that only adds rows is undone before it. -/
theorem of_runs {b : β} {f : β → Move α} (hx : Runs x cursor b after)
    (hposition : after.position = cursor.position) (hrows : cursor.rows <+: after.rows)
    (hf : Fares results failure after (f b)) : Fares results failure cursor (x >>= f) := by
  rcases hf with ⟨a, last, hruns, hlast⟩ | ⟨error, last, hfails, hfailure, hlast⟩
  · exact .inl ⟨a, last, hx.bind hruns, hlast⟩
  · refine .inr ⟨error, last, hx.bind_fails hfails, hfailure, hrows.trans hlast.kept,
      hlast.rows_eq, ?_⟩
    exact hposition ▸ hlast.tracks

theorem read {f : Cursor → Move α} (hf : Fares results failure cursor (f cursor)) :
    Fares results failure cursor (get >>= f) :=
  of_runs (runs_get cursor) rfl prefix_rfl hf

/-- A change of the position ends a move: to a row that is there, or past an end that
is known. -/
theorem place (h : cursor.Awaits results failure)
    (hrow : ∀ row, position = .at row → row < cursor.rows.length)
    (hlast : position = .afterLast → cursor.exhausted = true) :
    Fares results failure cursor (Cursor.place position) :=
  .inl ⟨(), _, runs_modify .., h.pending, hrow, hlast, h.kept⟩

theorem settle (a : α) (h : Fares results failure cursor (Cursor.place position)) :
    Fares results failure cursor (Cursor.place position >>= fun _ => Pure.pure a) := by
  rw [bind_pure_comp]
  exact h.map _

/-- What follows a fill finds the rows that were asked for, or the end. -/
theorem fill (h : cursor.Awaits results failure) (limit : Option Nat)
    (hf : ∀ after : Cursor, after.Awaits results failure →
      (after.exhausted = false → ∃ n, limit = some n
        ∧ cursor.rows.length + n ≤ after.rows.length) →
      Fares results failure after (f ())) :
    Fares results failure cursor (Cursor.fill limit >>= f) := by
  cases hidle : cursor.exhausted || limit == some 0 with
  | true =>
    refine of_runs (fill_eq_self hidle) rfl prefix_rfl (hf cursor h fun hgoing => ?_)
    rw [hgoing, Bool.false_or, beq_iff_eq] at hidle
    exact ⟨0, hidle, Nat.le_refl _⟩
  | false =>
    obtain ⟨hgoing, -⟩ := Bool.or_eq_false_iff.mp hidle
    obtain ⟨rest, hresults, hpending⟩ := h.pending hgoing
    have hrow {rows : List QueryResult} (hrows : (cursor.taking limit).rows = cursor.rows ++ rows) :
        ∀ row, cursor.position = .at row → row < (cursor.taking limit).rows.length := by
      intro row hat
      have hlt := h.at_lt row hat
      rw [hrows, length_append]
      omega
    have hlast : cursor.position ≠ .afterLast := fun hat => by
      rw [h.exhausted hat] at hgoing
      cases hgoing
    by_cases hpast : ∀ n, limit = some n → rest.length < n
    · obtain ⟨hfailure, hrows, hended, hleft⟩ := taking_of_gt hpending hpast
      have hkept : cursor.rows <+: (cursor.taking limit).rows := ⟨rest, hrows.symm⟩
      cases failure with
      | none =>
        refine of_runs (fill_eq_take hidle hfailure) rfl hkept (hf _ ⟨fun hfalse => ?_,
          hrow hrows, fun _ => hended, hresults ▸ ⟨[], by rw [hrows, append_nil]⟩⟩ fun hfalse => ?_)
        all_goals
          rw [hended] at hfalse
          cases hfalse
      | some error =>
        refine .inr ⟨error, _, (fill_fails hidle hfailure).bind _, rfl, hkept,
          hrows.trans hresults.symm, ⟨⟨[], ?_, hleft, fun _ => rfl⟩, fun _ => ?_⟩, rfl,
          hrow hrows, fun hat => absurd hat hlast⟩
        · rw [hrows, append_nil, hresults]
        · exact cursor.source.opened_take limit
    · obtain ⟨n, rfl, hle⟩ : ∃ n, limit = some n ∧ n ≤ rest.length := by
        simpa using hpast
      obtain ⟨hfailure, hrows, -, hleft⟩ := taking_of_le hpending hle
      refine of_runs (fill_eq_take hidle hfailure) rfl ⟨_, hrows.symm⟩ (hf _
        ⟨fun _ => ⟨rest.drop n, ?_, hleft⟩, hrow hrows, fun hat => absurd hat hlast,
        hresults ▸ hrows ▸ (prefix_append_right_inj _).mpr ( take_prefix ..)⟩ fun _ => ⟨n, rfl, ?_⟩)
      · rw [hrows, append_assoc, take_append_drop, hresults]
      · rw [hrows, length_append, length_take]
        omega

theorem fillAll (h : cursor.Awaits results failure)
    (hf : ∀ after : Cursor, after.Awaits results failure → after.exhausted = true →
      Fares results failure after (f ())) :
    Fares results failure cursor (Cursor.fill none >>= f) := by
  refine fill h none fun after hafter hreach => hf after hafter ?_
  by_contra hgoing
  obtain ⟨n, hn, -⟩ := hreach (Bool.eq_false_iff.mpr hgoing)
  cases hn

theorem fillTo (h : cursor.Awaits results failure) (row : Nat) {f : Bool → Move α}
    (hf : ∀ found (after : Cursor), after.Awaits results failure →
      (found = true → row < after.rows.length) → (found = false → after.exhausted = true) →
      Fares results failure after (f found)) :
    Fares results failure cursor (Cursor.fillTo row >>= f) := by
  rw [Cursor.fillTo, bind_assoc]
  refine read ?_
  rw [bind_assoc]
  refine fill h _ fun after hafter hreach => ?_
  rw [bind_assoc]
  refine read ?_
  rw [pure_bind]
  refine hf _ after hafter of_decide_eq_true fun hmissing => ?_
  by_contra hgoing
  obtain ⟨n, hn, hle⟩ := hreach (Bool.eq_false_iff.mpr hgoing)
  have hshort := of_decide_eq_false hmissing
  obtain rfl := Option.some.inj hn
  omega

theorem moveTo (h : cursor.Awaits results failure) (index : Int) :
    Fares results failure cursor (Cursor.moveTo index) := by
  unfold Cursor.moveTo
  split
  · exact settle _ (place h (fun _ hrow => nomatch hrow) fun hlast => nomatch hlast)
  · refine fillTo h _ fun found after hafter hfound hmissing => ?_
    cases found with
    | true =>
      refine settle _ (place hafter (fun row hrow => ?_) fun hlast => nomatch hlast)
      exact Position.at.inj hrow ▸ hfound rfl
    | false => exact settle _ (place hafter (fun _ hrow => nomatch hrow) fun _ => hmissing rfl)

theorem fillIf (h : cursor.Awaits results failure) (test : Prop) [Decidable test]
    {x : Unit → Move α}
    (hx : ∀ after : Cursor, after.Awaits results failure → Fares results failure after (x ())) :
    Fares results failure cursor (if test then Cursor.fill none >>= x else x ()) := by
  split
  · exact fillAll h fun after hafter _ => hx after hafter
  · exact hx cursor h

end Fares

end Cursor

/-! ## Whole runs -/

open Cursor Move

variable {results : List QueryResult} {failure : Option Error}

theorem CursorMove.fares {cursor : Cursor} (h : cursor.Awaits results failure)
    (move : CursorMove) : Fares results failure cursor move.action := by
  cases move with
  | next =>
    refine .map _ (.read ?_)
    split
    · exact .pure h _
    · exact .moveTo h _
  | previous => exact .map _ (.read (.fillIf h _ fun _ hafter => .read (.moveTo hafter _)))
  | scroll offset =>
    refine .map _ (.read (.fillIf h _ fun after hafter => .read ?_))
    unfold Cursor.moveToInt64
    split
    · exact .moveTo hafter _
    · exact .inl ⟨false, _, (runs_modify ..).bind (runs_pure ..), hafter.pending, hafter.at_lt,
        hafter.exhausted, hafter.kept⟩
  | first => exact .map _ (.moveTo h 0)
  | last =>
    refine .map _ (.fillAll h fun after hafter hend => .read ?_)
    cases hcount : after.rows.length with
    | zero => exact .settle _ (.place hafter (fun _ hrow => nomatch hrow) fun _ => hend)
    | succ count =>
      refine .settle _ (.place hafter (fun row hrow => ?_) fun _ => hend)
      obtain rfl := Position.at.inj hrow
      omega
  | beforeFirst =>
    exact .map _ (.place h (fun _ hrow => nomatch hrow) fun hlast => nomatch hlast)
  | afterLast =>
    exact .map _ (.fillAll h fun _ hafter hend =>
      .place hafter (fun _ hrow => nomatch hrow) fun _ => hend)
  | setRowNumber row =>
    refine .map _ ?_
    unfold Cursor.setRowNumber
    split
    · exact .moveTo h _
    · exact .fillAll h fun _ hafter _ => .read (.moveTo hafter _)
  | isLast =>
    refine .map _ (.read ?_)
    cases cursor.position with
    | «at» row => exact .fillTo h _ fun _ _ hafter _ _ => .pure hafter _
    | _ => exact .pure h _
  | close =>
    exact .map _ (.inl ⟨(), _, runs_modify .., fun hgoing => (nomatch hgoing),
      fun _ hrow => (nomatch hrow), fun _ => rfl, nil_prefix⟩)

/-- A cursor over the list of the results has no failure to come. -/
theorem Cursor.Tracks.awaits {cursor : Cursor} {list : ListCursor} (h : cursor.Tracks list) :
    cursor.Awaits list.results none := by
  obtain ⟨rest, hresults, hpending, -⟩ := h.holds.pending
  refine ⟨fun _ => ⟨rest, hresults, hpending⟩, fun row hrow => ?_, fun hlast => ?_,
    h.holds.isPrefix⟩
  · exact h.at_lt row (h.position_eq ▸ hrow)
  · exact h.exhausted (h.position_eq ▸ hlast)

theorem Cursor.Awaits.start {source : ResultStream}
    (h : source.pending = script results failure) : Awaits results failure { source } :=
  ⟨fun _ => ⟨results, rfl, h⟩, fun _ hrow => (nomatch hrow), fun hlast => (nomatch hlast),
    nil_prefix⟩

/-- After any moves the failure is still to come, or it came and none is left. -/
theorem Cursor.Awaits.after : ∀ (moves : List CursorMove) {failure : Option Error}
    {cursor : Cursor}, cursor.Awaits results failure →
    ∃ due, (due = failure ∨ due = none) ∧ (cursor.after moves).Awaits results due
  | [], failure, _, h => ⟨failure, .inl rfl, h⟩
  | move :: rest, failure, cursor, h => by
    rcases move.fares h with ⟨answer, after, hruns, hafter⟩ | ⟨error, after, hfails, -, hundone⟩
    · obtain rfl : (move.apply cursor).2 = after := congrArg Prod.snd hruns
      exact Awaits.after rest hafter
    · obtain rfl : (move.apply cursor).2 = after := congrArg Prod.snd hfails
      obtain ⟨due, hdue, hrest⟩ := Awaits.after rest hundone.tracks.awaits
      exact ⟨due, .inr (hdue.elim id id), hrest⟩

/-- A move that fails moves nowhere and shows what was shown before. It has only taken rows: all
that come before the failure. No later move fails, and as long as the numbers fit in 64 bits
each does what it does over the list of these rows. -/
theorem failed_move_unseen {source : ResultStream} {moves : List CursorMove} {move : CursorMove}
    {error : Error} {before after : Cursor} (hsource : source.pending = script results failure)
    (hbefore : Cursor.after { source } moves = before)
    (hfails : move.apply before = (.error error, after)) :
    failure = some error
      ∧ after.position = before.position ∧ after.current? = before.current?
      ∧ after.rowNumber? = before.rowNumber? ∧ after.isFirst = before.isFirst
      ∧ before.rows <+: after.rows ∧ after.rows = results
      ∧ ∀ (later : List CursorMove) (made : CursorMove),
        (∃ answer, (made.apply (after.after later)).1 = .ok answer)
          ∧ (ListCursor.FitsAll ⟨results, before.position⟩ (later ++ [made]) →
            made.Refines (after.after later)
              (ListCursor.after ⟨results, before.position⟩ later)) := by
  obtain ⟨due, hdue, hawaits⟩ := (Awaits.start hsource).after moves
  rw [hbefore] at hawaits
  rcases move.fares hawaits with ⟨answer, found, hruns, -⟩ | ⟨found, last, hfound, rfl, hundone⟩
  · exact absurd hfails hruns.not_fails
  obtain ⟨rfl, rfl⟩ := Fails.unique hfound hfails
  have hposition : last.position = before.position := hundone.tracks.position_eq
  refine ⟨(hdue.resolve_right (Option.some_ne_none _)).symm, hposition, ?_, ?_, ?_, hundone.kept,
    hundone.rows_eq, fun later made => ?_⟩
  · rw [current?, current?, hposition]
    cases hat : before.position with
    | «at» row =>
      obtain ⟨added, hrows⟩ := hundone.kept
      simp only [← hrows, getElem?_append_left (hawaits.at_lt row hat)]
    | _ => rfl
  · rw [rowNumber?, rowNumber?, hposition]
  · rw [isFirst, isFirst, hposition]
  · refine ⟨?_, fun hfits => hundone.tracks.refines hfits⟩
    obtain ⟨due, hnone, hlater⟩ := hundone.tracks.awaits.after later
    obtain rfl : due = none := hnone.elim id id
    rcases made.fares hlater with ⟨answer, found, hruns, -⟩ | ⟨_, _, -, hdue, -⟩
    · exact ⟨answer, congrArg Prod.fst hruns⟩
    · cases hdue

/-- The answer breaks off behind two rows: the move to the last row fails, and the cursor stays
at the first. -/
theorem failed_move_unseen_at_first :
    let rows : List Row := [30, 40].map fun n => ⟨["col_0_0_"], [.int n]⟩
    let source := { ages [] with connection := { replies := [{ rows, failure := some "lost" }] } }
    let before := Cursor.after { source } [.next]
    (CursorMove.last.apply before).1 = .error (.execution (.statement source.statement.sql "lost"))
      ∧ (CursorMove.last.apply before).2.position = .at 0
      ∧ (CursorMove.last.apply before).2.rows = agesRead [30, 40] := by
  intro rows source before
  have hsource : source.pending
      = script (agesRead [30, 40]) (some (.execution (.statement source.statement.sql "lost"))) :=
    rfl
  have hbefore : Cursor.after { source } [.next] = before := rfl
  obtain ⟨-, hposition, -, -, -, -, hrows, -⟩ :=
    failed_move_unseen hsource hbefore (show CursorMove.last.apply before = (.error _, _) from rfl)
  exact ⟨rfl, hposition, hrows⟩

end EntityQuery
