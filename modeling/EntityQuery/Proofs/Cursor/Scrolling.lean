import EntityQuery.Proofs.Cursor.Failure

/-!
# Relative moves

A relative move adds its offset to the place of the cursor, which lies between -1 and the
number of rows (`Awaits.index_mem`). Both are 64-bit numbers, but their sum need not be one:
it is too small for the smallest offset before the first row, and too large for an offset that
leads past the largest number. There the program ends (`scroll_overflows_iff`); all other
offsets lead to the exact sum.
-/

namespace EntityQuery

open Sample Move

namespace Cursor

variable {results : List QueryResult} {failure : Option Error} {cursor after : Cursor}
  {index offset : Int}

theorem Awaits.index_mem (h : cursor.Awaits results failure) :
    -1 ≤ cursor.index ∧ cursor.index ≤ results.length := by
  have hle := h.kept.length_le
  unfold Cursor.index
  split
  · omega
  · rename_i row hrow
    have hlt := h.at_lt row hrow
    omega
  · omega

/-- Past the last row all rows are there already, and so the move goes straight to the sum. -/
theorem Awaits.scroll_eq (h : cursor.Awaits results failure) (offset : Int) :
    (CursorMove.scroll offset).apply cursor
      = (some <$> moveToInt64 (cursor.index + offset)).run cursor := by
  have hscroll : (scroll offset).run cursor
      = (moveToInt64 (cursor.index + offset)).run cursor := by
    unfold scroll
    rw [run_exceptT_bind]
    change (ite _ _ _ : Move Bool).run cursor = _
    split
    · rename_i hpast
      have hfill : (fill none).run cursor = (.ok (), cursor) :=
        fill_eq_self (by rw [h.exhausted hpast.1]; rfl)
      rw [run_exceptT_bind, hfill]
      rfl
    · rfl
  change (some <$> scroll offset).run cursor = _
  rw [← bind_pure_comp, ← bind_pure_comp, run_exceptT_bind, run_exceptT_bind, hscroll]

theorem fill_overflowed (limit : Option Nat) :
    ((fill limit).run cursor).2.overflowed = cursor.overflowed := by
  cases hidle : cursor.exhausted || limit == some 0 with
  | true => rw [fill_eq_self hidle]
  | false =>
    cases hfailure : (cursor.source.take limit).1.failure with
    | none => rw [fill_eq_take hidle hfailure]; rfl
    | some error => rw [fill_fails hidle hfailure]; rfl

theorem bind_overflowed {α β : Type} {x : Move α} {f : α → Move β}
    (hx : (x.run cursor).2.overflowed = cursor.overflowed)
    (hf : ∀ a (after : Cursor), ((f a).run after).2.overflowed = after.overflowed) :
    ((x >>= f).run cursor).2.overflowed = cursor.overflowed := by
  rw [run_exceptT_bind, ← hx]
  generalize x.run cursor = made
  obtain ⟨answer, after⟩ := made
  cases answer with
  | ok a => exact hf a after
  | error error => rfl

theorem moveTo_overflowed (index : Int) :
    ((some <$> moveTo index).run cursor).2.overflowed = cursor.overflowed := by
  rw [← bind_pure_comp]
  refine bind_overflowed ?_ fun _ _ => rfl
  unfold moveTo
  split
  · rfl
  · refine bind_overflowed ?_ fun found _ => by cases found <;> rfl
    exact bind_overflowed rfl fun _ after => bind_overflowed (fill_overflowed _) fun _ _ => rfl

theorem moveTo_neg (h : index < 0) :
    (some <$> moveTo index).run cursor
      = (.ok (some false), { cursor with position := .beforeFirst }) := by
  unfold moveTo
  rw [if_pos h]
  rfl

theorem position_of_moveTo {answer : Bool} (hindex : 0 ≤ index)
    (h : Runs (moveTo index) cursor answer after) :
    after.position = .at index.toNat ∨ answer = false ∧ after.position = .afterLast := by
  unfold Runs moveTo at h
  rw [if_neg (by omega), run_exceptT_bind] at h
  generalize (fillTo index.toNat).run cursor = filled at h
  obtain ⟨found, filled⟩ := filled
  cases found with
  | error error => cases h
  | ok found =>
    cases found with
    | true => cases h; exact .inl rfl
    | false => cases h; exact .inr ⟨rfl, rfl⟩

/-- The move has come past the last row, or upon the failure of the source. -/
def EndsPast (failure : Option Error) (outcome : Except Error (Option Bool) × Cursor) : Prop :=
  (∃ after : Cursor, outcome = (.ok (some false), after) ∧ after.position = .afterLast)
    ∨ ∃ error after, outcome = (.error error, after) ∧ failure = some error

theorem Awaits.moveTo_past (h : cursor.Awaits results failure) (hindex : results.length ≤ index) :
    EndsPast failure ((some <$> moveTo index).run cursor) := by
  rcases Fares.moveTo h index with ⟨answer, after, hruns, hafter⟩ | ⟨error, after, hfails, hdue, -⟩
  · rcases position_of_moveTo (by omega) hruns with hrow | ⟨rfl, hlast⟩
    · have hlt := hafter.at_lt _ hrow
      have hle := hafter.kept.length_le
      omega
    · exact .inl ⟨after, hruns.map, hlast⟩
  · rw [← bind_pure_comp]
    exact .inr ⟨error, after, hfails.bind _, hdue⟩

end Cursor

open Cursor

variable {results : List QueryResult} {failure : Option Error}

/-- As long as the program goes on, a relative move ends it if and only if the smallest offset
is taken before the first row, or the offset leads past the largest number. Otherwise the move
leads to the exact sum, and one before the first row or past the last row ends there. -/
theorem scroll_overflows_iff {source : ResultStream} {moves : List CursorMove} {cursor : Cursor}
    {offset : Int} (hsource : source.pending = script results failure)
    (hlength : results.length ≤ maxInt64) (hcursor : Cursor.after { source } moves = cursor)
    (hgoing : cursor.overflowed = false) (hoffset : minInt64 ≤ offset ∧ offset ≤ maxInt64) :
    (((CursorMove.scroll offset).apply cursor).2.overflowed = true
        ↔ (cursor.index = -1 ∧ offset = minInt64) ∨ maxInt64 < cursor.index + offset)
      ∧ (((CursorMove.scroll offset).apply cursor).2.overflowed = false →
        (CursorMove.scroll offset).apply cursor
            = (some <$> moveTo (cursor.index + offset)).run cursor
          ∧ (cursor.index + offset < 0 → (CursorMove.scroll offset).apply cursor
            = (.ok (some false), { cursor with position := .beforeFirst }))
          ∧ (results.length ≤ cursor.index + offset →
            EndsPast failure ((CursorMove.scroll offset).apply cursor))) := by
  obtain ⟨due, hdue, h⟩ := (Awaits.start hsource).after moves
  rw [hcursor] at h
  have hends {outcome : Except Error (Option Bool) × Cursor} (hpast : EndsPast due outcome) :
      EndsPast failure outcome := by
    rcases hdue with rfl | rfl
    · exact hpast
    · obtain hlast | ⟨_, _, -, hnone⟩ := hpast
      · exact .inl hlast
      · cases hnone
  obtain ⟨hlow, hhigh⟩ := h.index_mem
  have hmin : minInt64 = -9223372036854775808 := rfl
  have hmax : maxInt64 = 9223372036854775807 := rfl
  rw [h.scroll_eq]
  by_cases hfits : minInt64 ≤ cursor.index + offset ∧ cursor.index + offset ≤ maxInt64
  · rw [moveToInt64, if_pos hfits]
    refine ⟨?_, fun _ => ⟨rfl, moveTo_neg, fun hpast => hends (h.moveTo_past hpast)⟩⟩
    rw [moveTo_overflowed, hgoing]
    constructor
    · intro hover
      cases hover
    · omega
  · rw [moveToInt64, if_neg hfits]
    refine ⟨⟨fun _ => by omega, fun _ => rfl⟩, ?_⟩
    intro hover
    cases hover

/-- From the last of two rows, the largest offset ends the program. -/
theorem scroll_overflows_iff_largest :
    let cursor := Cursor.after { source := ages [30, 40] } [.last]
    ((CursorMove.scroll maxInt64).apply cursor).2.overflowed = true :=
  (scroll_overflows_iff (show (ages [30, 40]).pending = script (agesRead [30, 40]) none from rfl)
    (by decide) (show Cursor.after _ [.last] = _ from rfl) rfl ⟨by decide, by decide⟩).1.mpr
    (.inr (by decide))

/-- Before the first row, the smallest offset does. -/
theorem smallest_offset_overflows :
    ((CursorMove.scroll minInt64).apply { source := ages [30] }).2.overflowed = true :=
  rfl

end EntityQuery
