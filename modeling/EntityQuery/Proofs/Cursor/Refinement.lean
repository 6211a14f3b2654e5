import EntityQuery.Proofs.Cursor.Moves
import EntityQuery.Proofs.Sample

/-!
# The moves of a lazy cursor

Every move is a few fills of the buffer and one change of the position.
`Cursor.Holds` says that the buffer and the source together make up the
results; a fill keeps it and says how far the buffer reaches
(`fill_runs`, `fillTo_runs`). From there on each move is a question of
numbers.
-/

namespace EntityQuery

open List Option Sample ListCursor

namespace Cursor

open Move

variable {cursor cursor' : Cursor} {results : List QueryResult}

variable {limit : Option Nat}

/-! ## The buffer -/

/-- The rows taken so far and those the source still has make up the results. -/
structure Holds (cursor : Cursor) (results : List QueryResult) : Prop where
  pending : ∃ rest, results = cursor.rows ++ rest ∧ cursor.source.pending = script rest none
    ∧ (cursor.exhausted = true → rest = [])
  opened : cursor.rows ≠ [] → cursor.source.opened = cursor.source

theorem Holds.isPrefix (h : cursor.Holds results) : cursor.rows <+: results := by
  obtain ⟨rest, hresults, -⟩ := h.pending
  exact ⟨rest, hresults.symm⟩

theorem Holds.length_le (h : cursor.Holds results) : cursor.rows.length ≤ results.length :=
  h.isPrefix.length_le

theorem Holds.place (h : cursor.Holds results) (position : Position) :
    Holds { cursor with position } results :=
  ⟨h.pending, h.opened⟩

/-- A buffer after a fill: it is longer by so many rows, or has all of them. -/
structure Filled (cursor cursor' : Cursor) (results : List QueryResult) (limit : Option Nat) :
    Prop where
  holds : cursor'.Holds results
  position_eq : cursor'.position = cursor.position
  rows_eq : cursor'.rows
    = results.take (limit.elim results.length (cursor.rows.length + ·))
  exhausted : (∀ n, limit = some n → results.length < cursor.rows.length + n) →
    cursor'.exhausted = true
  source_eq : cursor.rows ≠ [] → cursor'.rows = cursor.rows → cursor'.source = cursor.source

theorem fill_eq_self (h : (cursor.exhausted || limit == some 0) = true) :
    Runs (fill limit) cursor () cursor := by
  refine (runs_get cursor).bind ?_
  rw [if_pos h]
  exact runs_pure ..

def taking (cursor : Cursor) (limit : Option Nat) : Cursor :=
  { cursor with
    source := (cursor.source.take limit).2
    rows := cursor.rows ++ (cursor.source.take limit).1.results
    exhausted := (cursor.source.take limit).1.ended }

theorem fill_eq_take (h : (cursor.exhausted || limit == some 0) = false)
    (hfailure : (cursor.source.take limit).1.failure = none) :
    Runs (fill limit) cursor () (cursor.taking limit) := by
  refine (runs_get cursor).bind ?_
  rw [if_neg (by rw [h]; decide)]
  refine Runs.bind (a := ()) rfl ?_
  rw [show (Taken.upTo limit cursor.source.opened.coming).failure = none from hfailure]
  exact runs_pure ..

theorem fill_fails {error : Error} (h : (cursor.exhausted || limit == some 0) = false)
    (hfailure : (cursor.source.take limit).1.failure = some error) :
    Fails (fill limit) cursor error (cursor.taking limit) := by
  refine (runs_get cursor).bind_fails ?_
  rw [if_neg (by rw [h]; decide)]
  refine Runs.bind_fails (a := ()) rfl ?_
  rw [show (Taken.upTo limit cursor.source.opened.coming).failure = some error from hfailure]
  rfl

section Taking

variable {rest : List QueryResult} {failure : Option Error}
  (h : cursor.source.pending = script rest failure)

include h

/-- A take that reaches the end of the source comes upon its failure. -/
theorem taking_of_gt (hlimit : ∀ n, limit = some n → rest.length < n) :
    (cursor.source.take limit).1.failure = failure
      ∧ (cursor.taking limit).rows = cursor.rows ++ rest
      ∧ (cursor.taking limit).exhausted = failure.isNone
      ∧ (cursor.taking limit).source.pending = [] := by
  have htake : Taken.upTo limit (script rest failure) = _ := Taken.upTo_script_gt hlimit
  have hleft := cursor.source.pending_take limit
  simpa only [taking, ResultStream.take_fst, h, htake, true_and] using hleft

theorem taking_of_le {n : Nat} (hn : n ≤ rest.length) :
    (cursor.source.take (some n)).1.failure = none
      ∧ (cursor.taking (some n)).rows = cursor.rows ++ rest.take n
      ∧ (cursor.taking (some n)).exhausted = false
      ∧ (cursor.taking (some n)).source.pending = script (rest.drop n) failure := by
  have htake : Taken.upTo (some n) (script rest failure) = _ := Taken.upTo_script_le hn
  have hleft := cursor.source.pending_take (some n)
  simpa only [taking, ResultStream.take_fst, h, htake, true_and] using hleft

end Taking

/-- A fill that asks for results takes the next ones, or all that are left. -/
theorem fill_runs (h : cursor.Holds results) (limit : Option Nat) :
    ∃ cursor', Runs (fill limit) cursor () cursor' ∧ Filled cursor cursor' results limit := by
  obtain ⟨rest, hresults, hpending, hempty⟩ := h.pending
  have hlength : results.length = cursor.rows.length + rest.length := by
    rw [hresults, length_append]
  cases hidle : cursor.exhausted || limit == some 0 with
  | true =>
    refine ⟨cursor, fill_eq_self hidle, h, rfl, ?_, ?_, fun _ _ => rfl⟩
    · rcases Bool.or_eq_true_iff.mp hidle with hexhausted | hzero
      · have hall : results = cursor.rows := by simpa [hempty hexhausted] using hresults
        cases limit with
        | none => rw [hall, elim_none, take_length]
        | some n => rw [hall, elim_some, take_of_length_le (Nat.le_add_right ..)]
      · rw [beq_iff_eq.mp hzero, elim_some, Nat.add_zero, hresults, take_left]
    · intro hpast
      rcases Bool.or_eq_true_iff.mp hidle with hexhausted | hzero
      · exact hexhausted
      · have := hpast 0 (beq_iff_eq.mp hzero)
        omega
  | false =>
    have hopened : (cursor.taking limit).source.opened = (cursor.taking limit).source :=
      cursor.source.opened_take limit
    by_cases hpast : ∀ n, limit = some n → results.length < cursor.rows.length + n
    · -- The end of the source is reached.
      have hgt : ∀ n, limit = some n → rest.length < n := fun n hn => by
        have := hpast n hn
        omega
      obtain ⟨hfailure, hrows, hended, hleft⟩ := taking_of_gt hpending hgt
      refine ⟨_, fill_eq_take hidle hfailure, ⟨⟨[], ?_, hleft, fun _ => rfl⟩, fun _ => hopened⟩,
        rfl, ?_, fun _ => hended, ?_⟩
      · rw [hrows, append_nil, hresults]
      · rw [hrows, ← hresults]
        cases limit with
        | none => exact take_length.symm
        | some n => exact (take_of_length_le (Nat.le_of_lt (hpast n rfl))).symm
      · intro hne heq
        have hnil : rest = [] := by
          rw [hrows] at heq
          exact append_cancel_left (heq.trans (append_nil _).symm)
        have htake : Taken.upTo limit (script rest none) = _ := Taken.upTo_script_gt hgt
        apply ResultStream.take_eq_self (h.opened hne) <;> rw [hpending, htake, hnil] <;> rfl
    · obtain ⟨n, rfl, hle⟩ : ∃ n, limit = some n ∧ cursor.rows.length + n ≤ results.length := by
        simpa using hpast
      obtain ⟨hfailure, hrows, hended, hleft⟩ := taking_of_le hpending (n := n) (by omega)
      refine ⟨_, fill_eq_take hidle hfailure, ⟨⟨rest.drop n, ?_, hleft, fun hend => ?_⟩,
        fun _ => hopened⟩, rfl, ?_, fun hall => absurd (hall n rfl) (by omega), ?_⟩
      · rw [hrows, append_assoc, take_append_drop, hresults]
      · rw [hended] at hend
        cases hend
      · rw [hrows, elim_some, hresults, take_length_add_append]
      · intro _ heq
        -- The buffer grows by at least one row, since more than none was asked for.
        have hn : n = 0 := by
          have hlen := congrArg List.length heq
          rw [hrows, length_append, length_take] at hlen
          omega
        rw [hn] at hidle
        simp at hidle

theorem fillTo_runs (h : cursor.Holds results) (row : Nat) :
    ∃ cursor', Runs (fillTo row) cursor (decide (row < results.length)) cursor'
      ∧ cursor'.Holds results ∧ cursor'.position = cursor.position
      ∧ cursor'.rows = results.take (max cursor.rows.length (row + 1))
      ∧ (results.length ≤ row → cursor'.exhausted = true)
      ∧ (row < cursor.rows.length → cursor' = cursor) := by
  by_cases hrow : row < cursor.rows.length
  · have hle := h.length_le
    have hzero : row + 1 - cursor.rows.length = 0 := by omega
    refine ⟨cursor, ?_, h, rfl, ?_, fun hge => by omega, fun _ => rfl⟩
    · refine (runs_get cursor).bind ?_
      rw [hzero]
      refine (fill_eq_self (by simp)).bind ((runs_get cursor).bind ?_)
      have hanswer : decide (row < results.length) = decide (row < cursor.rows.length) :=
        decide_eq_decide.mpr ⟨fun _ => hrow, fun _ => by omega⟩
      rw [hanswer]
      exact runs_pure ..
    · obtain ⟨rest, hresults, -⟩ := h.pending
      rw [Nat.max_eq_left (by omega), hresults, take_left]
  · obtain ⟨cursor', hruns, hfilled⟩ := fill_runs h (some (row + 1 - cursor.rows.length))
    have hgoal : cursor.rows.length + (row + 1 - cursor.rows.length)
        = max cursor.rows.length (row + 1) := by omega
    have hrows := hfilled.rows_eq
    rw [elim_some, hgoal] at hrows
    refine ⟨cursor', ?_, hfilled.holds, hfilled.position_eq, hrows, fun hge => ?_,
      fun hlt => absurd hlt hrow⟩
    · refine (runs_get cursor).bind (hruns.bind ((runs_get cursor').bind ?_))
      have hanswer : decide (row < results.length) = decide (row < cursor'.rows.length) := by
        rw [decide_eq_decide, hrows, length_take]
        omega
      rw [hanswer]
      exact runs_pure ..
    · refine hfilled.exhausted fun n hn => ?_
      obtain rfl := Option.some.inj hn
      omega

/-! ## Moves -/

/-- The cursor stands where the cursor over the list stands, and has the list. -/
structure Tracks (cursor : Cursor) (list : ListCursor) : Prop where
  holds : cursor.Holds list.results
  position_eq : cursor.position = list.position
  at_lt : ∀ row, list.position = .at row → row < cursor.rows.length
  exhausted : list.position = .afterLast → cursor.exhausted = true

namespace Tracks

variable {list : ListCursor}

theorem index_eq (h : cursor.Tracks list) : cursor.index = list.index := by
  rw [index, ListCursor.index, h.position_eq]
  cases hposition : list.position with
  | beforeFirst | «at» row => rfl
  | afterLast =>
    obtain ⟨rest, hresults, -, hempty⟩ := h.holds.pending
    have hall : list.results = cursor.rows := by
      simpa [hempty (h.exhausted hposition)] using hresults
    simp [hall]

theorem current?_eq (h : cursor.Tracks list) : cursor.current? = list.current? := by
  rw [current?, ListCursor.current?, h.position_eq]
  cases hposition : list.position with
  | beforeFirst => rfl
  | «at» row =>
    obtain ⟨rest, hresults, -⟩ := h.holds.pending
    have hlt := h.at_lt row hposition
    simp only [hresults, getElem?_append_left hlt]
  | afterLast => rfl

theorem rowNumber?_eq (h : cursor.Tracks list) : cursor.rowNumber? = list.rowNumber? := by
  obtain ⟨source, rows, exhausted, position⟩ := cursor
  obtain ⟨results, position'⟩ := list
  obtain rfl : position = position' := h.position_eq
  cases position <;> rfl

theorem isFirst_eq (h : cursor.Tracks list) : cursor.isFirst = list.isFirst := by
  rw [isFirst, ListCursor.isFirst, h.position_eq]

theorem beforeFirst (h : cursor.Tracks list) :
    Tracks { cursor with position := .beforeFirst } { list with position := .beforeFirst } :=
  ⟨h.holds.place _, rfl, fun _ hrow => (nomatch hrow), fun hlast => (nomatch hlast)⟩

theorem fill_none (h : cursor.Tracks list) :
    ∃ cursor', Runs (fill none) cursor () cursor' ∧ cursor'.Tracks list
      ∧ cursor'.rows = list.results ∧ cursor'.exhausted = true
      ∧ (cursor.exhausted = true → cursor' = cursor)
      ∧ (cursor.rows ≠ [] → cursor.rows = list.results → cursor'.source = cursor.source) := by
  obtain ⟨cursor', hruns, hfilled⟩ := fill_runs h.holds none
  have hrows : cursor'.rows = list.results := by
    rw [hfilled.rows_eq, elim_none, take_length]
  have hexhausted : cursor'.exhausted = true := hfilled.exhausted fun _ hn => (nomatch hn)
  refine ⟨cursor', hruns, ⟨hfilled.holds, hfilled.position_eq.trans h.position_eq, ?_,
    fun _ => hexhausted⟩, hrows, hexhausted, ?_, ?_⟩
  · intro row hrow
    have hlt := h.at_lt row hrow
    have hle := h.holds.length_le
    rw [hrows]
    omega
  · intro hidle
    have hsame : Runs (fill none) cursor () cursor := fill_eq_self (by rw [hidle]; rfl)
    rw [Runs, hsame] at hruns
    exact (Prod.mk.inj hruns).2.symm
  · intro hne hall
    exact hfilled.source_eq hne (hrows.trans hall.symm)

/-- Where the cursor has come to: the buffer reaches just as far as it has to,
and a row that was there already costs nothing. -/
structure Landed (cursor cursor' : Cursor) (list : ListCursor) : Prop where
  grows : cursor.rows.length ≤ cursor'.rows.length
  reaches : ∀ row, list.position = .at row →
    cursor'.rows.length = max cursor.rows.length (row + 1)
  keeps : ∀ row, list.position = .at row → row < cursor.rows.length →
    cursor'.source = cursor.source

/-- Past either end there is no row to be taken. -/
theorem Landed.of_no_row (hgrows : cursor.rows.length ≤ cursor'.rows.length)
    (hrow : ∀ row, list.position ≠ .at row) : Landed cursor cursor' list :=
  ⟨hgrows, fun row h => absurd h (hrow row), fun row h => absurd h (hrow row)⟩

/-- The move answers and ends as one over the list does. -/
abbrev Ends (x : Move Bool) (cursor : Cursor) (outcome : Option Bool × ListCursor) : Prop :=
  ∃ answer cursor', Runs x cursor answer cursor' ∧ outcome.1 = some answer
    ∧ cursor'.Tracks outcome.2 ∧ Landed cursor cursor' outcome.2

theorem moveTo_runs (h : cursor.Tracks list) (index : Int) :
    Ends (moveTo index) cursor (list.moveTo index) := by
  unfold moveTo ListCursor.moveTo
  by_cases hneg : index < 0
  · rw [if_pos hneg, if_pos hneg]
    exact ⟨false, _, (runs_modify ..).bind (runs_pure ..), rfl, h.beforeFirst,
      .of_no_row (Nat.le_refl _) fun _ hrow => (nomatch hrow)⟩
  · rw [if_neg hneg, if_neg hneg]
    obtain ⟨cursor', hruns, hholds, -, hrows, hexhausted, hsame⟩ := fillTo_runs h.holds index.toNat
    have hle := h.holds.length_le
    by_cases hlt : index < list.results.length
    · have hrow : index.toNat < list.results.length := by omega
      have hlength : cursor'.rows.length = max cursor.rows.length (index.toNat + 1) := by
        rw [hrows, length_take]
        omega
      rw [if_pos hlt]
      rw [decide_eq_true hrow] at hruns
      refine ⟨true, _, hruns.bind ((runs_modify ..).bind (runs_pure ..)), rfl,
        ⟨hholds.place _, rfl, ?_, fun hlast => (nomatch hlast)⟩, ?_, ?_, ?_⟩
      · intro row heq
        obtain rfl := Position.at.inj heq
        exact hlength ▸ Nat.lt_of_lt_of_le (Nat.lt_succ_self _) (Nat.le_max_right ..)
      · exact hlength ▸ Nat.le_max_left ..
      · intro row heq
        obtain rfl := Position.at.inj heq
        exact hlength
      · intro row heq hbuffered
        obtain rfl := Position.at.inj heq
        rw [hsame hbuffered]
    · have hrow : ¬index.toNat < list.results.length := by omega
      rw [if_neg hlt]
      rw [decide_eq_false hrow] at hruns
      refine ⟨false, _, hruns.bind ((runs_modify ..).bind (runs_pure ..)), rfl,
        ⟨hholds.place _, rfl, fun _ hrow => (nomatch hrow), fun _ => hexhausted (by omega)⟩,
        .of_no_row ?_ fun _ hrow => (nomatch hrow)⟩
      rw [hrows, length_take]
      omega

theorem next_runs (h : cursor.Tracks list) : Ends next cursor (list.apply .next) := by
  by_cases hlast : cursor.position = .afterLast
  · have hlist : list.position = .afterLast := h.position_eq.symm.trans hlast
    have happly : list.apply .next = (some false, list) := by
      obtain ⟨results, position⟩ := list
      obtain rfl : position = .afterLast := hlist
      have hindex : ¬((results.length : Int) + 1 < 0) := by omega
      have hend : ¬((results.length : Int) + 1 < results.length) := by omega
      simp [ListCursor.apply, ListCursor.moveTo, ListCursor.index, hindex, hend]
    rw [happly]
    refine ⟨false, cursor, (runs_get cursor).bind ?_, rfl, h,
      .of_no_row (Nat.le_refl _) fun row hrow => ?_⟩
    · rw [if_pos hlast]
      exact runs_pure ..
    · rw [hlist] at hrow
      cases hrow
  · obtain ⟨answer, cursor', hruns, hrest⟩ := h.moveTo_runs (list.index + 1)
    refine ⟨answer, cursor', (runs_get cursor).bind ?_, hrest⟩
    rw [if_neg hlast, h.index_eq]
    exact hruns

/-- A move that first takes all rows when the cursor is past them does the same
as one that does not: past the last row, all rows are there. -/
theorem fill_past_runs (h : cursor.Tracks list) {test : Prop} [Decidable test]
    (htest : test → cursor.position = .afterLast) {β : Type} {x : Unit → Move β} {b : β}
    {cursor' : Cursor} (hx : Runs (x ()) cursor b cursor') :
    Runs (if test then fill none >>= x else x ()) cursor b cursor' := by
  by_cases hpast : test
  · rw [if_pos hpast]
    have hexhausted : cursor.exhausted = true :=
      h.exhausted (h.position_eq.symm.trans (htest hpast))
    exact (fill_eq_self (by rw [hexhausted]; rfl)).bind hx
  · rw [if_neg hpast]
    exact hx

theorem previous_runs (h : cursor.Tracks list) : Ends previous cursor (list.apply .previous) := by
  obtain ⟨answer, cursor', hruns, hrest⟩ := h.moveTo_runs (list.index - 1)
  refine ⟨answer, cursor', (runs_get cursor).bind ?_, hrest⟩
  refine h.fill_past_runs id ((runs_get cursor).bind ?_)
  rw [h.index_eq]
  exact hruns

theorem scroll_runs (h : cursor.Tracks list) {offset : Int} (hfits : list.Fits (.scroll offset)) :
    Ends (scroll offset) cursor (list.apply (.scroll offset)) := by
  obtain ⟨answer, cursor', hruns, hrest⟩ := h.moveTo_runs (list.index + offset)
  refine ⟨answer, cursor', (runs_get cursor).bind ?_, hrest⟩
  refine h.fill_past_runs And.left ((runs_get cursor).bind ?_)
  rw [h.index_eq, moveToInt64, if_pos (show _ ∧ _ from hfits)]
  exact hruns

theorem last_runs (h : cursor.Tracks list) : Ends last cursor (list.apply .last) := by
  obtain ⟨filled, hruns, htracks, hrows, hexhausted, -, hsource⟩ := h.fill_none
  have hle := h.holds.length_le
  cases hcount : list.results.length with
  | zero =>
    have happly : list.apply .last = (some false, { list with position := .afterLast }) := by
      simp [ListCursor.apply, ListCursor.moveTo, hcount]
    have hnone : filled.rows.length = 0 := by rw [hrows, hcount]
    rw [happly]
    refine ⟨false, _, hruns.bind ((runs_get filled).bind ?_), rfl,
      ⟨htracks.holds.place .afterLast, rfl, fun _ hrow => (nomatch hrow), fun _ => hexhausted⟩,
      .of_no_row (by rw [hrows]; exact hle) fun _ hrow => (nomatch hrow)⟩
    rw [hnone]
    exact (runs_modify ..).bind (runs_pure ..)
  | succ count =>
    have hlt : (count : Int) < (count + 1 : Nat) := by omega
    have happly : list.apply .last = (some true, { list with position := .at count }) := by
      rw [ListCursor.apply, ListCursor.moveTo, hcount, Nat.add_sub_cancel, if_neg (by omega),
        if_pos hlt, Int.toNat_natCast]
    have hlength : filled.rows.length = count + 1 := by rw [hrows, hcount]
    rw [happly]
    refine ⟨true, _, hruns.bind ((runs_get filled).bind ?_), rfl,
      ⟨htracks.holds.place (.at count), rfl, ?_, fun hlast => (nomatch hlast)⟩, ?_, ?_, ?_⟩
    · rw [hlength]
      exact (runs_modify ..).bind (runs_pure ..)
    · intro row heq
      obtain rfl := Position.at.inj heq
      exact hlength ▸ Nat.lt_succ_self _
    · exact hrows ▸ hle
    · intro row heq
      obtain rfl := Position.at.inj heq
      change filled.rows.length = _
      omega
    · intro row heq hbuffered
      obtain rfl := Position.at.inj heq
      have hall : cursor.rows = list.results :=
        h.holds.isPrefix.eq_of_length (by omega)
      exact hsource (ne_nil_of_length_pos (by omega)) hall

theorem setRowNumber_runs (h : cursor.Tracks list) (row : Int) :
    ∃ answer cursor', Runs (setRowNumber row) cursor answer cursor'
      ∧ (list.apply (.setRowNumber row)).1 = some answer
      ∧ cursor'.Tracks (list.apply (.setRowNumber row)).2
      ∧ (0 ≤ row → Landed cursor cursor' (list.apply (.setRowNumber row)).2)
      ∧ (row < 0 → cursor'.rows = list.results) := by
  by_cases hneg : row < 0
  · obtain ⟨filled, hfill, htracks, hrows, -⟩ := h.fill_none
    obtain ⟨answer, cursor', hruns, hanswer, htracks', hlanded⟩ :=
      htracks.moveTo_runs (list.results.length + row)
    have happly : list.apply (.setRowNumber row) = list.moveTo (list.results.length + row) := by
      rw [apply, if_pos hneg]
    rw [happly]
    refine ⟨answer, cursor', ?_, hanswer, htracks', fun hge => by omega, fun _ => ?_⟩
    · unfold setRowNumber
      rw [if_neg (by omega)]
      refine hfill.bind ((runs_get filled).bind ?_)
      rw [hrows]
      exact hruns
    · have hresults : (list.moveTo (list.results.length + row)).2.results = list.results :=
        list.moveTo_results _
      have hprefix := htracks'.holds.isPrefix
      have hgrows := hlanded.grows
      rw [hresults] at hprefix
      rw [hrows] at hgrows
      exact hprefix.eq_of_length (Nat.le_antisymm hprefix.length_le hgrows)
  · obtain ⟨answer, cursor', hruns, hrest⟩ := h.moveTo_runs row
    have happly : list.apply (.setRowNumber row) = list.moveTo row := by
      rw [apply, if_neg hneg]
    rw [happly]
    refine ⟨answer, cursor', ?_, hrest.1, hrest.2.1, fun _ => hrest.2.2, fun h => absurd h hneg⟩
    unfold setRowNumber
    rw [if_pos (by omega)]
    exact hruns

theorem isLast_runs (h : cursor.Tracks list) :
    ∃ cursor', Runs isLast cursor list.isLast cursor' ∧ cursor'.Tracks list := by
  have hposition := h.position_eq
  obtain ⟨results, position⟩ := list
  cases position with
  | beforeFirst | afterLast =>
    refine ⟨cursor, (runs_get cursor).bind ?_, h⟩
    rw [hposition]
    exact runs_pure ..
  | «at» row =>
    have hlt := h.at_lt row rfl
    obtain ⟨cursor', hruns, hholds, hposition', hrows, -⟩ := fillTo_runs h.holds (row + 1)
    have hlength : cursor.rows.length ≤ cursor'.rows.length := by
      have hle := h.holds.length_le
      rw [hrows, length_take]
      omega
    refine ⟨cursor', (runs_get cursor).bind ?_, hholds, hposition'.trans hposition, ?_,
      fun hlast => (nomatch hlast)⟩
    · have hanswer : ListCursor.isLast ⟨results, .at row⟩ = !decide (row + 1 < results.length) := by
        have hle : row + 1 ≤ results.length := Nat.le_trans hlt h.holds.length_le
        rw [Bool.eq_iff_iff]
        simp only [ListCursor.isLast, beq_iff_eq, Bool.not_eq_true', decide_eq_false_iff_not]
        omega
      rw [hposition, hanswer]
      exact hruns.bind (runs_pure ..)
    · intro row' heq
      obtain rfl := Position.at.inj heq
      omega

end Tracks

end Cursor

/-! ## Whole runs -/

/-- On this cursor a move does what it does on the cursor over the list: it
gives the same answer and shows the same afterwards. The buffer is a beginning
of the list; a move to a row takes what is needed to get there and nothing for
a row that is there already, except that a number counted from the end takes
all rows first. -/
structure CursorMove.Refines (move : CursorMove) (cursor : Cursor) (list : ListCursor) : Prop where
  answer : (move.apply cursor).1 = .ok (list.apply move).1
  current : (move.apply cursor).2.current? = (list.apply move).2.current?
  rowNumber : (move.apply cursor).2.rowNumber? = (list.apply move).2.rowNumber?
  isFirst : (move.apply cursor).2.isFirst = (list.apply move).2.isFirst
  buffered : (move.apply cursor).2.rows <+: (list.apply move).2.results
  reaches : move ≠ .isLast → (∀ number < 0, move ≠ .setRowNumber number) →
    ∀ row, (list.apply move).2.position = .at row →
      (move.apply cursor).2.rows.length = max cursor.rows.length (row + 1)
  keeps : move ≠ .isLast → (∀ number < 0, move ≠ .setRowNumber number) →
    ∀ row, (list.apply move).2.position = .at row → row < cursor.rows.length →
      (move.apply cursor).2.source = cursor.source
  fromEnd : ∀ number < 0, move = .setRowNumber number →
    (move.apply cursor).2.rows = list.results

namespace CursorMove

open Move Cursor

variable {move : CursorMove} {cursor cursor' : Cursor} {list : ListCursor}

/-- What one move does to a cursor and to the list it tracks. -/
structure Steps (move : CursorMove) (cursor cursor' : Cursor) (list : ListCursor) : Prop where
  runs : Runs move.action cursor (list.apply move).1 cursor'
  tracks : cursor'.Tracks (list.apply move).2
  reaches : move ≠ .isLast → (∀ number < 0, move ≠ .setRowNumber number) →
    ∀ row, (list.apply move).2.position = .at row →
      cursor'.rows.length = max cursor.rows.length (row + 1)
  keeps : move ≠ .isLast → (∀ number < 0, move ≠ .setRowNumber number) →
    ∀ row, (list.apply move).2.position = .at row → row < cursor.rows.length →
      cursor'.source = cursor.source
  fromEnd : ∀ number < 0, move = .setRowNumber number → cursor'.rows = list.results

/-- A move that stands at no row afterwards. -/
theorem Steps.of_no_row (hruns : Runs move.action cursor (list.apply move).1 cursor')
    (htracks : cursor'.Tracks (list.apply move).2)
    (hrow : ∀ row, (list.apply move).2.position ≠ .at row)
    (hnumber : ∀ number, move ≠ .setRowNumber number) : Steps move cursor cursor' list :=
  ⟨hruns, htracks, fun _ _ row h => absurd h (hrow row), fun _ _ row h => absurd h (hrow row),
    fun number _ h => absurd h (hnumber number)⟩

/-- A move whose answer says whether it came to a row. -/
theorem steps_of_landed {x : Move Bool} (haction : move.action = some <$> x)
    (hnumber : ∀ number < 0, move ≠ .setRowNumber number)
    (h : Tracks.Ends x cursor (list.apply move)) : ∃ cursor', Steps move cursor cursor' list := by
  obtain ⟨answer, cursor', hruns, hanswer, htracks, hlanded⟩ := h
  refine ⟨cursor', ?_, htracks, fun _ _ => hlanded.reaches, fun _ _ => hlanded.keeps,
    fun number hneg heq => ?_⟩
  · rw [haction, hanswer]
    exact hruns.map
  · exact absurd heq (hnumber number hneg)

/-- Every move keeps the two cursors together. -/
theorem exists_steps (h : cursor.Tracks list) (hfits : list.Fits move) :
    ∃ cursor', Steps move cursor cursor' list := by
  cases move with
  | next => exact steps_of_landed rfl (fun _ _ heq => nomatch heq) h.next_runs
  | previous => exact steps_of_landed rfl (fun _ _ heq => nomatch heq) h.previous_runs
  | first => exact steps_of_landed rfl (fun _ _ heq => nomatch heq) (h.moveTo_runs 0)
  | last => exact steps_of_landed rfl (fun _ _ heq => nomatch heq) h.last_runs
  | scroll offset => exact steps_of_landed rfl (fun _ _ heq => nomatch heq) (h.scroll_runs hfits)
  | setRowNumber number =>
    obtain ⟨answer, cursor', hruns, hanswer, htracks, hlanded, hall⟩ := h.setRowNumber_runs number
    have hcounted : (∀ number' < 0, setRowNumber number ≠ .setRowNumber number') →
        Tracks.Landed cursor cursor' (list.apply (.setRowNumber number)).2 := by
      intro hnumber
      refine hlanded ?_
      by_contra hneg
      exact hnumber number (by omega) rfl
    refine ⟨cursor', ?_, htracks, fun _ hnumber => (hcounted hnumber).reaches,
      fun _ hnumber => (hcounted hnumber).keeps, ?_⟩
    · rw [hanswer]
      exact hruns.map
    · intro number' hneg heq
      obtain rfl := setRowNumber.inj heq
      exact hall hneg
  | isLast =>
    obtain ⟨cursor', hruns, htracks⟩ := h.isLast_runs
    exact ⟨cursor', hruns.map, htracks, fun hne => absurd rfl hne, fun hne => absurd rfl hne,
      fun _ _ heq => nomatch heq⟩
  | beforeFirst =>
    exact ⟨_, .of_no_row (runs_modify ..).map h.beforeFirst (fun _ hrow => (nomatch hrow))
      fun _ heq => nomatch heq⟩
  | afterLast =>
    obtain ⟨filled, hruns, htracks, -, hexhausted, -⟩ := h.fill_none
    exact ⟨_, .of_no_row (hruns.bind (runs_modify ..)).map
      ⟨htracks.holds.place .afterLast, rfl, fun _ hrow => (nomatch hrow), fun _ => hexhausted⟩
      (fun _ hrow => (nomatch hrow)) fun _ heq => nomatch heq⟩
  | close =>
    exact ⟨_, .of_no_row (runs_modify ..).map
      ⟨⟨⟨[], rfl, rfl, fun _ => rfl⟩, fun hne => absurd rfl hne⟩, rfl,
        fun _ hrow => (nomatch hrow), fun _ => rfl⟩
      (fun _ hrow => (nomatch hrow)) fun _ heq => nomatch heq⟩

theorem Steps.apply_eq (h : Steps move cursor cursor' list) :
    move.apply cursor = (.ok (list.apply move).1, cursor') :=
  h.runs

theorem Steps.refines (h : Steps move cursor cursor' list) : move.Refines cursor list := by
  have hafter : (move.apply cursor).2 = cursor' := by rw [h.apply_eq]
  constructor
  · rw [h.apply_eq]
  · rw [hafter, h.tracks.current?_eq]
  · rw [hafter, h.tracks.rowNumber?_eq]
  · rw [hafter, h.tracks.isFirst_eq]
  · rw [hafter]
    exact h.tracks.holds.isPrefix
  · rw [hafter]
    exact h.reaches
  · rw [hafter]
    exact h.keeps
  · rw [hafter]
    exact h.fromEnd

end CursorMove

theorem Cursor.Tracks.after : ∀ {moves : List CursorMove} {cursor : Cursor} {list : ListCursor},
    cursor.Tracks list → list.FitsAll moves → (cursor.after moves).Tracks (list.after moves)
  | [], _, _, h, _ => h
  | move :: rest, cursor, list, h, hfits => by
    obtain ⟨cursor', hsteps⟩ := CursorMove.exists_steps h hfits.1
    have hafter : (move.apply cursor).2 = cursor' := by rw [hsteps.apply_eq]
    have htracks := hsteps.tracks
    rw [← hafter] at htracks
    have hrest := Cursor.Tracks.after htracks hfits.2
    exact hrest

theorem ListCursor.fitsAll_append {list : ListCursor} {move : CursorMove} :
    ∀ {moves : List CursorMove}, list.FitsAll (moves ++ [move]) →
      list.FitsAll moves ∧ (list.after moves).Fits move := by
  intro moves
  induction moves generalizing list with
  | nil => exact fun h => ⟨trivial, h.1⟩
  | cons made rest ih =>
    intro h
    obtain ⟨hrest, hlast⟩ := ih h.2
    exact ⟨⟨h.1, hrest⟩, hlast⟩

theorem Cursor.Tracks.refines {cursor : Cursor} {list : ListCursor} (h : cursor.Tracks list)
    {moves : List CursorMove} {move : CursorMove} (hfits : list.FitsAll (moves ++ [move])) :
    move.Refines (cursor.after moves) (list.after moves) := by
  obtain ⟨hbefore, hmove⟩ := fitsAll_append hfits
  obtain ⟨cursor', hsteps⟩ := CursorMove.exists_steps (h.after hbefore) hmove
  exact hsteps.refines

theorem Cursor.tracks_start {source : ResultStream} {results : List QueryResult}
    (h : source.Hydrates results) : Cursor.Tracks { source } ⟨results, .beforeFirst⟩ :=
  ⟨⟨⟨results, rfl, h.pending_eq, fun hended => (nomatch hended)⟩, fun hne => absurd rfl hne⟩, rfl,
    fun _ hrow => (nomatch hrow), fun hlast => (nomatch hlast)⟩

/-- Whatever moves were made before, the next one does what it does on the
cursor over the whole list. -/
theorem cursor_refines_list {source : ResultStream} {results : List QueryResult}
    {moves : List CursorMove} {move : CursorMove} (hsource : source.Hydrates results)
    (hfits : FitsAll ⟨results, .beforeFirst⟩ (moves ++ [move])) :
    move.Refines (Cursor.after { source } moves) (after ⟨results, .beforeFirst⟩ moves) :=
  (Cursor.tracks_start hsource).refines hfits

/-- Three rows: to the second, past the end, and two rows back. -/
theorem cursor_refines_list_back : (ages [30, 40, 50]).Hydrates (agesRead [30, 40, 50])
    ∧ FitsAll ⟨agesRead [30, 40, 50], .beforeFirst⟩
      ([.next, .setRowNumber 1, .isLast, .afterLast] ++ [.scroll (-2)])
    ∧ CursorMove.Refines (.scroll (-2))
      (Cursor.after { source := ages [30, 40, 50] }
        [.next, .setRowNumber 1, .isLast, .afterLast])
      (after ⟨agesRead [30, 40, 50], .beforeFirst⟩
        [.next, .setRowNumber 1, .isLast, .afterLast]) := by
  have hsource : (ages [30, 40, 50]).Hydrates (agesRead [30, 40, 50]) :=
    ⟨rfl, rfl, rfl⟩
  have hfits : FitsAll ⟨agesRead [30, 40, 50], .beforeFirst⟩
      ([.next, .setRowNumber 1, .isLast, .afterLast] ++ [.scroll (-2)]) :=
    ⟨trivial, trivial, trivial, trivial, ⟨by decide, by decide⟩, trivial⟩
  exact ⟨hsource, hfits, cursor_refines_list hsource hfits⟩

/-- Not every move to a row stops there: one that counts from the end has taken
all five rows when it comes to the fourth. -/
theorem setRowNumber_takes_more : ¬∀ (source : ResultStream) (results : List QueryResult)
    (move : CursorMove) (row : Nat), source.Hydrates results → move ≠ .isLast →
    (move.apply { source }).1 = .ok (some true) → (move.apply { source }).2.position = .at row →
    (move.apply { source }).2.rows.length = max 0 (row + 1) := by
  intro h
  have hlength := h (ages [10, 20, 30, 40, 50]) (agesRead [10, 20, 30, 40, 50])
    (.setRowNumber (-2)) 3 ⟨rfl, rfl, rfl⟩ (by decide) rfl rfl
  exact absurd hlength (by decide)

end EntityQuery
