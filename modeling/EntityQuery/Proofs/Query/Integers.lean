import EntityQuery.Proofs.Query.ReadBack
import EntityQuery.Proofs.Query.Soundness

/-!
# Whole numbers

The sign of a number is no part of its literal: the digits are read as a number
that is not negative, and a minus sign before it is folded into it afterwards.
So the numbers that can be written reach as far below zero as above it
(`Parsed.int_bounds`), and turning their sign around never leaves the 64-bit
numbers. The smallest 64-bit number lies one further: its digits alone are no
64-bit number, and nothing can be read from them (`expression_fails_of_overflow`).
-/

namespace EntityQuery.Query

open List Text Reader Grammar Token

variable {c : Char} {run : List Char} {n : Int}

theorem Grammar.Parsed.int_bounds {level : Level} (h : Parsed level (.literal (.int n))) :
    -maxInt64 ≤ n ∧ n ≤ maxInt64 := by
  have hmax : 0 ≤ maxInt64 := by decide
  generalize he : Expr.literal (.int n) = e at h
  induction h with
  | literal h =>
    cases he
    obtain ⟨hnonneg, hle⟩ := h
    omega
  | negativeInt hneg hmin =>
    cases he
    omega
  | signed _ ih | product _ ih | sum _ ih | predicate _ ih | negation _ ih | conjunction _ ih
  | disjunction _ ih => exact ih he
  | _ => cases he

theorem readBack_int (hmin : -maxInt64 ≤ n) (hmax : n ≤ maxInt64) :
    expression (toString n).toList = .ok (.literal (.int n), []) := by
  have hparsed : Parsed .signed (.literal (.int n)) := by
    by_cases hneg : n < 0
    · exact .negativeInt hneg hmin
    · exact .signed (.literal ⟨by omega, hmax⟩)
  have hread := (hparsed.product.sum.predicate.negation.conjunction.disjunction.readBack
    fun part hpart => ?_).expression (.nil _)
  · rwa [append_nil] at hread
  · rw [Expr.parts_eq] at hpart
    obtain rfl := mem_singleton.mp hpart
    trivial

/-! ## Digits that are no 64-bit number -/

/-- What a digit cannot start. -/
theorem starts_of_digit (hc : c.isDigit) : c ∉ ['(', '\'', ':', '?', '-']
    ∧ isBlank c = false ∧ c.toLower.isLower = false :=
  of_ascii (P := fun c => c.isDigit = true → c ∉ ['(', '\'', ':', '?', '-'] ∧ isBlank c = false
    ∧ c.toLower.isLower = false) (by decide) (ascii_of_isDigit hc) hc

theorem nextWord_ne_of_digit (hc : c.isDigit) {word : String} (hlower : Lower word) :
    nextWord (c :: run) ≠ word.toList := by
  intro heq
  obtain ⟨-, hblank, hdigit⟩ := starts_of_digit hc
  unfold nextWord at heq
  rw [skipBlanks_cons hblank] at heq
  by_cases hname : isNameChar c = true
  · rw [takeWhile_cons_of_pos hname, map_cons] at heq
    have := hlower.2 c.toLower (heq ▸ .head _)
    rw [hdigit] at this
    cases this
  · rw [takeWhile_cons_of_neg hname] at heq
    exact hlower.1 heq.symm

theorem intLiteral_fails_of_overflow (hrun : isDigits run) (h : readInt64? run = none) :
    Fails intLiteral run := by
  refine fails_of_not_ok fun _ rest hok => ?_
  obtain ⟨hne, hdigits⟩ := isDigits_iff.mp hrun
  obtain ⟨taken, hok, hread⟩ := convert_eq_ok.mp hok
  obtain ⟨found, mid, hfound, hok⟩ := bind_eq_ok.mp hok
  obtain ⟨-, last, -, hok⟩ := bind_eq_ok.mp hok
  have hall := digits_append hne hdigits undigited_nil
  rw [append_nil, hfound] at hall
  obtain ⟨rfl, -⟩ := pure_eq_ok.mp hok
  obtain ⟨rfl, -⟩ := Prod.mk.inj (Except.ok.inj hall)
  rw [h] at hread
  cases hread

theorem operand_fails_of_overflow (hrun : isDigits run) (h : readInt64? run = none)
    (nested : Reader Expr) : Fails (operand nested) run := by
  have hdouble : Fails doubleLiteral run := by simpa using doubleLiteral_fails hrun stops_nil
  have hint := intLiteral_fails_of_overflow hrun h
  obtain ⟨hne, hdigits⟩ := isDigits_iff.mp hrun
  obtain ⟨c, run, rfl⟩ := exists_cons_of_ne_nil hne
  have hc := hdigits c (.head _)
  obtain ⟨hstart, hblank, -⟩ := starts_of_digit hc
  have hskip : skipBlanks (c :: run) = c :: run := skipBlanks_cons hblank
  refine operand_fails_of (fun d hd => ?_) ?_ (fun function => ?_) ?_ nested
  · rw [hskip] at hd
    obtain rfl := Option.some.inj hd
    exact fun hmem => hstart (mem_append_left ['-'] hmem)
  · have hconstant : ∀ (word : String) (value : Literal), Lower word →
        Fails (constant word value) (c :: run) :=
      fun word value hlower => constant_fails hlower value (nextWord_ne_of_digit hc hlower)
    have hquote : Fails (exactly "'") (c :: run) :=
      exactly_fails (fun heq => hstart (Option.some.inj heq ▸ by decide)) (by decide)
    refine Fails.after (blanks_eq _) ?_
    rw [hskip]
    exact hquote.bind.orElse (hdouble.orElse (hint.orElse
      ((hconstant "true" _ (by decide)).orElse ((hconstant "false" _ (by decide)).orElse
        (hconstant "null" _ (by decide))))))
  · exact nextWord_ne_of_digit hc (by cases function <;> decide)
  · refine fails_of_not_ok fun word rest hok => ?_
    obtain ⟨⟨first, tail, hword, hfirst, -⟩, heq, -⟩ := name_of_ok (freeName_eq_ok.mp hok).1
    rw [hskip, hword] at heq
    rw [← (List.cons.inj heq).1, isNameStart_of_isDigit hc] at hfirst
    cases hfirst

theorem signed_fails_of_overflow (hrun : isDigits run) (h : readInt64? run = none) :
    Fails (signed expression) run ∧ Fails (signed expression) ('-' :: run) := by
  have hsigned : Fails (signed expression) run := by
    refine fails_of_not_ok fun e rest hok => ?_
    rcases marked_eq_ok hok with hok | ⟨mid, b, hmark, -⟩
    · exact (operand_fails_of_overflow hrun h expression).not_ok hok
    · obtain ⟨hne, hdigits⟩ := isDigits_iff.mp hrun
      obtain ⟨c, run, rfl⟩ := exists_cons_of_ne_nil hne
      obtain ⟨hstart, hblank, -⟩ := starts_of_digit (hdigits c (.head _))
      refine (symbol_fails ?_ (by decide)).not_ok hmark
      rw [skipBlanks_cons hblank]
      exact fun heq => hstart (Option.some.inj heq ▸ by decide)
  refine ⟨hsigned, fails_of_not_ok fun e rest hok => ?_⟩
  rcases marked_eq_ok hok with hok | ⟨mid, b, hmark, -, hok, -⟩
  · exact ((NoOperand.of_head rfl (by decide) (by decide)).operand_fails expression).not_ok hok
  · obtain rfl : run = mid := (List.cons.inj (symbol_eq_ok.mp hmark)).2
    exact hsigned.not_ok hok

/-- With a sign or without, digits that are no 64-bit number are no expression. -/
theorem expression_fails_of_overflow (h : n < -maxInt64 ∨ maxInt64 < n) :
    Fails expression (toString n).toList := by
  have hunread : readInt64? (toString n.natAbs).toList = none := by
    rw [readInt64?_toString, if_neg (by omega)]
  obtain ⟨hplus, hminus⟩ := signed_fails_of_overflow (isDigits_toString n.natAbs) hunread
  rw [expression_eq, toList_toString_int]
  by_cases hneg : n < 0
  · rw [if_pos hneg]
    exact disjunction_fails_of_signed hminus nofun
  · rw [if_neg hneg]
    refine disjunction_fails_of_signed hplus ?_
    obtain ⟨hne, hdigits⟩ := isDigits_iff.mp (isDigits_toString n.natAbs)
    obtain ⟨c, run, hrun⟩ := exists_cons_of_ne_nil hne
    rw [hrun] at hdigits ⊢
    exact nextWord_ne_of_digit (hdigits c (.head _)) (by decide)

/-- A whole number is read from its decimal text exactly if its digits are a
64-bit number; from the text of any other, no expression is read. The value
that a sign is folded into can always be negated. -/
theorem integer_read_iff (n : Int) :
    (expression (toString n).toList = .ok (.literal (.int n), [])
        ↔ -maxInt64 ≤ n ∧ n ≤ maxInt64)
      ∧ (Fails expression (toString n).toList ↔ n < -maxInt64 ∨ maxInt64 < n)
      ∧ ∀ text m rest, signed expression text = .ok (.literal (.int m), rest) →
        minInt64 ≤ -m ∧ -m ≤ maxInt64 := by
  refine ⟨⟨fun h => (Sound.taken sound_expression h).holds.int_bounds, fun h => readBack_int h.1 h.2⟩,
    ⟨fun h => ?_, expression_fails_of_overflow⟩, ?_⟩
  · by_contra hin
    exact h.not_ok (readBack_int (n := n) (by omega) (by omega))
  · intro text m rest h
    have hsound := sound_signed (sound_expression _) (fun _ hstart => hstart.expression_fails)
      text (Nat.lt_succ_self _)
    obtain ⟨hmin, hmax⟩ := (hsound.2 h).holds.int_bounds
    have : minInt64 = -maxInt64 - 1 := by decide
    omega

/-- The smallest 64-bit number cannot be written. -/
theorem minInt64_unread : ¬∀ n : Int, minInt64 ≤ n → n ≤ maxInt64 →
    expression (toString n).toList = .ok (.literal (.int n), []) := by
  intro h
  exact (expression_fails_of_overflow (n := minInt64) (by decide)).not_ok
    (h minInt64 (by decide) (by decide))

end EntityQuery.Query
