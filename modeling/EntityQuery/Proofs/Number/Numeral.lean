import EntityQuery.Number.Decimal
import EntityQuery.Proofs.Number.Digits
import EntityQuery.Proofs.Number.Shortest

/-!
# Numerals

A finite number is written as a numeral (`IsNumeral`) after its sign, which stands for a fraction
that is rounded to the number. All other numbers are written as words (`text_cases`).
-/

namespace EntityQuery.Double

open List DecimalStyle

/-- Nothing, or a point and digits. -/
def IsFraction (digits text : List Char) : Prop :=
  (digits = [] ∧ text = []) ∨ (text = '.' :: digits ∧ isDigits digits = true)

/-- Nothing, or an exponent with an optional sign. -/
def IsExponent (power : Int) (text : List Char) : Prop :=
  (power = 0 ∧ text = []) ∨ ∃ sign digits, text = 'e' :: (sign ++ digits)
    ∧ isDigits digits = true
    ∧ ((sign = [] ∨ sign = ['+']) ∧ power = digitsValue digits
      ∨ sign = ['-'] ∧ power = -digitsValue digits)

/-- Digits, an optional fraction and an optional exponent, and what they stand for. -/
def IsNumeral (text : List Char) (value : ℚ) : Prop :=
  ∃ whole digits fraction exponent power, text = whole ++ (fraction ++ exponent)
    ∧ isDigits whole = true ∧ IsFraction digits fraction ∧ IsExponent power exponent
    ∧ value = digitsValue (whole ++ digits) * 10 ^ (power - digits.length)

variable {text more : List Char} {value : ℚ}

theorem isDigit_of_mem_zeros {count : Nat} {c : Char} (h : c ∈ replicate count '0') :
    c.isDigit = true := by
  rw [(mem_replicate.mp h).2]
  decide

theorem digitsValue_append_zeros (digits : List Char) (count : Nat) :
    digitsValue (digits ++ replicate count '0') = 10 ^ count * digitsValue digits :=
  (Nat.ofDigitChars_append 0).trans Nat.ofDigitChars_replicate_zero

theorem IsNumeral.of_digits (h : isDigits text) : IsNumeral text (digitsValue text) :=
  ⟨text, [], [], [], 0, by simp, h, .inl ⟨rfl, rfl⟩, .inl ⟨rfl, rfl⟩, by simp⟩

theorem IsNumeral.of_point (htext : isDigits text) (hmore : isDigits more) :
    IsNumeral (text ++ '.' :: more) (digitsValue (text ++ more) * 10 ^ (-more.length : Int)) :=
  ⟨text, more, '.' :: more, [], 0, by simp, htext, .inr ⟨rfl, hmore⟩, .inl ⟨rfl, rfl⟩, by simp⟩

/-- The point stands behind so many of the digits. -/
theorem isNumeral_place (style : DecimalStyle) (n : Nat) (point : Int) :
    IsNumeral (style.place (toString n) point).toList
      (n * 10 ^ (point - (toString n).length)) := by
  have hdigits := isDigits_iff.mp (isDigits_toString n)
  have hzero : isDigits ['0'] = true := by decide
  unfold place
  dsimp only
  split
  · have hmore : isDigits (replicate (-point).toNat '0' ++ (toString n).toList) = true := by
      refine isDigits_iff.mpr ⟨by simp, fun c hc => ?_⟩
      exact (mem_append.mp hc).elim isDigit_of_mem_zeros (hdigits.2 c)
    convert IsNumeral.of_point hzero hmore using 1
    · simp [toList_pushn]
    · rw [← append_assoc, singleton_append, ← replicate_succ, digitsValue_zeros,
        digitsValue_toString, length_append, length_replicate, String.length_toList]
      congr 2
      omega
  · split
    · rename_i hcount
      obtain ⟨count, hzeros⟩ := Int.eq_ofNat_of_zero_le (Int.sub_nonneg.mpr hcount)
      rw [hzeros, Int.toNat_natCast, zpow_natCast]
      have hwhole : isDigits ((toString n).toList ++ replicate count '0') = true := by
        refine isDigits_iff.mpr ⟨by simp, fun c hc => ?_⟩
        exact (mem_append.mp hc).elim (hdigits.2 c) isDigit_of_mem_zeros
      cases style.keepPoint with
      | true =>
        convert IsNumeral.of_point hwhole hzero using 1
        · simp [toList_pushn]
        · rw [append_assoc, ← replicate_succ', digitsValue_append_zeros, digitsValue_toString]
          push_cast
          rw [pow_succ, length_singleton, Nat.cast_one, zpow_neg_one]
          ring
      | false =>
        convert IsNumeral.of_digits hwhole using 1
        · simp [toList_pushn]
        · rw [digitsValue_append_zeros, digitsValue_toString]
          push_cast
          ring
    · rename_i hpoint hcount
      rw [← String.length_toList] at hcount
      have htake : isDigits ((toString n).toList.take point.toNat) = true := by
        refine isDigits_iff.mpr ⟨ne_nil_of_length_pos ?_, fun c hc => ?_⟩
        · rw [length_take]
          omega
        · exact hdigits.2 c (mem_of_mem_take hc)
      have hdrop : isDigits ((toString n).toList.drop point.toNat) = true := by
        refine isDigits_iff.mpr ⟨ne_nil_of_length_pos ?_, fun c hc => ?_⟩
        · rw [length_drop]
          omega
        · exact hdigits.2 c (mem_of_mem_drop hc)
      convert IsNumeral.of_point htake hdrop using 1
      · simp
      · rw [take_append_drop, digitsValue_toString, length_drop, ← String.length_toList]
        congr 2
        omega

theorem isExponent_written (plusSign : Bool) (leading : Int) :
    IsExponent leading ('e' :: ((if plusSign && 0 ≤ leading then "+" else "").toList
      ++ (toString leading).toList)) := by
  have hdigits := isDigits_toString leading.natAbs
  have hvalue := digitsValue_toString leading.natAbs
  rw [toList_toString_int]
  by_cases hneg : leading < 0
  · have hnonneg : ¬0 ≤ leading := by omega
    exact .inr ⟨['-'], _, by simp [hneg, hnonneg], hdigits, .inr ⟨rfl, by omega⟩⟩
  · have hnonneg : 0 ≤ leading := by omega
    have hpower : leading = digitsValue (toString leading.natAbs).toList := by omega
    cases plusSign with
    | true => exact .inr ⟨['+'], _, by simp [hneg, hnonneg], hdigits, .inl ⟨.inr rfl, hpower⟩⟩
    | false => exact .inr ⟨[], _, by simp [hneg], hdigits, .inl ⟨.inl rfl, hpower⟩⟩

theorem isNumeral_scientific (style : DecimalStyle) (n : Nat) (leading : Int) :
    IsNumeral (style.scientific (toString n) leading).toList
      (n * 10 ^ (leading + 1 - (toString n).length)) := by
  have hexponent := isExponent_written style.plusSign leading
  have hdigits := isDigits_toString n
  have hvalue := digitsValue_toString n
  unfold scientific
  rw [← String.length_toList]
  simp only [String.toList_append, String.toList_ofList]
  generalize (toString n).toList = digits at hdigits hvalue
  obtain ⟨first, rest, rfl⟩ := exists_cons_of_ne_nil (isDigits_iff.mp hdigits).1
  obtain ⟨hfirst, hrest⟩ := forall_mem_cons.mp (isDigits_iff.mp hdigits).2
  refine ⟨[first], rest, if rest.isEmpty then [] else '.' :: rest, _, leading, ?_,
    isDigits_iff.mpr ⟨cons_ne_nil _ _, forall_mem_singleton.mpr hfirst⟩, ?_, hexponent, ?_⟩
  · cases rest <;> simp
  · cases rest with
    | nil => exact .inl ⟨rfl, rfl⟩
    | cons second rest => exact .inr ⟨rfl, isDigits_iff.mpr ⟨cons_ne_nil _ _, hrest⟩⟩
  · rw [singleton_append, hvalue, length_cons]
    congr 2
    omega

theorem isNumeral_decimal (style : DecimalStyle) (d : Decimal) :
    IsNumeral (style.decimal d).toList d.value := by
  have hpower : d.leading + 1 - (toString d.digits).length = d.power := by
    rw [← String.length_toList, toList_toString_nat, Decimal.leading, digitCount]
    omega
  unfold decimal Decimal.value
  rw [← hpower]
  split
  · exact isNumeral_place ..
  · split
    · exact isNumeral_place ..
    · exact isNumeral_scientific ..

/-- The text is the sign of the number and a numeral for a fraction near it. -/
def IsWritten (x : Double) (text : List Char) : Prop :=
  ∃ numeral value, text = (if x.isNegative then "-" else "").toList ++ numeral
    ∧ IsNumeral numeral value ∧ x.Near value

theorem text_cases (style : DecimalStyle) (x : Double) :
    x.isFinite = true ∧ x.IsWritten (style.text x).toList
      ∨ x.isFinite = false ∧ (style.text x = "NaN"
        ∨ style.text x = (if x.isNegative then "-" else "") ++ "inf") := by
  unfold DecimalStyle.text isNaN isInfinite isFinite
  dsimp only
  split
  · rename_i hnan
    exact .inr ⟨by simp at hnan ⊢; omega, .inl rfl⟩
  · rename_i hnan
    split
    · rename_i hinfinite
      exact .inr ⟨by simp at hinfinite ⊢; omega, .inr rfl⟩
    · rename_i hinfinite
      refine .inl ⟨by simp at hnan hinfinite ⊢; omega, ?_⟩
      split
      · rename_i hzero
        have hdigit : isDigits ['0'] = true := by decide
        have hvalue : (x.significand : ℚ) * 2 ^ x.exponent = (0 : Nat) := by
          simp [significand, exponentField, fraction, hzero]
        refine ⟨_, _, String.toList_append, ?_, hvalue ▸ x.near_self⟩
        cases style.keepPoint with
        | true =>
          simpa [show digitsValue ['0', '0'] = 0 from rfl] using IsNumeral.of_point hdigit hdigit
        | false => exact IsNumeral.of_digits hdigit
      · rename_i hzero
        exact ⟨_, _, String.toList_append, isNumeral_decimal .., near_shortest hzero _⟩

theorem not_isNumeral {c : Char} (hc : c.isDigit = false) : ¬IsNumeral (c :: text) value := by
  rintro ⟨whole, _, _, _, _, heq, hwhole, -⟩
  obtain ⟨hne, hdigits⟩ := isDigits_iff.mp hwhole
  obtain ⟨d, rest, rfl⟩ := exists_cons_of_ne_nil hne
  rw [(cons.inj heq).1, hdigits d mem_cons_self] at hc
  cases hc

/-- The text of a number is a numeral for it exactly when the number is finite. -/
theorem isWritten_text_iff (style : DecimalStyle) (x : Double) :
    x.IsWritten (style.text x).toList ↔ x.isFinite = true := by
  rcases text_cases style x with ⟨hfinite, hwritten⟩ | ⟨hfinite, hword⟩
  · exact iff_of_true hwritten hfinite
  · refine iff_of_false ?_ (by rw [hfinite]; decide)
    rintro ⟨numeral, value, htext, hnumeral, -⟩
    rcases hword with hword | hword <;> rw [hword] at htext
    · cases hneg : x.isNegative <;> rw [hneg] at htext
      · exact not_isNumeral (by decide) ((show "NaN".toList = numeral from htext) ▸ hnumeral)
      · exact absurd (cons.inj htext).1 (by decide)
    · rw [String.toList_append] at htext
      exact not_isNumeral (by decide) (append_cancel_left htext ▸ hnumeral)

end EntityQuery.Double
