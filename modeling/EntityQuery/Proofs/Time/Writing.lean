import EntityQuery.Proofs.Number.Digits
import EntityQuery.Time.Timestamp

/-!
# Timestamps read back

A timestamp is written so that its own reader finds it again: each field ends
where the next mark stands, because all fields are digits, and a year of more
than four digits carries a sign. The mark between date and time of day is a
blank or a `T`; `readDate?_text` and `readTime?_text` are about the two sides of
it. It follows that two timestamps are never written alike
(`jsonText_injective`).
-/

namespace EntityQuery.Timestamp

open List Text TimeOfDay

variable {rest : List Char} {n : Nat}

/-! ## Fields -/

theorem readDigits?_append {digits : List Char} {most : Option Nat} (hne : digits ≠ [])
    (hdigits : ∀ c ∈ digits, c.isDigit = true) (hrest : Undigited rest)
    (hmost : ∀ n, most = some n → digits.length ≤ n) :
    readDigits? most (digits ++ rest) = some (digitsValue digits, rest) := by
  have hrun := takeWhile_append_of_undigited hdigits hrest
  cases most with
  | none => simp [readDigits?, hrun, hne]
  | some n =>
    have htake : digits.take n = digits := take_of_length_le (hmost n rfl)
    simp [readDigits?, hrun, htake, hne]

theorem isWhite_of_isDigit {c : Char} (h : c.isDigit) : isWhite c = false := by
  have hc : 48 ≤ c.toNat ∧ c.toNat ≤ 57 := by
    simp only [Char.isDigit, Bool.and_eq_true, decide_eq_true_eq] at h
    exact h
  simp only [isWhite, inRanges, whiteRanges, any_cons, any_nil,
    Bool.or_false, Bool.or_eq_false_iff, Bool.and_eq_false_iff, decide_eq_false_iff_not]
  omega

theorem trimStart_of_white {c : Char} (h : isWhite c = false) :
    trimStart (c :: rest) = c :: rest := by
  simp [trimStart, h]

theorem trimStart_of_digit {digits : List Char} (hne : digits ≠ [])
    (hdigits : ∀ c ∈ digits, c.isDigit = true) : trimStart (digits ++ rest) = digits ++ rest := by
  obtain ⟨c, more, rfl⟩ := exists_cons_of_ne_nil hne
  exact trimStart_of_white (isWhite_of_isDigit (hdigits c (.head _)))

theorem readField?_append (hn : n < 100) (hrest : Undigited rest) :
    readField? ((zeroPadded 2 n).toList ++ rest) = some (n, rest) := by
  have hdigits : ∀ c ∈ (zeroPadded 2 n).toList, c.isDigit = true :=
    fun _ => isDigit_of_mem_zeroPadded
  have hlength : (zeroPadded 2 n).toList.length = 2 := length_zeroPadded (by decide) hn
  rw [readField?, trimStart_of_digit (zeroPadded_ne_nil 2 n) hdigits,
    readDigits?_append (zeroPadded_ne_nil 2 n) hdigits hrest, digitsValue_zeroPadded]
  intro most hmost
  rw [hlength, Option.some.inj hmost]

/-! ## Dates -/

theorem readYear?_yearText (year : Int) (rest : List Char) :
    readYear? ((Date.yearText year).toList ++ '-' :: rest) = some (year, '-' :: rest) := by
  have hdigits : ∀ c ∈ (zeroPadded 4 year.natAbs).toList, c.isDigit = true :=
    fun _ => isDigit_of_mem_zeroPadded
  have hne := zeroPadded_ne_nil 4 year.natAbs
  have hrest : Undigited ('-' :: rest) := undigited_cons (by decide)
  have hsigned : readDigits? none ((zeroPadded 4 year.natAbs).toList ++ '-' :: rest)
      = some (year.natAbs, '-' :: rest) := by
    rw [readDigits?_append hne hdigits hrest (by simp), digitsValue_zeroPadded]
  by_cases hneg : year < 0
  · have htext : (Date.yearText year).toList = '-' :: (zeroPadded 4 year.natAbs).toList := by
      simp [Date.yearText, hneg]
    have hvalue : -(year.natAbs : Int) = year := by omega
    rw [htext, cons_append, readYear?, trimStart_of_white (by decide)]
    simp only [hsigned, Option.map_some, hvalue]
  · have hvalue : (year.natAbs : Int) = year := by omega
    by_cases hlong : 9999 < year
    · have htext : (Date.yearText year).toList = '+' :: (zeroPadded 4 year.natAbs).toList := by
        simp [Date.yearText, hneg, hlong]
      rw [htext, cons_append, readYear?, trimStart_of_white (by decide)]
      simp only [hsigned, Option.map_some, hvalue]
    · have htext : (Date.yearText year).toList = (zeroPadded 4 year.natAbs).toList := by
        simp [Date.yearText, hneg, hlong]
      have hlength : (zeroPadded 4 year.natAbs).toList.length = 4 :=
        length_zeroPadded (by decide) (by omega)
      have hread : readDigits? (some 4) ((zeroPadded 4 year.natAbs).toList ++ '-' :: rest)
          = some (year.natAbs, '-' :: rest) := by
        rw [readDigits?_append hne hdigits hrest, digitsValue_zeroPadded]
        intro most hmost
        rw [hlength, Option.some.inj hmost]
      rw [htext, readYear?, trimStart_of_digit hne hdigits]
      -- The first character is a digit, so it is neither of the signs.
      obtain ⟨c, more, heq⟩ := exists_cons_of_ne_nil hne
      rw [heq] at hread hdigits ⊢
      have hc := hdigits c (.head _)
      rw [cons_append] at hread ⊢
      split
      · rename_i h
        rw [(List.cons.inj h).1] at hc
        exact absurd hc (by decide)
      · rename_i h
        rw [(List.cons.inj h).1] at hc
        exact absurd hc (by decide)
      · simp only [hread, Option.map_some, hvalue]

theorem readDate?_text (date : Date) (hrest : Undigited rest) :
    readDate? (date.text.toList ++ rest) = some (date, rest) := by
  obtain ⟨year, month, day, hvalid⟩ := date
  have hfields : month < 100 ∧ day < 100 := by
    have hdays : daysInMonth year month ≤ 31 := by
      unfold daysInMonth
      split <;> split <;> omega
    simp only [isDate, Bool.and_eq_true, decide_eq_true_eq] at hvalid
    omega
  have htext : (Date.text ⟨year, month, day, hvalid⟩).toList ++ rest
      = (Date.yearText year).toList ++ '-' :: ((zeroPadded 2 month).toList
        ++ '-' :: ((zeroPadded 2 day).toList ++ rest)) := by
    simp [Date.text]
  have hmonth : readField? ((zeroPadded 2 month).toList ++ '-' :: ((zeroPadded 2 day).toList ++ rest))
      = some (month, '-' :: ((zeroPadded 2 day).toList ++ rest)) :=
    readField?_append hfields.1 (undigited_cons (by decide))
  have hday := readField?_append hfields.2 hrest
  have hdate : Date.ofFields? year month day = some ⟨year, month, day, hvalid⟩ := by
    rw [Date.ofFields?, dif_pos hvalid]
  rw [htext, readDate?, readYear?_yearText]
  simp [after?, hmonth, hday, hdate]

/-! ## Times of day -/

theorem nanosOfDigits_zeroPadded {width : Nat} (hpos : 0 < width) (hwidth : width ≤ 9)
    (hn : n < 10 ^ width) : nanosOfDigits (zeroPadded width n).toList = n * 10 ^ (9 - width) := by
  have hlength := length_zeroPadded hpos hn
  have htake : (zeroPadded width n).toList.take 9 = (zeroPadded width n).toList :=
    take_of_length_le (by omega)
  rw [nanosOfDigits, htake, digitsValue_zeroPadded, hlength]
  rfl

/-- The digits of a fraction, in groups of three, are read as the nanoseconds. -/
theorem readFraction?_zeroPadded {width : Nat} (hpos : 0 < width) (hwidth : width ≤ 9)
    (hn : n < 10 ^ width) :
    readFraction? ('.' :: (zeroPadded width n).toList) = some (n * 10 ^ (9 - width), []) := by
  have hdigits : ∀ c ∈ (zeroPadded width n).toList, c.isDigit = true :=
    fun _ => isDigit_of_mem_zeroPadded
  have hrun : (zeroPadded width n).toList.takeWhile Char.isDigit = (zeroPadded width n).toList :=
    by simpa using takeWhile_append_of_undigited hdigits undigited_nil
  have hempty : (zeroPadded width n).toList.isEmpty = false := by
    simpa using zeroPadded_ne_nil width n
  have hnanos := nanosOfDigits_zeroPadded hpos hwidth hn
  rw [readFraction?, hrun, hempty, hnanos, drop_length]
  rfl

theorem readFraction?_fractionText {nano : Nat} (hnano : nano < 10 ^ 9) :
    readFraction? (fractionText nano).toList = some (nano, []) := by
  have hpow6 : Nat.pow 10 6 = 1000000 := rfl
  have hpow3 : Nat.pow 10 3 = 1000 := rfl
  unfold fractionText
  rw [hpow6, hpow3]
  by_cases hzero : nano = 0
  · rw [if_pos hzero, hzero]
    rfl
  · rw [if_neg hzero]
    by_cases hmillis : nano % 1000000 = 0
    · rw [if_pos hmillis, String.toList_append]
      refine (readFraction?_zeroPadded (by decide) (by decide) (by omega)).trans ?_
      congr 2
      omega
    · rw [if_neg hmillis]
      by_cases hmicros : nano % 1000 = 0
      · rw [if_pos hmicros, String.toList_append]
        refine (readFraction?_zeroPadded (by decide) (by decide) (by omega)).trans ?_
        congr 2
        omega
      · rw [if_neg hmicros, String.toList_append]
        refine (readFraction?_zeroPadded (by decide) (by decide) hnano).trans ?_
        rw [Nat.sub_self, Nat.pow_zero, Nat.mul_one]

theorem undigited_fractionText (nano : Nat) : Undigited (fractionText nano).toList := by
  unfold fractionText
  split
  · exact undigited_nil
  · split
    · rw [String.toList_append]
      exact undigited_cons (by decide)
    · split <;> (rw [String.toList_append]; exact undigited_cons (by decide))

theorem readTime?_text (date : Date) (time : TimeOfDay) :
    readTime? date (time.clockText.toList ++ (fractionText time.nano).toList)
      = some ⟨date, time⟩ := by
  obtain ⟨hour, minute, second, nano, hvalid⟩ := time
  have hfields : hour < 100 ∧ minute < 100 ∧ second < 100 ∧ nano < 10 ^ 9 := by
    simp only [isTimeOfDay, Bool.and_eq_true, decide_eq_true_eq] at hvalid
    have hpow : Nat.pow 10 9 = 10 ^ 9 := rfl
    omega
  have hfraction := undigited_fractionText nano
  have htext : (clockText ⟨hour, minute, second, nano, hvalid⟩).toList
        ++ (fractionText nano).toList
      = (zeroPadded 2 hour).toList ++ ':' :: ((zeroPadded 2 minute).toList
        ++ ':' :: ((zeroPadded 2 second).toList ++ (fractionText nano).toList)) := by
    simp [clockText]
  have hhour : ∀ rest, readField? ((zeroPadded 2 hour).toList ++ ':' :: rest)
      = some (hour, ':' :: rest) :=
    fun _ => readField?_append hfields.1 (undigited_cons (by decide))
  have hminute : ∀ rest, readField? ((zeroPadded 2 minute).toList ++ ':' :: rest)
      = some (minute, ':' :: rest) :=
    fun _ => readField?_append hfields.2.1 (undigited_cons (by decide))
  have hsecond := readField?_append hfields.2.2.1 hfraction
  have hnano := readFraction?_fractionText hfields.2.2.2
  have htime : ofFields? hour minute second nano
      = some ⟨hour, minute, second, nano, hvalid⟩ := by
    rw [ofFields?, dif_pos hvalid]
  rw [htext, readTime?, hhour]
  simp [after?, hminute, hsecond, hnano, htime]

/-! ## Timestamps -/

theorem trimStart_blank (rest : List Char) : trimStart (' ' :: rest) = trimStart rest :=
  dropWhile_cons_of_pos (by decide)

/-- The form that is sent to a database is the first one that is tried. -/
theorem read?_text (t : Timestamp) : read? t.text = some t := by
  have htext : t.text.toList = t.date.text.toList
      ++ ' ' :: (t.time.clockText.toList ++ (fractionText t.time.nano).toList) := by
    simp [text, textWith]
  have htrim : trimStart (t.time.clockText.toList ++ (fractionText t.time.nano).toList)
      = t.time.clockText.toList ++ (fractionText t.time.nano).toList := by
    simp only [clockText, String.toList_append, append_assoc]
    exact trimStart_of_digit (zeroPadded_ne_nil 2 _) fun _ => isDigit_of_mem_zeroPadded
  have hspaced : readSpaced? t.text.toList = some t := by
    rw [htext, readSpaced?, readDate?_text t.date (undigited_cons (by decide))]
    simp [trimStart_blank, htrim, readTime?_text]
  rw [read?, hspaced]
  rfl

theorem readMarked?_jsonText (t : Timestamp) : readMarked? t.jsonText.toList = some t := by
  have htext : t.jsonText.toList = t.date.text.toList
      ++ 'T' :: (t.time.clockText.toList ++ (fractionText t.time.nano).toList) := by
    simp [jsonText, textWith]
  rw [htext, readMarked?, readDate?_text t.date (undigited_cons (by decide))]
  simp [after?, readTime?_text]

theorem jsonText_injective {t t' : Timestamp} (h : t.jsonText = t'.jsonText) : t = t' := by
  have hread := readMarked?_jsonText t
  rw [h, readMarked?_jsonText t'] at hread
  exact (Option.some.inj hread).symm

end EntityQuery.Timestamp
