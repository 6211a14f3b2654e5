import EntityQuery.Number.Reading
import EntityQuery.Time.Calendar
import Mathlib.Data.Nat.Digits.Lemmas

/-!
# Written digits

A whole number is written with digits only, and its digits read back as the
number, also with zeros in front of them. A reader that takes digits as long as
there are any therefore stops just where the number ends, provided that no
digit follows (`Undigited`).
-/

namespace EntityQuery

open List

variable {c : Char} {rest : List Char} {n width : Nat}

def Undigited (text : List Char) : Prop :=
  ∀ c rest, text = c :: rest → c.isDigit = false

theorem undigited_nil : Undigited [] := nofun

theorem undigited_cons (h : c.isDigit = false) : Undigited (c :: rest) := by
  rintro d rest' heq
  rw [← (List.cons.inj heq).1]
  exact h

theorem takeWhile_append_of_undigited {digits : List Char}
    (hdigits : ∀ c ∈ digits, c.isDigit = true) (hrest : Undigited rest) :
    (digits ++ rest).takeWhile Char.isDigit = digits := by
  rw [takeWhile_append_of_pos hdigits]
  cases rest with
  | nil => simp
  | cons c rest => simp [hrest c rest rfl]

theorem dropWhile_append_of_undigited {digits : List Char}
    (hdigits : ∀ c ∈ digits, c.isDigit = true) (hrest : Undigited rest) :
    (digits ++ rest).dropWhile Char.isDigit = rest := by
  rw [dropWhile_append_of_pos hdigits]
  cases rest with
  | nil => simp
  | cons c rest => simp [hrest c rest rfl]

/-! ## Naturals -/

theorem toList_toString_nat (n : Nat) : (toString n).toList = Nat.toDigits 10 n := by
  rw [Nat.toString_eq_repr, Nat.toList_repr]

theorem isDigit_of_mem_toString (h : c ∈ (toString n).toList) : c.isDigit = true := by
  rw [toList_toString_nat] at h
  exact Nat.isDigit_of_mem_toDigits (by decide) (by decide) h

theorem digitsValue_toString (n : Nat) : digitsValue (toString n).toList = n := by
  rw [toList_toString_nat]
  exact Nat.ofDigitChars_toDigits (by decide) (by decide)

theorem toString_nat_inj {i j : Nat} (h : (toString i).toList = (toString j).toList) : i = j := by
  rw [← digitsValue_toString i, h, digitsValue_toString]

theorem toString_nat_ne_nil (n : Nat) : (toString n).toList ≠ [] := by
  rw [toList_toString_nat]
  exact ne_nil_of_length_pos Nat.length_toDigits_pos

theorem isDigits_iff {text : List Char} :
    isDigits text = true ↔ text ≠ [] ∧ ∀ c ∈ text, c.isDigit = true := by
  simp [isDigits]

theorem isDigits_toString (n : Nat) : isDigits (toString n).toList = true :=
  isDigits_iff.mpr ⟨toString_nat_ne_nil n, fun _ => isDigit_of_mem_toString⟩

theorem length_toString_le (hwidth : 0 < width) (h : n < 10 ^ width) :
    (toString n).toList.length ≤ width := by
  rw [toList_toString_nat]
  exact (Nat.length_toDigits_le_iff (by decide) hwidth).mpr h

/-! ## Zeros in front -/

theorem digitsValue_zeros (count : Nat) (digits : List Char) :
    digitsValue (List.replicate count '0' ++ digits) = digitsValue digits := by
  induction count with
  | zero => rfl
  | succ count ih => exact ih

theorem toList_pushn (text : String) (c : Char) (count : Nat) :
    (text.pushn c count).toList = text.toList ++ List.replicate count c := by
  rw [String.pushn_eq_repeat_push]
  induction count with
  | zero => simp [Nat.repeat]
  | succ count ih => simp [Nat.repeat, ih, replicate_succ']

theorem toList_zeroPadded (width n : Nat) : (zeroPadded width n).toList
    = List.replicate (width - (toString n).length) '0' ++ (toString n).toList := by
  simp [zeroPadded, toList_pushn]

theorem isDigit_of_mem_zeroPadded (h : c ∈ (zeroPadded width n).toList) : c.isDigit = true := by
  rw [toList_zeroPadded, mem_append] at h
  rcases h with hzero | hdigit
  · rw [(mem_replicate.mp hzero).2]
    decide
  · exact isDigit_of_mem_toString hdigit

theorem digitsValue_zeroPadded (width n : Nat) : digitsValue (zeroPadded width n).toList = n := by
  rw [toList_zeroPadded, digitsValue_zeros, digitsValue_toString]

theorem length_zeroPadded (hwidth : 0 < width) (h : n < 10 ^ width) :
    (zeroPadded width n).toList.length = width := by
  have hle := length_toString_le hwidth h
  rw [toList_zeroPadded, length_append, length_replicate, ← String.length_toList]
  omega

theorem zeroPadded_ne_nil (width n : Nat) : (zeroPadded width n).toList ≠ [] := by
  rw [toList_zeroPadded]
  exact append_ne_nil_of_right_ne_nil _ (toString_nat_ne_nil n)

/-! ## Whole numbers -/

theorem toList_toString_int (n : Int) : (toString n).toList
    = (if n < 0 then ['-'] else []) ++ (toString n.natAbs).toList := by
  cases n with
  | ofNat n => rfl
  | negSucc n =>
    have htext : toString (Int.negSucc n) = "-" ++ toString (n + 1) := rfl
    rw [htext, if_pos (Int.negSucc_lt_zero n), String.toList_append]
    rfl

theorem minus_mem_toString_iff (n : Int) : '-' ∈ (toString n).toList ↔ n < 0 := by
  have hdigits : '-' ∉ (toString n.natAbs).toList := by
    intro h
    have hdigit := isDigit_of_mem_toString h
    exact absurd hdigit (by decide)
  rw [toList_toString_int]
  by_cases hn : n < 0
  · simp [hn]
  · rw [if_neg hn, nil_append]
    exact iff_of_false hdigits hn

theorem toString_int_injective {m n : Int} (h : toString m = toString n) : m = n := by
  have hsign : m < 0 ↔ n < 0 := by
    rw [← minus_mem_toString_iff, h, minus_mem_toString_iff]
  have hchars := congrArg String.toList h
  rw [toList_toString_int, toList_toString_int, if_congr hsign rfl rfl] at hchars
  have hvalue : m.natAbs = n.natAbs := by
    rw [← digitsValue_toString m.natAbs, append_cancel_left hchars, digitsValue_toString]
  omega

end EntityQuery
