import EntityQuery.Proofs.Number.Numeral
import EntityQuery.Proofs.Text.Case

/-!
# The characters of numbers

Numbers are written in digits, signs and points and in the letters of a few
words (`Numeric`). Together with truth values and timestamps they make do with a
few ASCII characters (`Plain`): letters, digits, signs, points and colons. So
they hold none of the marks that other texts are made of.
-/

namespace EntityQuery

open List DecimalStyle String

def isNumeric (c : Char) : Bool :=
  c.isDigit || "+-.eNaninf".toList.contains c

def Numeric (text : List Char) : Prop :=
  ∀ c ∈ text, isNumeric c = true

instance : DecidablePred Numeric :=
  fun text => inferInstanceAs (Decidable (∀ c ∈ text, isNumeric c = true))

def isPlain (c : Char) : Bool :=
  c.isAlphanum || c == '-' || c == '+' || c == ':' || c == '.'

def Plain (text : List Char) : Prop :=
  ∀ c ∈ text, isPlain c = true

instance : DecidablePred Plain :=
  fun text => inferInstanceAs (Decidable (∀ c ∈ text, isPlain c = true))

namespace Numeric

variable {text more : List Char}

theorem append (h : Numeric text) (h' : Numeric more) : Numeric (text ++ more) := by
  intro c hc
  rcases mem_append.mp hc with hc | hc
  · exact h c hc
  · exact h' c hc

theorem of_digits (h : ∀ c ∈ text, c.isDigit = true) : Numeric text := by
  intro c hc
  simp [isNumeric, h c hc]

theorem plain (h : Numeric text) : Plain text := by
  have hwords : ∀ c ∈ "+-.eNaninf".toList, isPlain c = true := by decide
  intro c hc
  rcases Bool.or_eq_true_iff.mp (h c hc) with hdigit | hword
  · simp [isPlain, Char.isAlphanum, hdigit]
  · exact hwords c (contains_iff_mem.mp hword)

theorem ofNat (n : Nat) : Numeric (toString n).toList :=
  of_digits fun _ => isDigit_of_mem_toString

theorem ofInt (n : Int) : Numeric (toString n).toList := by
  rw [toList_toString_int]
  refine append ?_ (ofNat _)
  split <;> decide

theorem of_isNumeral {value : ℚ} (h : Double.IsNumeral text value) : Numeric text := by
  have hdigits : ∀ {digits}, isDigits digits = true → Numeric digits :=
    fun h => of_digits (isDigits_iff.mp h).2
  obtain ⟨whole, digits, fraction, exponent, power, rfl, hwhole, hfraction, hexponent, -⟩ := h
  refine (hdigits hwhole).append (append ?_ ?_)
  · rcases hfraction with ⟨-, rfl⟩ | ⟨rfl, hfraction⟩
    · decide
    · exact append (by decide : Numeric ['.']) (hdigits hfraction)
  · rcases hexponent with ⟨-, rfl⟩ | ⟨sign, digits, rfl, hexponent, hsign⟩
    · decide
    · refine append (by decide : Numeric ['e']) (append ?_ (hdigits hexponent))
      rcases hsign with ⟨rfl | rfl, -⟩ | ⟨rfl, -⟩ <;> decide

theorem ofDouble (style : DecimalStyle) (x : Double) : Numeric (style.text x).toList := by
  have hsign : Numeric (if x.isNegative then "-" else "").toList := by
    split <;> decide
  rcases Double.text_cases style x with ⟨-, numeral, value, htext, hnumeral, -⟩ | ⟨-, hnan | hinf⟩
  · exact htext ▸ hsign.append (of_isNumeral hnumeral)
  · rw [hnan]
    decide
  · rw [hinf, toList_append]
    exact hsign.append (by decide)

end Numeric

namespace Plain

variable {text more : List Char}

theorem append (h : Plain text) (h' : Plain more) : Plain (text ++ more) := by
  intro c hc
  rcases mem_append.mp hc with hc | hc
  · exact h c hc
  · exact h' c hc

theorem notMem (h : Plain text) {c : Char} (hc : isPlain c = false) : c ∉ text := by
  intro hmem
  rw [h c hmem] at hc
  cases hc

theorem ofBool (value : Bool) : Plain (toString value).toList := by
  cases value <;> decide

theorem zeroPadded (width n : Nat) : Plain (EntityQuery.zeroPadded width n).toList :=
  (Numeric.of_digits fun _ => isDigit_of_mem_zeroPadded).plain

end Plain

end EntityQuery
