import EntityQuery.Number.Reading
import EntityQuery.Proofs.Text.Case
import Mathlib.Algebra.Group.Nat.Defs

/-!
# Sign and magnitude

A number is its sign and its magnitude, and nothing else: both can be read off
the number that is made from them. A decimal without a sign is read as a number
without a sign.
-/

namespace EntityQuery.Double

variable {negative : Bool} {magnitude : Nat}

theorem toNat_ofMagnitude (h : magnitude < 2 ^ 63) :
    (ofMagnitude negative magnitude).bits.toNat = magnitude + if negative then 2 ^ 63 else 0 := by
  have hpow : Nat.pow 2 63 = 2 ^ 63 := rfl
  unfold ofMagnitude
  rw [hpow]
  cases negative <;> simp <;> omega

theorem isNegative_ofMagnitude (h : magnitude < 2 ^ 63) :
    (ofMagnitude negative magnitude).isNegative = negative := by
  have hpow : Nat.pow 2 63 = 2 ^ 63 := rfl
  unfold isNegative
  rw [toNat_ofMagnitude h, hpow]
  cases negative
  · simpa using h
  · simp

theorem magnitude_ofMagnitude (h : magnitude < 2 ^ 63) :
    (ofMagnitude negative magnitude).magnitude = magnitude := by
  have hpow : Nat.pow 2 63 = 2 ^ 63 := rfl
  unfold Double.magnitude
  rw [toNat_ofMagnitude h, hpow]
  cases negative <;> simpa using Nat.mod_eq_of_lt h

theorem magnitude_lt (x : Double) : x.magnitude < 2 ^ 63 :=
  Nat.mod_lt _ (by decide)

theorem ofMagnitude_magnitude (x : Double) : ofMagnitude x.isNegative x.magnitude = x := by
  obtain ⟨bits⟩ := x
  have hbits := bits.toNat_lt
  have hpow : Nat.pow 2 63 = 2 ^ 63 := rfl
  unfold ofMagnitude isNegative Double.magnitude
  rw [hpow]
  refine congrArg Double.mk (UInt64.toNat_inj.mp ?_)
  by_cases hneg : 2 ^ 63 ≤ bits.toNat
  · simp only [hneg, decide_true, if_true, UInt64.toNat_ofNat']
    omega
  · simp only [hneg, decide_false, Bool.false_eq_true, if_false, UInt64.toNat_ofNat']
    omega

theorem isNegative_neg (x : Double) : x.neg.isNegative = !x.isNegative :=
  isNegative_ofMagnitude x.magnitude_lt

theorem neg_ofMagnitude (h : magnitude < 2 ^ 63) :
    (ofMagnitude negative magnitude).neg = ofMagnitude (!negative) magnitude := by
  unfold neg
  rw [isNegative_ofMagnitude h, magnitude_ofMagnitude h]

theorem infinityMagnitude_lt : infinityMagnitude < 2 ^ 63 := by
  decide

theorem isNegative_ofFraction (num den : Nat) : (ofFraction negative num den).isNegative = negative := by
  unfold ofFraction
  refine isNegative_ofMagnitude ?_
  split
  · decide
  · unfold nearestMagnitude
    exact Nat.lt_of_le_of_lt (Nat.min_le_right _ _) infinityMagnitude_lt

theorem isNegative_ofDecimal (digits : Nat) (power : Int) :
    (ofDecimal negative digits power).isNegative = negative := by
  unfold ofDecimal
  split
  · exact isNegative_ofMagnitude (by decide)
  · split
    · exact isNegative_ofMagnitude infinityMagnitude_lt
    · exact isNegative_ofFraction _ _

/-! ## Reading -/

theorem splitSign_of_digit {c : Char} (hc : c.isDigit) (text : List Char) :
    splitSign (c :: text) = (false, c :: text) := by
  unfold splitSign
  split
  · rename_i heq
    rw [(List.cons.inj heq).1] at hc
    exact absurd hc (by decide)
  · rename_i heq
    rw [(List.cons.inj heq).1] at hc
    exact absurd hc (by decide)
  · rfl

theorem read?_of_digit {c : Char} (hc : c.isDigit) (text : List Char) :
    read? (c :: text) = readUnsigned? false (c :: text) := by
  have hlower : c.toLower ≠ 'i' ∧ c.toLower ≠ 'n' :=
    Text.of_ascii (P := fun c => c.isDigit = true → c.toLower ≠ 'i' ∧ c.toLower ≠ 'n') (by decide)
      (Text.ascii_of_isDigit hc) hc
  unfold read?
  rw [splitSign_of_digit hc]
  simp [hlower.1, hlower.2]

theorem isNegative_of_read? {c : Char} (hc : c.isDigit) {text : List Char} {x : Double}
    (h : read? (c :: text) = some x) : x.isNegative = false := by
  rw [read?_of_digit hc] at h
  unfold readUnsigned? at h
  dsimp only at h
  split at h <;> split at h
  · cases h
  · obtain ⟨power, -, rfl⟩ := Option.map_eq_some_iff.mp h
    exact isNegative_ofDecimal _ _
  · cases h
  · obtain ⟨power, -, rfl⟩ := Option.map_eq_some_iff.mp h
    exact isNegative_ofDecimal _ _

end EntityQuery.Double
