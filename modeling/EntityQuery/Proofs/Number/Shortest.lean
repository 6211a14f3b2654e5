import EntityQuery.Number.Shortest
import Mathlib.Algebra.Order.Field.Power
import Mathlib.Tactic.FieldSimp
import Mathlib.Tactic.Linarith
import Mathlib.Tactic.Ring

/-!
# What a number stands for

A number is `significand · 2 ^ exponent`, and stands for the fractions around it that are rounded
to it (`Near`): up to half a unit of its last place away, but only a quarter below a power of two,
where the numbers lie closer. Its shortest decimal is one of these fractions (`near_shortest`).

Fractions are compared as rationals.
-/

namespace EntityQuery

/-- What the decimal stands for. -/
def Decimal.value (d : Decimal) : ℚ :=
  d.digits * 10 ^ d.power

theorem Decimal.value_dropZeros : ∀ (fuel : Nat) (d : Decimal), (d.dropZeros fuel).value = d.value
  | 0, _ => rfl
  | fuel + 1, d => by
    unfold dropZeros
    split
    · rename_i hzero
      have hdigits : (d.digits : ℚ) = (d.digits / 10 : Nat) * 10 := by
        exact_mod_cast (Nat.div_mul_cancel (Nat.dvd_of_mod_eq_zero hzero.1)).symm
      rw [value_dropZeros fuel, value, value, hdigits, zpow_add_one₀ (by norm_num)]
      ring
    · rfl

namespace Double

variable {base num den : Nat} {x : Double} {q : ℚ}

theorem scaled_pos (hbase : 0 < base) (power : Int) : 0 < (scaled base power 1 1).2 := by
  unfold scaled
  split
  · exact Nat.one_pos
  · exact Nat.mul_pos Nat.one_pos (Nat.pow_pos hbase)

theorem scaled_eq (base : Nat) (power : Int) :
    ((scaled base power 1 1).1 : ℚ) / (scaled base power 1 1).2 = (base : ℚ) ^ power := by
  unfold scaled
  split
  · rename_i hpower
    obtain ⟨k, rfl⟩ := Int.eq_ofNat_of_zero_le hpower
    simp
  · rename_i hpower
    obtain ⟨k, hk⟩ := Int.eq_ofNat_of_zero_le (show 0 ≤ -power by omega)
    obtain rfl : power = -(k : Int) := by omega
    simp

/-- How far below it a number stands for the fractions, in units of its last place. -/
def gap (x : Double) : ℚ :=
  if x.fraction = 0 && 1 < x.exponentField then 1 / 4 else 1 / 2

/-- The fraction is rounded to this number, from halfway to a neighbour if the significand is
even. -/
def Near (x : Double) (q : ℚ) : Prop :=
  let low : ℚ := (x.significand - x.gap) * 2 ^ x.exponent
  let high : ℚ := (x.significand + 1 / 2) * 2 ^ x.exponent
  if x.significand % 2 = 0 then low ≤ q ∧ q ≤ high else low < q ∧ q < high

theorem near_self (x : Double) : x.Near (x.significand * 2 ^ x.exponent) := by
  have hgap : 0 < x.gap := by
    unfold gap
    split <;> norm_num
  have hlow : (x.significand - x.gap) * 2 ^ x.exponent < x.significand * 2 ^ x.exponent := by
    gcongr
    linarith
  have hhigh : x.significand * 2 ^ x.exponent < (x.significand + 1 / 2 : ℚ) * 2 ^ x.exponent := by
    gcongr
    linarith
  unfold Near
  dsimp only
  split
  · exact ⟨hlow.le, hhigh.le⟩
  · exact ⟨hlow, hhigh⟩

theorem value_exact (x : Double) : x.exact.value = x.significand * 2 ^ x.exponent := by
  unfold exact Decimal.value
  split
  · rename_i hexponent
    obtain ⟨k, hk⟩ := Int.eq_ofNat_of_zero_le hexponent
    simp [hk]
  · rename_i hexponent
    obtain ⟨k, hk⟩ := Int.eq_ofNat_of_zero_le (show 0 ≤ -x.exponent by omega)
    obtain hk' : x.exponent = -(k : Int) := by omega
    have hten : (10 : ℚ) ^ k = 5 ^ k * 2 ^ k := by rw [← mul_pow]; norm_num
    simp only [hk', neg_neg, Int.toNat_natCast, Nat.pow_eq, Nat.cast_mul, Nat.cast_pow, zpow_neg,
      zpow_natCast, hten]
    push_cast
    field_simp

/-- The ends of the interval of a number. -/
theorem interval_eq (hzero : x.magnitude ≠ 0) : 0 < x.interval.den
    ∧ (x.interval.low : ℚ) / x.interval.den = (x.significand - x.gap) * 2 ^ x.exponent
    ∧ (x.interval.high : ℚ) / x.interval.den = (x.significand + 1 / 2) * 2 ^ x.exponent := by
  have hunit : ((scaled 2 (x.exponent - 2) 1 1).1 : ℚ) / (scaled 2 (x.exponent - 2) 1 1).2
      = 2 ^ x.exponent / 4 := by
    rw [scaled_eq, zpow_sub₀ (by norm_num)]
    norm_num
  have hsignificand : 0 < x.significand := by
    unfold significand
    split
    · rename_i hfield
      have hmagnitude : x.fraction = x.magnitude := by
        rw [← Nat.div_add_mod x.magnitude (Nat.pow 2 52), show _ / _ = 0 from hfield, mul_zero,
          zero_add, fraction]
      exact hmagnitude ▸ Nat.pos_of_ne_zero hzero
    · exact Nat.add_pos_right _ (Nat.pow_pos (by decide))
  have hlow : x.interval.low = (4 * x.significand - if x.fraction = 0 && 1 < x.exponentField
    then 1 else 2) * (scaled 2 (x.exponent - 2) 1 1).1 := rfl
  have hhigh : x.interval.high
    = (4 * x.significand + 2) * (scaled 2 (x.exponent - 2) 1 1).1 := rfl
  have hden : x.interval.den = (scaled 2 (x.exponent - 2) 1 1).2 := rfl
  rw [hlow, hhigh, hden, Nat.cast_mul, Nat.cast_mul, mul_div_assoc, mul_div_assoc, hunit, gap]
  refine ⟨scaled_pos (by decide) _, ?_, ?_⟩
  · split
    all_goals
      rw [Nat.cast_sub (by omega)]
      push_cast
      ring
  · push_cast
    ring

theorem contains_interval_iff (hzero : x.magnitude ≠ 0) (hden : 0 < den) :
    x.interval.contains num den = true ↔ x.Near (num / den) := by
  obtain ⟨hpos, hlow, hhigh⟩ := interval_eq hzero
  have hden : (0 : ℚ) < den := by exact_mod_cast hden
  have hpos : (0 : ℚ) < x.interval.den := by exact_mod_cast hpos
  have hclosed : x.interval.closed = (x.significand % 2 == 0) := rfl
  unfold Near Interval.contains
  rw [← hlow, ← hhigh, hclosed]
  simp only [div_le_div_iff₀ hpos hden, div_le_div_iff₀ hden hpos, div_lt_div_iff₀ hpos hden,
    div_lt_div_iff₀ hden hpos]
  split <;> rename_i heven
  · rw [if_pos (beq_iff_eq.mp heven), Bool.and_eq_true, decide_eq_true_eq, decide_eq_true_eq]
    norm_cast
  · rw [if_neg (mt beq_iff_eq.mpr heven), Bool.and_eq_true, decide_eq_true_eq, decide_eq_true_eq]
    norm_cast

/-- Only decimals in the interval of the number are taken. -/
theorem near_of_decimalOfCount? {tie : Tie} {log : Int} {count : Nat} {d : Decimal}
    (hzero : x.magnitude ≠ 0) (h : decimalOfCount? tie x.interval log count = some d) :
    x.Near d.value := by
  have hinside : ∀ k power, x.interval.contains (k * (scaled 10 power 1 1).1)
      (scaled 10 power 1 1).2 = true → x.Near (Decimal.value ⟨k, power⟩) := by
    intro k power hcontains
    have hnear := (contains_interval_iff hzero (scaled_pos (by decide) power)).mp hcontains
    rwa [Nat.cast_mul, mul_div_assoc, scaled_eq] at hnear
  unfold decimalOfCount? at h
  dsimp only at h
  split at h
  · rename_i hfloor
    rw [← Option.some.inj h]
    exact hinside _ _ (Bool.and_eq_true_iff.mp hfloor).1
  · split at h
    · rename_i hnext
      rw [← Option.some.inj h]
      exact hinside _ _ hnext
    · cases h

/-- The number stands for its shortest decimal. -/
theorem near_shortest (hzero : x.magnitude ≠ 0) (tie : Tie) : x.Near (x.shortest tie).value := by
  unfold shortest
  dsimp only
  rw [Decimal.value_dropZeros]
  cases hbest : (List.range 17).findSome? _ with
  | none => exact x.value_exact ▸ x.near_self
  | some d =>
    obtain ⟨n, -, hd⟩ := List.exists_of_findSome?_eq_some hbest
    exact near_of_decimalOfCount? hzero hd

end Double

end EntityQuery
