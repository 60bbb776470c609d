import BlockLang.Binary.Double
import BlockLang.Binary.Shortest
import Mathlib.Algebra.Order.Field.Power
import Mathlib.Data.Rat.Floor
import Mathlib.Tactic.FieldSimp
import Mathlib.Tactic.Linarith
import Mathlib.Tactic.Positivity

/-! # Shortest digits in order

The shortest digits of a magnitude stay within the numbers that round to it. The magnitudes of a
format divide the line into such intervals, which meet in their ends at most, so shortest digits
are in the order of the magnitudes.
-/
namespace BlockLang

namespace Fraction

def value (x : Fraction) : ℚ :=
  x.num / x.den

theorem value_scale {base : Nat} (hb : base ≠ 0) (exponent : Int) (x : Fraction) :
    (x.scale base exponent).value = x.value * (base : ℚ) ^ exponent := by
  have hbase : (base : ℚ) ≠ 0 := by exact_mod_cast hb
  have hsplit : (base : ℚ) ^ exponent = base ^ exponent.toNat / base ^ (-exponent).toNat := by
    rw [← zpow_natCast, ← zpow_natCast, ← zpow_sub₀ hbase]
    congr 1
    omega
  rw [hsplit, value, value, scale, Nat.pow_eq, Nat.pow_eq]
  push_cast
  rw [mul_div_mul_comm]

theorem den_scale_pos {base : Nat} (hb : base ≠ 0) (exponent : Int) {x : Fraction}
    (hx : 0 < x.den) : 0 < (x.scale base exponent).den :=
  Nat.mul_pos hx (Nat.pow_pos (Nat.pos_of_ne_zero hb))

end Fraction

namespace Binary

def Magnitude.value (x : Magnitude) : ℚ :=
  x.significand * 2 ^ x.exponent

def Digits.value (x : Digits) : ℚ :=
  x.digits * 10 ^ x.exponent

theorem Magnitude.value_exactDigits (x : Magnitude) : x.exactDigits.value = x.value := by
  unfold exactDigits
  split_ifs with h
  · obtain ⟨n, hn⟩ := Int.eq_ofNat_of_zero_le h
    simp [Digits.value, value, hn]
  · obtain ⟨n, hn⟩ := Int.eq_ofNat_of_zero_le (by omega : 0 ≤ -x.exponent)
    have he : x.exponent = -n := by omega
    simp only [Digits.value, value, he, neg_neg, Int.toNat_natCast, zpow_neg, zpow_natCast,
      Nat.pow_eq]
    push_cast
    rw [show (10 : ℚ) = 5 * 2 by norm_num, mul_pow]
    field_simp

namespace Interval

variable {interval : Interval} {unit : Fraction} {point : Nat}

theorem bounds_of_contains (hunit : 0 < unit.den) (h : interval.contains unit point) :
    interval.lower * unit.value ≤ point ∧ point ≤ interval.upper * unit.value := by
  have hnat : interval.lower * unit.num ≤ point * unit.den ∧
      point * unit.den ≤ interval.upper * unit.num := by
    unfold contains at h
    split_ifs at h <;> simp only [Bool.and_eq_true, decide_eq_true_eq] at h <;> omega
  have hden : (0 : ℚ) < unit.den := by exact_mod_cast hunit
  rw [Fraction.value, mul_div_assoc', mul_div_assoc', div_le_iff₀ hden, le_div_iff₀ hden]
  exact_mod_cast hnat

theorem contains_of_point? (h : interval.point? unit = some point) :
    interval.contains unit point := by
  unfold point? at h
  dsimp only at h
  split at h
  · split_ifs at h <;> cases h <;> assumption
  · cases h
    assumption
  · cases h
    assumption
  · cases h

end Interval

namespace Format

/-- The magnitudes of a format: all bits are used unless the exponent is the least. -/
structure Has (format : Format) (x : Magnitude) : Prop where
  significand_lt : x.significand < 2 ^ format.precision
  minExponent_le : format.minExponent ≤ x.exponent
  normal : format.minExponent < x.exponent → 2 ^ (format.precision - 1) ≤ x.significand

/-- The lower end of the numbers that round to a magnitude. -/
def lower (format : Format) (x : Magnitude) : ℚ :=
  (format.interval x).lower * 2 ^ (x.exponent - 2)

/-- The upper end of the numbers that round to a magnitude. -/
def upper (format : Format) (x : Magnitude) : ℚ :=
  (format.interval x).upper * 2 ^ (x.exponent - 2)

variable {format : Format} {x y : Magnitude}

theorem value_quarter (x : Magnitude) : x.value = 4 * x.significand * 2 ^ (x.exponent - 2) := by
  rw [Magnitude.value, zpow_sub₀ two_ne_zero]
  norm_num
  ring

theorem lower_le_value (format : Format) (x : Magnitude) : format.lower x ≤ x.value := by
  rw [value_quarter, lower]
  apply mul_le_mul_of_nonneg_right _ (by positivity)
  have : (format.interval x).lower ≤ 4 * x.significand := by
    unfold interval
    dsimp only
    split_ifs <;> omega
  exact_mod_cast this

theorem value_le_upper (format : Format) (x : Magnitude) : x.value ≤ format.upper x := by
  rw [value_quarter, upper]
  apply mul_le_mul_of_nonneg_right _ (by positivity)
  simp [interval]

theorem bounds_shortestFrom (count : Nat) (exponent : Int) :
    format.lower x ≤ (shortestFrom (format.interval x) x count exponent).value ∧
      (shortestFrom (format.interval x) x count exponent).value ≤ format.upper x := by
  induction count generalizing exponent with
  | zero =>
    rw [shortestFrom, Magnitude.value_exactDigits]
    exact ⟨lower_le_value format x, value_le_upper format x⟩
  | succ count ih =>
    rw [shortestFrom]
    split
    · rename_i digits hpoint
      have hunit : (((Fraction.scale 2 (x.exponent - 2) ⟨1, 1⟩).scale 10 (-exponent)).value : ℚ) =
          2 ^ (x.exponent - 2) / 10 ^ exponent := by
        rw [Fraction.value_scale (by decide), Fraction.value_scale (by decide)]
        simp [Fraction.value, div_eq_mul_inv]
      obtain ⟨hl, hu⟩ := Interval.bounds_of_contains
        (Fraction.den_scale_pos (by decide) _ (Fraction.den_scale_pos (by decide) _ Nat.one_pos))
        (Interval.contains_of_point? hpoint)
      have hpow : (0 : ℚ) < 10 ^ exponent := by positivity
      rw [hunit, mul_div_assoc', div_le_iff₀ hpow] at hl
      rw [hunit, mul_div_assoc', le_div_iff₀ hpow] at hu
      exact ⟨hl, hu⟩
    · exact ih (exponent - 1)

theorem bounds_shortest (format : Format) (x : Magnitude) :
    format.lower x ≤ (format.shortest x).value ∧ (format.shortest x).value ≤ format.upper x := by
  unfold shortest
  split_ifs with hx
  · have hzero : Digits.value ⟨0, 0⟩ = x.value := by simp [Digits.value, Magnitude.value, hx]
    rw [hzero]
    exact ⟨lower_le_value format x, value_le_upper format x⟩
  · exact bounds_shortestFrom 20 x.decimalExponent

theorem lower_interval_ge (hp : 0 < format.precision) (hx : format.Has x)
    (h : format.minExponent < x.exponent) :
    2 * 2 ^ format.precision - 1 ≤ (format.interval x).lower := by
  have hnormal := hx.normal h
  have hpow : 2 ^ format.precision = 2 * 2 ^ (format.precision - 1) := by
    rw [← pow_succ', Nat.sub_add_cancel hp]
  unfold interval
  simp only [Nat.pow_eq]
  split_ifs with hnarrow <;> omega

theorem exponent_le_of_value_le (hp : 0 < format.precision) (hx : format.Has x)
    (hy : format.Has y) (h : x.value ≤ y.value) : x.exponent ≤ y.exponent := by
  by_contra hlt
  have hmin := hy.minExponent_le
  have hnormal := hx.normal (by omega)
  have hpow : 2 ^ format.precision = 2 * 2 ^ (format.precision - 1) := by
    rw [← pow_succ', Nat.sub_add_cancel hp]
  have hsig : y.significand < x.significand * 2 := by
    have := hy.significand_lt
    omega
  have hlt : (y.significand : ℚ) < x.significand * 2 := by exact_mod_cast hsig
  have hexp : (2 : ℚ) * 2 ^ y.exponent ≤ 2 ^ x.exponent := by
    rw [← zpow_one_add₀ two_ne_zero]
    exact zpow_le_zpow_right₀ one_le_two (by omega)
  have hpos : (0 : ℚ) < 2 ^ y.exponent := by positivity
  unfold Magnitude.value at h
  nlinarith

theorem eq_of_value_eq (hp : 0 < format.precision) (hx : format.Has x) (hy : format.Has y)
    (h : x.value = y.value) : x = y := by
  have he : x.exponent = y.exponent :=
    le_antisymm (exponent_le_of_value_le hp hx hy h.le) (exponent_le_of_value_le hp hy hx h.ge)
  unfold Magnitude.value at h
  rw [he, mul_left_inj' (by positivity), Nat.cast_inj] at h
  cases x
  cases y
  simp_all

/-- The numbers that round to a magnitude are not greater than those that round to a greater one. -/
theorem upper_le_lower (hp : 0 < format.precision) (hx : format.Has x) (hy : format.Has y)
    (h : x.value < y.value) : format.upper x ≤ format.lower y := by
  obtain he | he := Int.lt_or_eq_of_le (exponent_le_of_value_le hp hx hy h.le)
  · have hx' := hx.significand_lt
    have hmin := hx.minExponent_le
    have hlow := lower_interval_ge hp hy (by omega)
    have hup : (format.interval x).upper ≤ 2 * (format.interval y).lower := by
      unfold interval at *
      dsimp only at *
      omega
    have hexp : (2 : ℚ) * 2 ^ (x.exponent - 2) ≤ 2 ^ (y.exponent - 2) := by
      rw [← zpow_one_add₀ two_ne_zero]
      exact zpow_le_zpow_right₀ one_le_two (by omega)
    have hpos : (0 : ℚ) < 2 ^ (x.exponent - 2) := by positivity
    have hle : ((format.interval x).upper : ℚ) ≤ 2 * (format.interval y).lower := by
      exact_mod_cast hup
    unfold upper lower
    nlinarith
  · unfold Magnitude.value at h
    rw [he, mul_lt_mul_iff_left₀ (by positivity), Nat.cast_lt] at h
    unfold upper lower
    rw [he]
    apply mul_le_mul_of_nonneg_right _ (by positivity)
    rw [Nat.cast_le]
    unfold interval
    dsimp only
    split_ifs <;> omega

/-- Digits are less than those of a magnitude that is not the lower end of its interval if, and
only if, they belong to a lesser magnitude. -/
theorem shortest_lt_iff (hp : 0 < format.precision) (hx : format.Has x) (hy : format.Has y)
    (hlow : format.lower y < (format.shortest y).value) :
    (format.shortest x).value < (format.shortest y).value ↔ x.value < y.value := by
  obtain ⟨hlx, hux⟩ := bounds_shortest format x
  obtain ⟨-, huy⟩ := bounds_shortest format y
  rcases lt_trichotomy x.value y.value with h | h | h
  · have := upper_le_lower hp hx hy h
    exact iff_of_true (by linarith) h
  · rw [eq_of_value_eq hp hx hy h]
    simp
  · have := upper_le_lower hp hy hx h
    exact iff_of_false (by linarith) (by linarith)

end Format
end Binary

namespace Binary64
open Binary

theorem has_of_view {x : Binary64} {negative : Bool} {magnitude : Magnitude}
    (h : x.view = .finite negative magnitude) : double.Has magnitude := by
  unfold view at h
  simp only [Nat.pow_eq] at h
  have hfraction := Nat.mod_lt x.bits.toNat (show 0 < 2 ^ 52 by decide)
  split_ifs at h <;> cases h
  · exact ⟨Nat.lt_trans hfraction (by decide), Int.le_refl _, fun h => absurd h (Int.lt_irrefl _)⟩
  · rename_i hzero
    refine ⟨?_, ?_, fun _ => Nat.le_add_left _ _⟩
    · simp only [double]
      omega
    · simp only [double]
      omega

end Binary64

end BlockLang
