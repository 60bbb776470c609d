import BlockLang.Rounding
import Mathlib.Data.Rat.Floor
import Mathlib.Tactic.FieldSimp
import Mathlib.Tactic.Linarith
import Mathlib.Tactic.Positivity

/-! # Rounded quotients

A rounded quotient is at most half a unit away from the exact one. To round twice, first to a
finer unit and then to the coarser one, is in general not the same as to round once. It is the
same if the finer unit is small against the denominator, whatever becomes of ties at the first
time.
-/
namespace BlockLang

variable {den : Nat}

theorem roundDiv_bounds (tie : Tie) (num : Nat) (h : 0 < den) :
    2 * (den * roundDiv tie num den) ≤ 2 * num + den ∧
      2 * num ≤ 2 * (den * roundDiv tie num den) + den := by
  have hnum := Nat.div_add_mod num den
  have hrest := Nat.mod_lt num h
  have hup : den * (num / den + 1) = den * (num / den) + den := Nat.mul_succ _ _
  have heven : den * (num / den + num / den % 2) = den * (num / den) ∨
      den * (num / den + num / den % 2) = den * (num / den) + den := by
    rcases Nat.mod_two_eq_zero_or_one (num / den) with he | he
    · exact .inl (by rw [he, Nat.add_zero])
    · exact .inr (by rw [he, hup])
  unfold roundDiv
  cases tie <;> dsimp only <;> split_ifs <;> omega

/-- To round a half away from zero is to add a half and to drop the fraction. -/
theorem roundDiv_away (num : Nat) (h : 0 < den) :
    roundDiv .away num den = (2 * num + den) / (2 * den) := by
  have hnum := Nat.div_add_mod num den
  have hrest := Nat.mod_lt num h
  have hhalf : 2 * num + den = 2 * (num % den) + den + 2 * den * (num / den) := by
    rw [Nat.mul_assoc]
    omega
  rw [hhalf, Nat.add_mul_div_left _ _ (by omega)]
  by_cases hdown : 2 * (num % den) < den
  · rw [Nat.div_eq_of_lt (by omega)]
    simp [roundDiv, hdown]
  · have hone : (2 * (num % den) + den) / (2 * den) = 1 := by
      rw [Nat.div_eq_iff (by omega)]
      omega
    rw [hone]
    simp [roundDiv, hdown, Nat.add_comm]

theorem roundDiv_mul_right (tie : Tie) (num den : Nat) {c : Nat} (hc : 0 < c) :
    roundDiv tie (num * c) (den * c) = roundDiv tie num den := by
  have hlt (a b : Nat) : 2 * (a * c) < b * c ↔ 2 * a < b := by
    rw [← Nat.mul_assoc, Nat.mul_lt_mul_right hc]
  have hgt (a b : Nat) : b * c < 2 * (a * c) ↔ b < 2 * a := by
    rw [← Nat.mul_assoc, Nat.mul_lt_mul_right hc]
  simp only [roundDiv, Nat.mul_div_mul_right _ _ hc, Nat.mul_mod_mul_right, hlt, hgt]

theorem roundDiv_le (tie : Tie) (num : Nat) (h : 0 < den) : roundDiv tie num den ≤ num := by
  obtain ⟨hle, -⟩ := roundDiv_bounds tie num h
  by_contra hlt
  have hmul : den * (num + 1) ≤ den * roundDiv tie num den :=
    Nat.mul_le_mul_left den (Nat.lt_of_not_le hlt)
  have hden : num ≤ den * num := Nat.le_mul_of_pos_left num h
  rw [Nat.mul_succ] at hmul
  omega

/-- A quotient of denominator `den` is a tie or at least `1 / (2 * den)` away from all ties, and
a unit that is divided into more than `den` parts is not moved that far by rounding to a part. As
the parts of a unit are even in number, a tie is met exactly. -/
theorem roundDiv_roundDiv (tie : Tie) (num : Nat) {parts : Nat} (h : 0 < den)
    (heven : parts % 2 = 0) (hfine : den < parts) :
    roundDiv .away (roundDiv tie (num * parts) den) parts = roundDiv .away num den := by
  obtain ⟨hle, hge⟩ := roundDiv_bounds tie (num * parts) h
  generalize roundDiv tie (num * parts) den = finer at hle hge
  rw [roundDiv_away finer (by omega), roundDiv_away num h]
  have hlow := Nat.div_mul_le_self (2 * num + den) (2 * den)
  have hhigh := Nat.lt_div_mul_add (a := 2 * num + den) (show 0 < 2 * den by omega)
  generalize (2 * num + den) / (2 * den) = k at hlow hhigh
  apply Nat.div_eq_of_lt_le
  · by_contra hlt
    have hparity : 2 * finer + parts + 2 ≤ 2 * (k * parts) := by
      rw [Nat.mul_left_comm] at hlt
      omega
    nlinarith [Nat.mul_le_mul_left den hparity, Nat.mul_le_mul_right parts hlow]
  · by_contra hup
    nlinarith [Nat.mul_le_mul_left den (Nat.le_of_not_lt hup),
      Nat.mul_le_mul_right parts (Nat.succ_le_of_lt hhigh)]

/-! ## Rational numbers -/

/-- The nearest whole number; a half goes away from zero. -/
def halfAway (x : ℚ) : ℤ :=
  if 0 ≤ x then ⌊x + 1 / 2⌋ else ⌈x - 1 / 2⌉

theorem halfAway_neg (x : ℚ) : halfAway (-x) = -halfAway x := by
  unfold halfAway
  rcases lt_trichotomy x 0 with hx | rfl | hx
  · rw [if_pos (by linarith), if_neg (by linarith), ← Int.floor_neg]
    congr 1
    ring
  · norm_num
  · rw [if_neg (by linarith), if_pos (by linarith), ← Int.ceil_neg]
    congr 1
    ring

theorem halfAway_div (num : Nat) (h : 0 < den) :
    halfAway (num / den) = roundDiv .away num den := by
  have hsum : (num / den + 1 / 2 : ℚ) =
      ((2 * num + den : Nat) : ℚ) / ((2 * den : Nat) : ℚ) := by
    push_cast
    field_simp
  rw [halfAway, if_pos (by positivity), hsum, Rat.floor_natCast_div_natCast, roundDiv_away num h]
  simp

end BlockLang
