import BlockLang.Decimal
import Mathlib.Data.Rat.Floor
import Mathlib.Tactic.FieldSimp
import Mathlib.Tactic.Linarith
import Mathlib.Tactic.Positivity

/-! # Values of decimals

A decimal stands for its signed mantissa divided by a power of ten. Every 64-bit integer is the
value of a decimal, and decimals are compared by their values.
-/
namespace BlockLang.Decimal

def value (x : Decimal) : ℚ :=
  x.signed / 10 ^ x.scale

variable {x y : Decimal}

theorem value_eq (x : Decimal) :
    x.value = (if x.negative then -1 else 1) * (x.mantissa / 10 ^ x.scale) := by
  unfold value signed
  split_ifs <;> push_cast <;> ring

theorem value_ne_zero : x.value ≠ 0 ↔ 0 < x.mantissa := by
  rw [value_eq, Nat.pos_iff_ne_zero]
  split_ifs <;> simp

@[simp] theorem value_zero : zero.value = 0 := by
  simp [value, signed, zero]

@[simp] theorem value_unsignZero (x : Decimal) : x.unsignZero.value = x.value := by
  by_cases h : x.mantissa = 0 <;> simp [value, signed, unsignZero, isZero, h]

@[simp] theorem isZero_unsignZero (x : Decimal) : x.unsignZero.isZero = x.isZero :=
  rfl

theorem ofParts?_eq_some {negative : Bool} {mantissa scale : Nat} :
    ofParts? negative mantissa scale = some x ↔
      x.negative = negative ∧ x.mantissa = mantissa ∧ x.scale = scale := by
  unfold ofParts?
  split_ifs with h
  · cases x
    simp [eq_comm]
  · have hlt := x.mantissa_lt
    have hle := x.scale_le
    simp only [false_iff, not_and]
    rintro - rfl rfl
    exact h ⟨hlt, hle⟩

theorem exists_ofParts? (negative : Bool) {mantissa scale : Nat} (hm : mantissa < capacity)
    (hs : scale ≤ maxScale) : ∃ x, ofParts? negative mantissa scale = some x := by
  rw [ofParts?, dif_pos ⟨hm, hs⟩]
  exact ⟨_, rfl⟩

/-! ## Integers and comparison -/

theorem value_ofInt64 (n : Int64) : (ofInt64 n).value = n.toInt := by
  have hsigned : (ofInt64 n).signed = n.toInt := by
    simp only [signed, ofInt64, Int64.lt_iff_toInt_lt, Int64.toInt_zero, decide_eq_true_eq]
    split_ifs <;> omega
  rw [value, hsigned]
  simp [ofInt64]

theorem atScale_eq {scale : Nat} (h : x.scale ≤ scale) :
    (x.atScale scale : ℚ) = x.value * 10 ^ scale := by
  have hsplit : (10 : ℚ) ^ scale = 10 ^ x.scale * 10 ^ (scale - x.scale) := by
    rw [← pow_add, Nat.add_sub_cancel' h]
  rw [atScale, value, hsplit, Nat.pow_eq]
  push_cast
  field_simp

theorem eqv_iff (x y : Decimal) : x.eqv y ↔ x.value = y.value := by
  have hunit : (10 : ℚ) ^ max x.scale y.scale ≠ 0 := by positivity
  rw [eqv, beq_iff_eq, ← Int.cast_inj (α := ℚ), atScale_eq (le_max_left _ _),
    atScale_eq (le_max_right _ _), mul_left_inj' hunit]

theorem lt_iff (x y : Decimal) : x.lt y ↔ x.value < y.value := by
  have hunit : (0 : ℚ) < 10 ^ max x.scale y.scale := by positivity
  rw [lt, decide_eq_true_eq, ← Int.cast_lt (R := ℚ), atScale_eq (le_max_left _ _),
    atScale_eq (le_max_right _ _), mul_lt_mul_iff_left₀ hunit]

end BlockLang.Decimal
