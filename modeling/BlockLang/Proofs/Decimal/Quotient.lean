import BlockLang.Decimal.Arithmetic
import BlockLang.Proofs.Decimal
import BlockLang.Proofs.Rounding

/-! # Quotients of decimals

A quotient is rounded twice: to as many places as fit, a half to even, and then to three places,
a half away from zero. If both operands, brought to one scale, leave room for four more digits,
the first rounding does not show: the quotient keeps so many places that it cannot be moved onto
a tie of the second rounding or past one.
-/
namespace BlockLang.Decimal

def QuotientFits (num den scale : Nat) : Prop :=
  roundDiv .even (num * 10 ^ scale) den < capacity

variable {num den scale : Nat}

/-! ## The first rounding -/

/-- Of the scales at which it fits, a quotient has the greatest one. -/
theorem exists_quotientFrom (negative : Bool) (hs : scale ≤ maxScale)
    (hfits : ∃ s ≤ scale, QuotientFits num den s) :
    ∃ q, quotientFrom negative num den scale = some q ∧ q.negative = negative ∧
      q.mantissa = roundDiv .even (num * 10 ^ q.scale) den ∧
      ∀ s ≤ scale, QuotientFits num den s → s ≤ q.scale := by
  induction scale with
  | zero =>
    obtain ⟨s, hle, hfit⟩ := hfits
    obtain rfl : s = 0 := Nat.le_zero.1 hle
    have hfit : roundDiv .even num den < capacity := by simpa [QuotientFits] using hfit
    obtain ⟨q, hq⟩ := exists_ofParts? negative hfit hs
    obtain ⟨hn, hm, hscale⟩ := ofParts?_eq_some.1 hq
    exact ⟨q, hq, hn, by simp [hm, hscale], fun s hs _ => hscale ▸ hs⟩
  | succ scale ih =>
    rw [quotientFrom, Nat.pow_eq]
    by_cases hfit : QuotientFits num den (scale + 1)
    · obtain ⟨q, hq⟩ := exists_ofParts? negative hfit hs
      obtain ⟨hn, hm, hscale⟩ := ofParts?_eq_some.1 hq
      rw [hq]
      exact ⟨q, rfl, hn, by rw [hm, hscale], fun s hs _ => hscale ▸ hs⟩
    · have hbelow (s : Nat) (hle : s ≤ scale + 1) (hs : QuotientFits num den s) : s ≤ scale := by
        apply Nat.le_of_lt_succ (lt_of_le_of_ne hle _)
        rintro rfl
        exact hfit hs
      obtain ⟨s, hle, hs'⟩ := hfits
      obtain ⟨q, hq, hn, hm, hmax⟩ := ih (Nat.le_of_succ_le hs) ⟨s, hbelow s hle hs', hs'⟩
      have hnone : ofParts? negative (roundDiv .even (num * 10 ^ (scale + 1)) den) (scale + 1) =
          none := by
        rw [ofParts?, dif_neg fun h => hfit h.1]
      rw [hnone, Option.none_or]
      exact ⟨q, hq, hn, hm, fun s hle hs => hmax s (hbelow s hle hs) hs⟩

theorem quotientFits_mul_right {c : Nat} (hc : 0 < c) (scale : Nat) :
    QuotientFits (num * c) (den * c) scale ↔ QuotientFits num den scale := by
  rw [QuotientFits, QuotientFits, Nat.mul_right_comm, roundDiv_mul_right _ _ _ hc]

theorem quotientFits_four (hden : 0 < den) (hnum : 10 ^ 4 * num < capacity) :
    QuotientFits num den 4 :=
  Nat.lt_of_le_of_lt (roundDiv_le _ _ hden) (Nat.mul_comm num _ ▸ hnum)

/-- At the greatest scale at which a quotient of small operands fits, a unit of the third place has
more parts than the denominator. -/
theorem den_lt_of_greatest (hden : 0 < den) (hnum : 10 ^ 4 * num < capacity)
    (hsmall : 10 ^ 4 * den < capacity) (hs : scale ≤ maxScale)
    (hmax : ∀ s ≤ maxScale, QuotientFits num den s → s ≤ scale) :
    4 ≤ scale ∧ den < 10 ^ (scale - 3) := by
  have hfour : 4 ≤ scale := hmax 4 (by decide) (quotientFits_four hden hnum)
  refine ⟨hfour, ?_⟩
  obtain rfl | hlt := Nat.eq_or_lt_of_le hs
  · simp only [capacity, maxScale] at *
    omega
  · have hover : capacity ≤ roundDiv .even (num * 10 ^ (scale + 1)) den := by
      by_contra hfit
      exact absurd (hmax (scale + 1) hlt (Nat.lt_of_not_le hfit)) (by omega)
    obtain ⟨hle, -⟩ := roundDiv_bounds .even (num * 10 ^ (scale + 1)) hden
    have hgreat : 2 * (den * capacity) ≤ 2 * (num * 10 ^ (scale + 1)) + den := by
      have := Nat.mul_le_mul_left den hover
      omega
    have hpow : 10 ^ (scale + 1) = 10 ^ 4 * 10 ^ (scale - 3) := by
      rw [← pow_add]
      congr 1
      omega
    by_contra hge
    rw [hpow] at hgreat
    generalize 10 ^ (scale - 3) = unit at *
    simp only [capacity] at *
    nlinarith

/-! ## The second rounding -/

theorem exists_roundPlaces {x : Decimal} (h : quotientPlaces < x.scale) :
    ∃ y, x.roundPlaces = some y ∧ y.negative = x.negative ∧ y.scale = quotientPlaces ∧
      y.mantissa = roundDiv .away x.mantissa (10 ^ (x.scale - quotientPlaces)) := by
  have hfit : roundDiv .away x.mantissa (10 ^ (x.scale - quotientPlaces)) < capacity :=
    Nat.lt_of_le_of_lt (roundDiv_le _ _ (by positivity)) x.mantissa_lt
  obtain ⟨y, hy⟩ := exists_ofParts? x.negative hfit (by decide : quotientPlaces ≤ maxScale)
  obtain ⟨hn, hm, hs⟩ := ofParts?_eq_some.1 hy
  rw [roundPlaces, if_neg (Nat.not_le.2 h), Nat.pow_eq, hy]
  exact ⟨y, rfl, hn, hs, hm⟩

theorem even_ten_pow {n : Nat} (h : 0 < n) : 10 ^ n % 2 = 0 := by
  obtain ⟨k, rfl⟩ := Nat.exists_eq_succ_of_ne_zero (Nat.ne_of_gt h)
  rw [Nat.pow_succ]
  omega

/-- A common factor of the operands, such as that of their scales, does not matter. -/
theorem exists_rounded_quotient (negative : Bool) {c : Nat} (hc : 0 < c) (hden : 0 < den)
    (hnum : 10 ^ 4 * num < capacity) (hsmall : 10 ^ 4 * den < capacity) :
    ∃ q p, quotientFrom negative (num * c) (den * c) maxScale = some q ∧
      q.roundPlaces = some p ∧ p.negative = negative ∧ p.scale = 3 ∧
      p.mantissa = roundDiv .away (num * 10 ^ 3) den := by
  have hfour := (quotientFits_mul_right hc 4).2 (quotientFits_four hden hnum)
  obtain ⟨q, hq, hneg, hm, hmax⟩ :=
    exists_quotientFrom negative (Nat.le_refl maxScale) ⟨4, by decide, hfour⟩
  obtain ⟨hscale, hfine⟩ := den_lt_of_greatest hden hnum hsmall q.scale_le fun s hs hfit =>
    hmax s hs ((quotientFits_mul_right hc s).2 hfit)
  obtain ⟨p, hp, hn, hs, hrounded⟩ :=
    exists_roundPlaces (x := q) (by simp only [quotientPlaces]; omega)
  refine ⟨q, p, hq, hp, hn.trans hneg, hs, ?_⟩
  have hpow : 10 ^ q.scale = 10 ^ 3 * 10 ^ (q.scale - 3) := by
    rw [← pow_add, Nat.add_sub_cancel' (by omega)]
  have hsplit : num * c * 10 ^ q.scale = num * 10 ^ 3 * 10 ^ (q.scale - 3) * c := by
    rw [hpow]
    ring
  rw [hrounded, hm, hsplit, roundDiv_mul_right _ _ _ hc]
  exact roundDiv_roundDiv _ _ hden (even_ten_pow (by omega)) hfine

/-! ## Exact quotients -/

theorem mul_pow_eq (m s t : Nat) : m * 10 ^ s = m * 10 ^ (s - t) * 10 ^ min s t := by
  rw [Nat.mul_assoc, ← pow_add, Nat.sub_add_min_cancel]

/-- The quotient of the mantissas, brought to one scale, with the sign of the quotient. -/
theorem value_div (x y : Decimal) : x.value / y.value =
    (if x.negative != y.negative then -1 else 1) *
      (((x.mantissa * 10 ^ (y.scale - x.scale) : Nat) : ℚ) /
        (y.mantissa * 10 ^ (x.scale - y.scale) : Nat)) := by
  have hx := mul_pow_eq x.mantissa y.scale x.scale
  have hy := mul_pow_eq y.mantissa x.scale y.scale
  rw [Nat.min_comm] at hy
  have hunit : ((10 ^ min y.scale x.scale : Nat) : ℚ) ≠ 0 := by positivity
  have hmantissas : (x.mantissa / 10 ^ x.scale / (y.mantissa / 10 ^ y.scale) : ℚ) =
      ((x.mantissa * 10 ^ (y.scale - x.scale) : Nat) : ℚ) /
        (y.mantissa * 10 ^ (x.scale - y.scale) : Nat) := by
    calc (x.mantissa / 10 ^ x.scale / (y.mantissa / 10 ^ y.scale) : ℚ)
        = ((x.mantissa * 10 ^ y.scale : Nat) : ℚ) / (y.mantissa * 10 ^ x.scale : Nat) := by
          rw [div_div_div_eq, mul_comm (10 ^ x.scale : ℚ)]
          push_cast
          rfl
      _ = _ := by
          rw [hx, hy, Nat.cast_mul (x.mantissa * _), Nat.cast_mul (y.mantissa * _),
            mul_div_mul_right _ _ hunit]
  rw [value_eq, value_eq, mul_div_mul_comm, hmantissas]
  cases x.negative <;> cases y.negative <;> norm_num

theorem halfAway_value_div {x y : Decimal} (hy : 0 < y.mantissa) :
    (halfAway (x.value / y.value * 10 ^ 3) : ℚ) =
      (if x.negative != y.negative then -1 else 1) *
        roundDiv .away (x.mantissa * 10 ^ (y.scale - x.scale) * 10 ^ 3)
          (y.mantissa * 10 ^ (x.scale - y.scale)) := by
  have hden : 0 < y.mantissa * 10 ^ (x.scale - y.scale) := by positivity
  have hthousandths : x.value / y.value * 10 ^ 3 =
      (if x.negative != y.negative then -1 else 1) *
        (((x.mantissa * 10 ^ (y.scale - x.scale) * 10 ^ 3 : Nat) : ℚ) /
          (y.mantissa * 10 ^ (x.scale - y.scale) : Nat)) := by
    rw [value_div]
    push_cast
    ring
  rw [hthousandths]
  split_ifs
  · rw [neg_one_mul, halfAway_neg, halfAway_div _ hden]
    simp
  · rw [one_mul, halfAway_div _ hden]
    simp

/-- If the mantissas of two decimals, brought to one scale, are small, their quotient is the exact
one, rounded once to three places and with a half away from zero. -/
theorem quotient_rounds_once (x y : Decimal) (hy : y.value ≠ 0)
    (hnum : 10 ^ 4 * (x.mantissa * 10 ^ (y.scale - x.scale)) < 2 ^ 96)
    (hden : 10 ^ 4 * (y.mantissa * 10 ^ (x.scale - y.scale)) < 2 ^ 96) :
    ∃ quotient, Operator.divide.onDecimals x y = .ok quotient ∧
      quotient.value = halfAway (x.value / y.value * 10 ^ 3) / 10 ^ 3 := by
  have hpos := value_ne_zero.1 hy
  have hne := Nat.ne_of_gt hpos
  obtain ⟨q, p, hq, hp, hneg, hscale, hm⟩ := exists_rounded_quotient (x.negative != y.negative)
    (c := 10 ^ min y.scale x.scale) (by positivity)
    (show 0 < y.mantissa * 10 ^ (x.scale - y.scale) by positivity) hnum hden
  rw [← mul_pow_eq, Nat.min_comm, ← mul_pow_eq] at hq
  rw [halfAway_value_div hpos, ← hm]
  by_cases hx : x.mantissa = 0
  · have hp0 : p.mantissa = 0 := by
      rw [hm, hx, Nat.zero_mul, Nat.zero_mul]
      exact Nat.le_zero.1 (roundDiv_le _ _ (by positivity))
    refine ⟨zero, ?_, by simp [hp0]⟩
    simp [Operator.onDecimals, div?, isZero, hx, hne]
  · refine ⟨p.unsignZero, ?_, ?_⟩
    · simp [Operator.onDecimals, div?, isZero, hx, hne, hq, hp]
    · rw [value_unsignZero, value_eq, hneg, hscale, mul_div_assoc]

/-- A tie below zero: minus one sixteenth is -0.0625. -/
theorem quotient_of_tie :
    let x := ofInt64 (-1)
    let y := ofInt64 16
    y.value ≠ 0 ∧ 10 ^ 4 * (x.mantissa * 10 ^ (y.scale - x.scale)) < 2 ^ 96 ∧
      10 ^ 4 * (y.mantissa * 10 ^ (x.scale - y.scale)) < 2 ^ 96 ∧
      ∃ quotient, Operator.divide.onDecimals x y = .ok quotient ∧ quotient.value = -63 / 1000 := by
  intro x y
  have hy : y.value ≠ 0 := value_ne_zero.2 (by decide)
  have hnum : 10 ^ 4 * (x.mantissa * 10 ^ (y.scale - x.scale)) < 2 ^ 96 := by decide
  have hden : 10 ^ 4 * (y.mantissa * 10 ^ (x.scale - y.scale)) < 2 ^ 96 := by decide
  obtain ⟨quotient, hq, hv⟩ := quotient_rounds_once x y hy hnum hden
  have hx : x.value = -1 := by
    simp [x, value_ofInt64]
  have hy' : y.value = 16 := by
    simp [y, value_ofInt64]
  have hhalf : halfAway (-1 / 16 * 10 ^ 3) = -63 := by norm_num [halfAway]
  rw [hx, hy', hhalf] at hv
  exact ⟨hy, hnum, hden, quotient, hq, by rw [hv]; norm_num⟩

end BlockLang.Decimal
