import BlockLang.Execution.State
import BlockLang.Proofs.Binary.Shortest
import BlockLang.Proofs.Decimal
import BlockLang.Proofs.Shape.Evaluation

/-! # Division by zero

The divisor of a division that is not of two integers is tested as a decimal. The decimal of a
real is read from its shortest digits and keeps 28 places, so that a real which is less than half
a unit of the last place becomes zero, and a division by it is refused as one by zero.
-/
namespace BlockLang

namespace Decimal

open Binary

theorem isZero_of_ofParts? {negative : Bool} {mantissa scale : Nat} {d : Decimal}
    (h : ofParts? negative mantissa scale = some d) : d.isZero ↔ mantissa = 0 := by
  rw [isZero, beq_iff_eq, (ofParts?_eq_some.1 h).2.1]

/-- Half a unit of the last place that a decimal can have. -/
def halfPlace : ℚ :=
  5 / 10 ^ 29

theorem ofDigits?_of_le (negative : Bool) {x : Digits} (h : -28 ≤ x.exponent) :
    ofDigits? negative x =
      ofParts? negative (x.digits * 10 ^ x.exponent.toNat) (-x.exponent).toNat := by
  have hscale : (-x.exponent).toNat ≤ maxScale := by
    simp only [maxScale]
    omega
  rw [ofDigits?, if_pos hscale, Nat.pow_eq]

theorem ofDigits?_of_lt (negative : Bool) {x : Digits} {n : Nat} (h : x.exponent = -(n + 29 : ℤ)) :
    ofDigits? negative x =
      ofParts? negative (if 5 ≤ x.digits / 10 ^ n % 10 then x.digits / 10 ^ n / 10 + 1
        else x.digits / 10 ^ n / 10) maxScale := by
  have hscale : (-x.exponent).toNat = n + 29 := by omega
  have hlt : ¬n + 29 ≤ maxScale := by
    simp only [maxScale]
    omega
  have hkept : n + 29 - maxScale = n + 1 := rfl
  rw [ofDigits?, hscale, if_neg hlt, hkept, Nat.add_sub_cancel, Nat.pow_eq, Nat.pow_eq, pow_succ,
    ← Nat.div_div_eq_div_mul]

/-- Digits become a zero if they are less than half a unit of the last place. -/
theorem isZero_ofDigits? {negative : Bool} {x : Digits} {d : Decimal}
    (h : ofDigits? negative x = some d) : d.isZero ↔ x.value < halfPlace := by
  by_cases hscale : -28 ≤ x.exponent
  · rw [ofDigits?_of_le _ hscale] at h
    rw [isZero_of_ofParts? h, Nat.mul_eq_zero, or_iff_left (by positivity)]
    by_cases hzero : x.digits = 0
    · simp [hzero, Digits.value, halfPlace]
    · have hone : (1 : ℚ) ≤ x.digits := by exact_mod_cast Nat.one_le_iff_ne_zero.2 hzero
      have hpow : (10 : ℚ) ^ (-28 : ℤ) ≤ 10 ^ x.exponent :=
        zpow_le_zpow_right₀ (by norm_num) hscale
      simp only [hzero, false_iff, not_lt]
      calc halfPlace ≤ 1 * 10 ^ (-28 : ℤ) := by norm_num [halfPlace]
        _ ≤ x.digits * 10 ^ x.exponent := mul_le_mul hone hpow (by positivity) (by positivity)
  · obtain ⟨n, hn⟩ : ∃ n : Nat, x.exponent = -(n + 29 : ℤ) := ⟨(-x.exponent).toNat - 29, by omega⟩
    rw [ofDigits?_of_lt _ hn] at h
    have hvalue : x.value = x.digits / 10 ^ n / 10 ^ 29 := by
      rw [Digits.value, hn, zpow_neg, zpow_add₀ (by norm_num), div_div, div_eq_mul_inv]
      norm_cast
    have hfive : x.value < halfPlace ↔ x.digits / 10 ^ n < 5 := by
      rw [hvalue, halfPlace, div_lt_div_iff_of_pos_right (by positivity),
        div_lt_iff₀ (by positivity), Nat.div_lt_iff_lt_mul (by positivity)]
      norm_cast
    rw [isZero_of_ofParts? h, hfive]
    generalize x.digits / 10 ^ n = kept
    split_ifs with hnext
    · simp only [false_iff]
      omega
    · omega

/-- The least magnitude whose decimal is not zero: in double precision it is the nearest one to
half a unit of the last place. -/
def leastDivisor : Magnitude :=
  double.nearest ⟨5, 10 ^ 29⟩

theorem leastDivisor_eq : leastDivisor = ⟨8920298079412249, -147⟩ := by
  decide +kernel

theorem has_leastDivisor : double.Has leastDivisor := by
  rw [leastDivisor_eq]
  exact ⟨by decide, by decide, fun _ => by decide⟩

theorem value_shortest_leastDivisor : (double.shortest leastDivisor).value = halfPlace := by
  have : double.shortest leastDivisor = ⟨5, -29⟩ := by decide +kernel
  rw [this]
  norm_num [Digits.value, halfPlace]

theorem lower_leastDivisor_lt : double.lower leastDivisor < halfPlace := by
  rw [leastDivisor_eq]
  norm_num [Format.lower, Format.interval, double, halfPlace]

/-! ## The numbers of values -/

end Decimal

def Binary64.number? (x : Binary64) : Option ℚ :=
  match x.view with
  | .finite negative magnitude => some (if negative then -magnitude.value else magnitude.value)
  | .infinite _ | .nan => none

def Value.number? : Value → Option ℚ
  | .int n => some n.toInt
  | .real x => x.number?
  | .bool _ | .text _ => none

namespace Decimal

theorem isZero_ofInt64 (n : Int64) :
    (ofInt64 n).isZero ↔ |(n.toInt : ℚ)| < leastDivisor.value := by
  have hleast : 0 < leastDivisor.value ∧ leastDivisor.value < 1 := by
    rw [leastDivisor_eq]
    norm_num [Binary.Magnitude.value]
  have hzero : (ofInt64 n).isZero ↔ n.toInt = 0 := by
    simp [isZero, ofInt64]
  rw [hzero]
  constructor
  · intro hn
    simp [hn, hleast.1]
  · intro hn
    have hone : |n.toInt| < 1 := by exact_mod_cast hn.trans hleast.2
    exact Int.abs_lt_one_iff.1 hone

theorem isZero_ofReal? {x : Binary64} {d : Decimal} (h : ofReal? x = some d) :
    ∃ number, x.number? = some number ∧ (d.isZero ↔ |number| < leastDivisor.value) := by
  unfold ofReal? at h
  split at h
  · rename_i negative magnitude hx
    obtain ⟨d, hd, rfl⟩ := Option.map_eq_some_iff.1 h
    refine ⟨_, by rw [Binary64.number?, hx], ?_⟩
    have hnonneg : 0 ≤ magnitude.value := by
      unfold Binary.Magnitude.value
      positivity
    have habs : |if negative then -magnitude.value else magnitude.value| = magnitude.value := by
      split_ifs <;> simp [abs_of_nonneg hnonneg]
    rw [isZero_unsignZero, isZero_ofDigits? hd, habs, ← value_shortest_leastDivisor]
    apply Binary.Format.shortest_lt_iff (by decide) (Binary64.has_of_view hx) has_leastDivisor
    rw [value_shortest_leastDivisor]
    exact lower_leastDivisor_lt
  · cases h
  · cases h

end Decimal

/-- The decimal of a number is zero if, and only if, the number is less than the least divisor. -/
theorem Value.isZero_decimal {value : Value} {line : Nat} {d : Decimal}
    (h : value.decimal line = .ok d) :
    ∃ number, value.number? = some number ∧
      (d.isZero ↔ |number| < Decimal.leastDivisor.value) := by
  cases value with
  | int n =>
    cases h
    exact ⟨_, rfl, Decimal.isZero_ofInt64 n⟩
  | real x =>
    simp only [decimal] at h
    cases hd : Decimal.ofReal? x with
    | none => simp [hd] at h
    | some other =>
      simp only [hd, Except.ok.injEq] at h
      exact h ▸ Decimal.isZero_ofReal? hd
  | bool => cases h
  | text => cases h

/-! ## Divisions -/

theorem Operator.onDecimals_divide_eq_divideByZero_iff (l r : Decimal) :
    divide.onDecimals l r = .error .divideByZero ↔ r.isZero := by
  by_cases h : r.isZero
  · simp [onDecimals, h]
  · cases hq : l.div? r <;> simp [onDecimals, h, hq]

theorem Operator.onIntegers_divide_eq_divideByZero_iff (l r : Int64) :
    divide.onIntegers l r = .error .divideByZero ↔ r = 0 := by
  by_cases h : r = 0
  · simp [onIntegers, h]
  · cases hq : Integer.ofInt? (divide.onInt l.toInt r.toInt) <;> simp [onIntegers, h, hq]

namespace Value

theorem settle_eq_error_iff {α : Type} {line : Nat} {wrap : α → Value}
    {result : Except ArithmeticError α} {error : ArithmeticError} :
    settle line wrap result = .error ⟨.arithmetic error, line⟩ ↔ result = .error error := by
  cases result <;> simp [settle]

/-- Both ways to divide agree on which divisors are zero. -/
theorem divide_eq_divideByZero_iff {line leftLine rightLine : Nat} {l r : Value} {a b : Decimal}
    (ha : l.decimal leftLine = .ok a) (hb : r.decimal rightLine = .ok b) :
    arithmetic .divide line leftLine rightLine l r = .error ⟨.arithmetic .divideByZero, line⟩ ↔
      b.isZero := by
  unfold arithmetic
  split
  · cases hb
    rw [settle_eq_error_iff, Operator.onIntegers_divide_eq_divideByZero_iff]
    simp [Decimal.isZero, Decimal.ofInt64, ← Int64.toInt_inj]
  · rw [ha, hb]
    change settle line .real (Operator.divide.onReals a b) = _ ↔ _
    rw [settle_eq_error_iff, ← Operator.onDecimals_divide_eq_divideByZero_iff a b, Operator.onReals]
    cases Operator.divide.onDecimals a b <;> simp [Except.map]

end Value

/-- A division of numbers is refused as one by zero if, and only if, the divisor is less than the
least divisor, whatever the kinds of the operands are. -/
theorem refuses_divisor_iff (state : State) (left right : Node) (line : Nat) {l r : Value}
    {a b : Decimal} (hl : state.evaluate left = .ok l) (hr : state.evaluate right = .ok r)
    (ha : l.decimal left.line = .ok a) (hb : r.decimal right.line = .ok b) :
    ∃ divisor, r.number? = some divisor ∧
      (state.evaluate ⟨.arithmetic, "/", line, [left, right]⟩ =
          .error ⟨.arithmetic .divideByZero, line⟩ ↔
        |divisor| < Decimal.leastDivisor.value) := by
  obtain ⟨divisor, hdivisor, hzero⟩ := Value.isZero_decimal hb
  refine ⟨divisor, hdivisor, ?_⟩
  have hdivide : state.evaluate ⟨.arithmetic, "/", line, [left, right]⟩ =
      state.evaluate left >>= fun l => state.evaluate right >>= fun r =>
        Value.arithmetic .divide line left.line right.line l r :=
    Store.evaluate_arithmetic .divide line left right
  rw [hdivide, hl, hr, ← hzero, ← Value.divide_eq_divideByZero_iff ha hb]
  rfl

/-- The divisor -0.0 is refused. -/
theorem refuses_negative_zero :
    let state := State.start (.ofFeed [])
    let left := Node.leaf .intLiteral "1" 1
    let right := Node.leaf .realLiteral "-0.0" 1
    ∃ l r a b, state.evaluate left = .ok l ∧ state.evaluate right = .ok r ∧
      l.decimal left.line = .ok a ∧ r.decimal right.line = .ok b ∧ r.number? = some 0 ∧
      state.evaluate ⟨.arithmetic, "/", 1, [left, right]⟩ =
        .error ⟨.arithmetic .divideByZero, 1⟩ := by
  intro state left right
  have hl : state.evaluate left = .ok (.int 1) := by decide +kernel
  have hr : state.evaluate right = .ok (.real ⟨0x8000000000000000⟩) := by decide +kernel
  have hview : (⟨0x8000000000000000⟩ : Binary64).view = .finite true ⟨0, -1074⟩ := rfl
  have hnumber : (Value.real ⟨0x8000000000000000⟩).number? = some 0 := by
    simp [Value.number?, Binary64.number?, hview, Binary.Magnitude.value]
  obtain ⟨b, hb⟩ : ∃ b, (Value.real ⟨0x8000000000000000⟩).decimal 1 = .ok b := ⟨_, rfl⟩
  obtain ⟨divisor, hdivisor, hrefused⟩ := refuses_divisor_iff state left right 1 hl hr rfl hb
  refine ⟨_, _, _, b, hl, hr, rfl, hb, hnumber, hrefused.2 ?_⟩
  cases hnumber.symm.trans hdivisor
  rw [abs_zero, Decimal.leastDivisor_eq, Binary.Magnitude.value]
  positivity

/-- A divisor that is not zero and that is refused: 4e-29, written out. -/
theorem refuses_small_divisor :
    let state := State.start (.ofFeed [])
    let left := Node.leaf .intLiteral "1" 1
    let right := Node.leaf .realLiteral "0.00000000000000000000000000004" 1
    ∃ l r a b divisor, state.evaluate left = .ok l ∧ state.evaluate right = .ok r ∧
      l.decimal left.line = .ok a ∧ r.decimal right.line = .ok b ∧
      r.number? = some divisor ∧ divisor ≠ 0 ∧
      state.evaluate ⟨.arithmetic, "/", 1, [left, right]⟩ =
        .error ⟨.arithmetic .divideByZero, 1⟩ := by
  intro state left right
  have hl : state.evaluate left = .ok (.int 1) := by decide +kernel
  have hr : state.evaluate right = .ok (.real ⟨4181973093035979591⟩) := by decide +kernel
  have hview : (⟨4181973093035979591⟩ : Binary64).view = .finite false ⟨7136238463529799, -147⟩ :=
    rfl
  have hsome : (Decimal.ofReal? ⟨4181973093035979591⟩).isSome := by decide +kernel
  obtain ⟨b, hb⟩ := Option.isSome_iff_exists.1 hsome
  refine ⟨_, _, _, b, 7136238463529799 * 2 ^ (-147 : ℤ), hl, hr, rfl, ?_, ?_, by positivity, ?_⟩
  · simp only [Value.decimal, hb]
  · simp [Value.number?, Binary64.number?, hview, Binary.Magnitude.value]
  · decide +kernel

end BlockLang
