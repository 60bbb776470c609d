import BlockLang.Arithmetic
import BlockLang.Decimal

/-! # Decimal arithmetic

Sums and products are exact before they are fitted. A quotient has the greatest
scale at which it fits and is then rounded to three places, a half away from
zero.
-/
namespace BlockLang.Decimal

/-- The sum; nothing is rounded if an operand is zero, and a zero sum has no sign. -/
def add? (x y : Decimal) : Option Decimal :=
  if x.isZero then
    some y.unsignZero
  else if y.isZero then
    some x
  else
    let scale := max x.scale y.scale
    let sum := x.atScale scale + y.atScale scale
    fit (sum < 0) sum.natAbs scale

/-- Mantissas below this bound are multiplied in one machine word. -/
private def smallMantissa : Nat :=
  0x100000000

/-- The product. A product that rounds to zero keeps its sign only if a mantissa is large,
and one of small mantissas with more than 47 places is zero outright. -/
def mul? (x y : Decimal) : Option Decimal :=
  let small := x.mantissa < smallMantissa ∧ y.mantissa < smallMantissa
  if x.isZero || y.isZero then
    some zero
  else if small ∧ 47 < x.scale + y.scale then
    some zero
  else
    (fit (x.negative != y.negative) (x.mantissa * y.mantissa) (x.scale + y.scale)).map
      fun product => if small then product.unsignZero else product

/-- The quotient of two naturals at the greatest scale up to the given one at which it fits. -/
def quotientFrom (negative : Bool) (num den : Nat) : (scale : Nat) → Option Decimal
  | 0 => ofParts? negative (roundDiv .even num den) 0
  | scale + 1 =>
    (ofParts? negative (roundDiv .even (num * Nat.pow 10 (scale + 1)) den) (scale + 1)).or
      (quotientFrom negative num den scale)

def quotientPlaces : Nat :=
  3

/-- Rounds to the places of a quotient, a half away from zero. -/
def roundPlaces (x : Decimal) : Option Decimal :=
  if x.scale ≤ quotientPlaces then
    some x
  else
    ofParts? x.negative (roundDiv .away x.mantissa (Nat.pow 10 (x.scale - quotientPlaces)))
      quotientPlaces

/-- The quotient by a decimal that is not zero; a zero quotient has no sign. -/
def div? (x y : Decimal) : Option Decimal :=
  if x.isZero then
    some zero
  else
    (quotientFrom (x.negative != y.negative) (x.mantissa * Nat.pow 10 y.scale)
      (y.mantissa * Nat.pow 10 x.scale) maxScale).bind fun quotient =>
        quotient.roundPlaces.map unsignZero

end BlockLang.Decimal

namespace BlockLang.Operator

def onDecimals (op : Operator) (l r : Decimal) : Except ArithmeticError Decimal :=
  if op = .divide ∧ r.isZero then
    .error .divideByZero
  else
    let result := match op with
      | .add => l.add? r
      | .subtract => l.add? r.neg
      | .multiply => l.mul? r
      | .divide => l.div? r
    match result with
    | some value => .ok value
    | none => .error .overflow

end BlockLang.Operator
