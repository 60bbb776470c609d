import BlockLang.Binary.Text
import BlockLang.Decimal.Arithmetic

/-! # Decimals and reals

A real becomes the decimal that its shortest digits spell. A decimal becomes a
real of single precision, and then the real that its shortest single precision
digits spell, so that sums such as 0.1 + 0.2 come out as written.
-/
namespace BlockLang.Decimal

open Binary

/-- The decimal of some digits; behind the last place that fits, the next digit rounds. -/
def ofDigits? (negative : Bool) (x : Digits) : Option Decimal :=
  let scale := (-x.exponent).toNat
  if scale ≤ maxScale then
    ofParts? negative (x.digits * Nat.pow 10 x.exponent.toNat) scale
  else
    let kept := x.digits / Nat.pow 10 (scale - maxScale)
    let next := x.digits / Nat.pow 10 (scale - maxScale - 1) % 10
    ofParts? negative (if 5 ≤ next then kept + 1 else kept) maxScale

def ofReal? (x : Binary64) : Option Decimal :=
  match x.view with
  | .finite negative magnitude =>
    (ofDigits? negative (double.shortest magnitude)).map unsignZero
  | .infinite _ | .nan => none

private def doubled (n : Nat) : Magnitude :=
  double.nearest ⟨n, 1⟩

private def mul (x y : Magnitude) : Magnitude :=
  double.nearest (x.toFraction.mul y.toFraction)

private def div (x y : Magnitude) : Magnitude :=
  double.nearest (x.toFraction.div y.toFraction)

private def add (x y : Magnitude) : Magnitude :=
  double.nearest (x.toFraction.add y.toFraction)

/-- A power of ten in double precision, by repeated squaring. -/
private def tenTo (n : Nat) (result base : Magnitude) : Magnitude :=
  if n = 0 then
    result
  else
    tenTo (n / 2) (if n % 2 = 1 then mul result base else result) (mul base base)
termination_by n
decreasing_by exact Nat.div_lt_self (Nat.pos_of_ne_zero ‹_›) (Nat.lt_succ_self 1)

/-- The magnitude of a decimal in double precision. The fraction is divided and added to the
whole part, and the sum is rounded to the decimal's places. -/
def toDouble (x : Decimal) : Magnitude :=
  let unit := Nat.pow 10 x.scale
  let whole := doubled (x.mantissa / unit)
  let fraction := div (doubled (x.mantissa % unit)) (doubled unit)
  if x.scale = 0 ∨ fraction.significand = 0 then
    whole
  else
    let scaling := tenTo x.scale (doubled 1) (doubled 10)
    let scaled := mul (add whole fraction) scaling
    div (doubled (scaled.toFraction.round .away)) scaling

/-- The real of a decimal, with the shortest digits of single precision. -/
def toReal (x : Decimal) : Binary64 :=
  Binary64.ofDigits x.negative (single.shortest (single.nearest x.toDouble.toFraction))

end BlockLang.Decimal

namespace BlockLang.Operator

def onReals (op : Operator) (l r : Decimal) : Except ArithmeticError Binary64 :=
  (op.onDecimals l r).map Decimal.toReal

end BlockLang.Operator
