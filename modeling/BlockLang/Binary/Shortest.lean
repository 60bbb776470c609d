import BlockLang.Binary

/-! # Shortest decimal digits

The rationals that round to a binary magnitude form an interval around it, with
its ends if the significand is even. The shortest digits of the magnitude are
the point of the coarsest decimal grid that meets the interval, the nearer one
if two points do, and the greater one if both are equally near.
-/
namespace BlockLang.Binary

/-- The number `digits * 10 ^ exponent`. -/
structure Digits where
  digits : Nat
  exponent : Int
deriving DecidableEq

namespace Digits

def toFraction (x : Digits) : Fraction :=
  Fraction.scale 10 x.exponent ⟨x.digits, 1⟩

def count (x : Digits) : Nat :=
  (Nat.toDigits 10 x.digits).length

def leadingExponent (x : Digits) : Int :=
  x.exponent + x.count - 1

end Digits

/-- The rationals that round to a magnitude, in quarters of its last place. -/
structure Interval where
  lower : Nat
  middle : Nat
  upper : Nat
  closed : Bool

/-- Below a power of two the neighbour is only half as far away. -/
def Format.interval (format : Format) (x : Magnitude) : Interval :=
  let middle := 4 * x.significand
  let narrow := x.significand = Nat.pow 2 (format.precision - 1) ∧ format.minExponent < x.exponent
  ⟨if narrow then middle - 1 else middle - 2, middle, middle + 2, x.significand % 2 == 0⟩

/-- Whether `point` lies in an interval whose quarters measure `unit`. -/
def Interval.contains (interval : Interval) (unit : Fraction) (point : Nat) : Bool :=
  let scaled := point * unit.den
  if interval.closed then
    interval.lower * unit.num ≤ scaled && scaled ≤ interval.upper * unit.num
  else
    interval.lower * unit.num < scaled && scaled < interval.upper * unit.num

/-- The point of the whole numbers that represents an interval, if one lies in it. -/
def Interval.point? (interval : Interval) (unit : Fraction) : Option Nat :=
  let middle := interval.middle * unit.num
  let down := middle / unit.den
  match interval.contains unit down, interval.contains unit (down + 1) with
  | true, true => if 2 * middle < (2 * down + 1) * unit.den then some down else some (down + 1)
  | true, false => some down
  | false, true => some (down + 1)
  | false, false => none

def Magnitude.exactDigits (x : Magnitude) : Digits :=
  if 0 ≤ x.exponent then
    ⟨x.significand * Nat.pow 2 x.exponent.toNat, 0⟩
  else
    ⟨x.significand * Nat.pow 5 (-x.exponent).toNat, x.exponent⟩

/-- Tries `count` grids from `10 ^ exponent` down. -/
def shortestFrom (interval : Interval) (x : Magnitude) : (count : Nat) → (exponent : Int) → Digits
  | 0, _ => x.exactDigits
  | count + 1, exponent =>
    let unit := (Fraction.scale 2 (x.exponent - 2) ⟨1, 1⟩).scale 10 (-exponent)
    match interval.point? unit with
    | some digits => ⟨digits, exponent⟩
    | none => shortestFrom interval x count (exponent - 1)

/-- An exponent whose power of ten is greater than a positive magnitude. -/
def Magnitude.decimalExponent (x : Magnitude) : Int :=
  (x.significand.log2 + 1 + x.exponent) * 30103 / 100000 + 1

/-- The shortest digits of a magnitude; twenty grids reach past the last digit of a double. -/
def Format.shortest (format : Format) (x : Magnitude) : Digits :=
  if x.significand = 0 then
    ⟨0, 0⟩
  else
    shortestFrom (format.interval x) x 20 x.decimalExponent

end BlockLang.Binary
