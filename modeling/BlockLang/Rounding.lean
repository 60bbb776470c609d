/-! # Rounding

A quotient of natural numbers is rounded to the nearest whole number; the tie
rule decides for a quotient that lies halfway between two of them.
-/
namespace BlockLang

inductive Tie where
  | even | away
deriving DecidableEq

def roundDiv (tie : Tie) (num den : Nat) : Nat :=
  let down := num / den
  let twice := 2 * (num % den)
  if twice < den then
    down
  else if den < twice then
    down + 1
  else
    match tie with
    | .even => down + down % 2
    | .away => down + 1

/-- A non-negative rational number, in any terms. -/
structure Fraction where
  num : Nat
  den : Nat

namespace Fraction

def add (x y : Fraction) : Fraction :=
  ⟨x.num * y.den + y.num * x.den, x.den * y.den⟩

def mul (x y : Fraction) : Fraction :=
  ⟨x.num * y.num, x.den * y.den⟩

def div (x y : Fraction) : Fraction :=
  ⟨x.num * y.den, x.den * y.num⟩

def scale (base : Nat) (exponent : Int) (x : Fraction) : Fraction :=
  ⟨x.num * Nat.pow base exponent.toNat, x.den * Nat.pow base (-exponent).toNat⟩

def round (tie : Tie) (x : Fraction) : Nat :=
  roundDiv tie x.num x.den

end Fraction
end BlockLang
