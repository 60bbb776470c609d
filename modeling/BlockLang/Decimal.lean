import BlockLang.Rounding

/-! # Decimals

A decimal is a sign, a mantissa below 2^96 and a scale of at most 28 fractional
digits. A result with more digits is rounded once, half to even, to as many as
fit.
-/
namespace BlockLang

/-- One more than the greatest mantissa, 2^96. -/
def Decimal.capacity : Nat :=
  0x1000000000000000000000000

def Decimal.maxScale : Nat :=
  28

structure Decimal where
  negative : Bool
  mantissa : Nat
  scale : Nat
  mantissa_lt : mantissa < Decimal.capacity
  scale_le : scale ≤ Decimal.maxScale

namespace Decimal

def zero : Decimal :=
  ⟨false, 0, 0, by decide, by decide⟩

def ofParts? (negative : Bool) (mantissa scale : Nat) : Option Decimal :=
  if h : mantissa < capacity ∧ scale ≤ maxScale then
    some ⟨negative, mantissa, scale, h.1, h.2⟩
  else
    none

def ofInt64 (n : Int64) : Decimal :=
  ⟨n < 0, n.toInt.natAbs, 0, by
    have lower := n.le_toInt
    have upper := n.toInt_lt
    simp only [capacity]
    omega, by decide⟩

def signed (x : Decimal) : Int :=
  if x.negative then -(x.mantissa : Int) else x.mantissa

def isZero (x : Decimal) : Bool :=
  x.mantissa == 0

def neg (x : Decimal) : Decimal :=
  { x with negative := !x.negative }

def unsignZero (x : Decimal) : Decimal :=
  { x with negative := x.negative && !x.isZero }

/-- The signed mantissa at a scale that is not below the decimal's own. -/
def atScale (scale : Nat) (x : Decimal) : Int :=
  x.signed * Nat.pow 10 (scale - x.scale)

def eqv (x y : Decimal) : Bool :=
  x.atScale (max x.scale y.scale) == y.atScale (max x.scale y.scale)

def lt (x y : Decimal) : Bool :=
  x.atScale (max x.scale y.scale) < y.atScale (max x.scale y.scale)

/-- Drops the fewest low digits of a mantissa so that it fits, from `dropped` of them on;
`scale` digits behind the point are left by then. -/
def fitFrom (negative : Bool) (mantissa dropped : Nat) : (scale : Nat) → Option Decimal
  | 0 => ofParts? negative (roundDiv .even mantissa (Nat.pow 10 dropped)) 0
  | scale + 1 =>
    (ofParts? negative (roundDiv .even mantissa (Nat.pow 10 dropped)) (scale + 1)).or
      (fitFrom negative mantissa (dropped + 1) scale)

/-- The decimal nearest to a mantissa at a scale, or none if its whole digits do not fit. -/
def fit (negative : Bool) (mantissa scale : Nat) : Option Decimal :=
  fitFrom negative mantissa 0 scale

end Decimal
end BlockLang
