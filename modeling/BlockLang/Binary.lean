import BlockLang.Rounding

/-! # Binary floating point

A format bounds the significands by a number of bits and the exponents from
below. Every non-negative rational has a nearest magnitude in a format; of two
equally near ones it is the one with the even significand. Overflow is left to
the encoding.
-/
namespace BlockLang.Binary

structure Format where
  precision : Nat
  minExponent : Int

def double : Format := ⟨53, -1074⟩
def single : Format := ⟨24, -149⟩

/-- The number `significand * 2 ^ exponent`. -/
structure Magnitude where
  significand : Nat
  exponent : Int
deriving DecidableEq

def Magnitude.toFraction (x : Magnitude) : Fraction :=
  Fraction.scale 2 x.exponent ⟨x.significand, 1⟩

/-- The greatest `k` for which `2 ^ k` is at most a positive rational. -/
def floorLog2 (x : Fraction) : Int :=
  let estimate : Int := (x.num.log2 : Int) - x.den.log2
  let scaled := x.scale 2 (-estimate)
  if scaled.den ≤ scaled.num then estimate else estimate - 1

namespace Format

/-- The exponent of the last place of a positive rational. -/
def exponentOf (format : Format) (x : Fraction) : Int :=
  max format.minExponent (floorLog2 x - (format.precision - 1))

def nearest (format : Format) (x : Fraction) : Magnitude :=
  if x.num = 0 then
    ⟨0, format.minExponent⟩
  else
    let exponent := format.exponentOf x
    let significand := (x.scale 2 (-exponent)).round .even
    if significand = Nat.pow 2 format.precision then
      ⟨Nat.pow 2 (format.precision - 1), exponent + 1⟩
    else
      ⟨significand, exponent⟩

end Format
end BlockLang.Binary
