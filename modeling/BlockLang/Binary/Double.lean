import BlockLang.Binary

/-! # Double precision numbers

A number of 64 bits is a sign, an exponent field of 11 bits and a fraction of
52 bits. Numbers are kept as their bits, so that every pattern survives.
-/
namespace BlockLang

structure Binary64 where
  bits : UInt64
deriving DecidableEq

namespace Binary64

inductive View where
  | nan
  | infinite (negative : Bool)
  | finite (negative : Bool) (magnitude : Binary.Magnitude)

def view (x : Binary64) : View :=
  let bits := x.bits.toNat
  let negative := bits / Nat.pow 2 63 == 1
  let field := bits / Nat.pow 2 52 % Nat.pow 2 11
  let fraction := bits % Nat.pow 2 52
  if field = 2047 then
    if fraction = 0 then .infinite negative else .nan
  else if field = 0 then
    .finite negative ⟨fraction, -1074⟩
  else
    .finite negative ⟨fraction + Nat.pow 2 52, (field : Int) - 1075⟩

private def infinityBody : Nat :=
  2047 * Nat.pow 2 52

private def signed (negative : Bool) (body : Nat) : Binary64 :=
  ⟨UInt64.ofNat (if negative then Nat.pow 2 63 + body else body)⟩

def infinity (negative : Bool) : Binary64 :=
  signed negative infinityBody

def nan (negative : Bool) : Binary64 :=
  signed negative (infinityBody + Nat.pow 2 51)

/-- Encodes a magnitude of the format; one that is too great becomes infinite. The leading
bit of a normal significand adds one to the exponent field. -/
def ofMagnitude (negative : Bool) (x : Binary.Magnitude) : Binary64 :=
  signed negative
    (min infinityBody ((x.exponent + 1074).toNat * Nat.pow 2 52 + x.significand))

def ofFraction (negative : Bool) (x : Fraction) : Binary64 :=
  ofMagnitude negative (Binary.double.nearest x)

def ofInt (n : Int) : Binary64 :=
  ofFraction (n < 0) ⟨n.natAbs, 1⟩

end Binary64
end BlockLang
