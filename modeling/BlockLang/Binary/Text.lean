import BlockLang.Binary.Double
import BlockLang.Binary.Shortest
import BlockLang.Numeral

/-! # Reals as text

A real is written with its shortest digits and at least one digit behind the
point: plainly from 10^-3 up to 10^7 and with an exponent outside that range.
Text is read as the nearest number.
-/
namespace BlockLang.Binary.Digits

private def zeros (count : Nat) : List Char :=
  List.replicate count '0'

/-- Digits with a point behind the first `whole` of them, and a zero where none would stand. -/
private def withPoint (digits : List Char) (whole : Nat) : List Char :=
  let fraction := digits.drop whole
  digits.take whole ++ '.' :: (if fraction.isEmpty then ['0'] else fraction)

def plain (x : Digits) : String :=
  let digits := Nat.toDigits 10 x.digits ++ zeros x.exponent.toNat
  let places := (-x.exponent).toNat
  let padded := zeros (places + 1 - digits.length) ++ digits
  String.ofList (withPoint padded (padded.length - places))

def scientific (x : Digits) : String :=
  String.ofList (withPoint (Nat.toDigits 10 x.digits) 1) ++ "E" ++ toString x.leadingExponent

def text (x : Digits) : String :=
  if x.digits = 0 ∨ (-3 ≤ x.leadingExponent ∧ x.leadingExponent < 7) then
    x.plain
  else
    x.scientific

end Digits
end BlockLang.Binary

namespace BlockLang.Binary64

def text (x : Binary64) : String :=
  match x.view with
  | .nan => "NaN"
  | .infinite negative => if negative then "-inf" else "inf"
  | .finite negative magnitude =>
    let digits := (Binary.double.shortest magnitude).text
    if negative then "-" ++ digits else digits

/-- The number nearest to `digits * 10 ^ exponent`. Exponents far outside the range of the
format are settled by themselves. -/
def ofDigits (negative : Bool) (x : Binary.Digits) : Binary64 :=
  if x.digits ≠ 0 ∧ 400 < x.exponent then
    infinity negative
  else if x.digits = 0 ∨ x.leadingExponent < -400 then
    ofFraction negative ⟨0, 1⟩
  else
    ofFraction negative x.toFraction

/-- The exponent that ends a number: nothing, or `e` with a sign or none and digits. -/
def exponent? : List Char → Option Int
  | [] => some 0
  | c :: cs =>
    let (negative, digits) := Numeral.splitSign cs
    if (c == 'e' || c == 'E') && !digits.isEmpty && digits.all Char.isDigit then
      some (if negative then -(Numeral.natural digits : Int) else Numeral.natural digits)
    else
      none

def ofUnsigned? (negative : Bool) (text : List Char) : Option Binary64 :=
  let whole := text.takeWhile Char.isDigit
  let tail := text.dropWhile Char.isDigit
  let (fraction, tail) := match tail with
    | '.' :: cs => (cs.takeWhile Char.isDigit, cs.dropWhile Char.isDigit)
    | cs => ([], cs)
  let digits := whole ++ fraction
  if digits.isEmpty then
    none
  else
    (exponent? tail).map fun exponent =>
      ofDigits negative ⟨Numeral.natural digits, exponent - fraction.length⟩

/-- Reads an optional sign and then a number, an infinity or the word for no number; letters
of either case are the same. -/
def ofText? (text : List Char) : Option Binary64 :=
  let (negative, unsigned) := Numeral.splitSign text
  let word := String.ofList (unsigned.map Char.toLower)
  if word = "inf" ∨ word = "infinity" then
    some (infinity negative)
  else if word = "nan" then
    some (nan negative)
  else
    ofUnsigned? negative unsigned

end BlockLang.Binary64
