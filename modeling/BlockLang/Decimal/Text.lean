import BlockLang.Decimal
import BlockLang.Numeral

/-! # Decimals as text

A decimal is written without an exponent and without zeros at the end of its
fraction; a zero has no sign.
-/
namespace BlockLang.Decimal

private def trim (mantissa : Nat) : (scale : Nat) → Nat × Nat
  | 0 => (mantissa, 0)
  | scale + 1 =>
    if mantissa % 10 = 0 then trim (mantissa / 10) scale else (mantissa, scale + 1)

def text (x : Decimal) : String :=
  let (mantissa, scale) := trim x.mantissa x.scale
  let digits := Nat.toDigits 10 mantissa
  let padded := List.replicate (scale + 1 - digits.length) '0' ++ digits
  let whole := padded.take (padded.length - scale)
  let fraction := padded.drop (padded.length - scale)
  (if x.negative ∧ mantissa ≠ 0 then "-" else "") ++ String.ofList whole ++
    (if fraction.isEmpty then "" else "." ++ String.ofList fraction)

/-- Reads digits with a sign and a point, each optional, and keeps their scale. -/
def ofText? (text : List Char) : Option Decimal :=
  let (negative, digits) := Numeral.splitSign text
  let whole := digits.takeWhile Char.isDigit
  let fraction := (digits.dropWhile Char.isDigit).drop 1
  if fraction.all Char.isDigit && !whole.isEmpty then
    (ofParts? negative (Numeral.natural (whole ++ fraction)) fraction.length).map unsignZero
  else
    none

end BlockLang.Decimal
