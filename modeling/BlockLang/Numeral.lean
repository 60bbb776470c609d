import BlockLang.Arithmetic.Integer

/-! # Numerals

The patterns of written numbers, shared by the scanner and by the input of
`read`, and the values of written integers.
-/
namespace BlockLang.Numeral

/-- The digits of a whole number: a zero alone, or digits that do not begin with one. -/
def isNatural : List Char → Bool
  | [] => false
  | ['0'] => true
  | c :: cs => c != '0' && (c :: cs).all Char.isDigit

def unsigned : List Char → List Char
  | '-' :: cs => cs
  | cs => cs

/-- `-?(0|[1-9][0-9]*)` -/
def isIntegerText (text : List Char) : Bool :=
  isNatural (unsigned text)

/-- `-?(0|[1-9][0-9]*)\.[0-9]+` -/
def isRealText (text : List Char) : Bool :=
  let digits := unsigned text
  match digits.dropWhile (· != '.') with
  | _ :: fraction =>
    isNatural (digits.takeWhile (· != '.')) && !fraction.isEmpty && fraction.all Char.isDigit
  | [] => false

def natural (digits : List Char) : Nat :=
  digits.foldl (fun value c => 10 * value + (c.toNat - '0'.toNat)) 0

/-- Whether a text begins with `-`, and the text without its sign. -/
def splitSign : List Char → Bool × List Char
  | '-' :: cs => (true, cs)
  | '+' :: cs => (false, cs)
  | cs => (false, cs)

/-- Reads an optional sign and digits, leading zeros allowed, as a 64-bit integer. -/
def integer? (text : List Char) : Option Int64 :=
  let (negative, digits) := splitSign text
  if !digits.isEmpty && digits.all Char.isDigit then
    Integer.ofInt? (if negative then -(natural digits : Int) else natural digits)
  else
    none

end BlockLang.Numeral
