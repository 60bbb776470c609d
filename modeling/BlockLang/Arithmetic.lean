/-! # Arithmetic operators

The four operators of the language, and the two ways in which one can fail.
-/
namespace BlockLang

inductive Operator where
  | add | subtract | multiply | divide
deriving DecidableEq

inductive ArithmeticError where
  | divideByZero | overflow
deriving DecidableEq

namespace Operator

def spelling : Operator → String
  | .add => "+"
  | .subtract => "-"
  | .multiply => "*"
  | .divide => "/"

def ofSpelling? : String → Option Operator
  | "+" => some .add
  | "-" => some .subtract
  | "*" => some .multiply
  | "/" => some .divide
  | _ => none

theorem ofSpelling?_spelling (op : Operator) : ofSpelling? op.spelling = some op := by
  cases op <;> rfl

end Operator
end BlockLang
