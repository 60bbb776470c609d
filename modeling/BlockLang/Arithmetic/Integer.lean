import BlockLang.Arithmetic

/-! # Integer arithmetic

Integers have 64 bits. An operation is carried out exactly and its result is
refused if it does not fit; a quotient is cut toward zero.
-/
namespace BlockLang

def Integer.ofInt? (value : Int) : Option Int64 :=
  if Int64.minValue.toInt ≤ value ∧ value ≤ Int64.maxValue.toInt then
    some (Int64.ofInt value)
  else
    none

/-- A value is represented by the one integer that has it, if there is one. -/
theorem Integer.ofInt?_eq_some_iff {value : Int} {n : Int64} :
    ofInt? value = some n ↔ n.toInt = value := by
  have lower := n.minValue_le_toInt
  have upper := n.toInt_le
  unfold ofInt?
  split
  · rename_i h
    rw [Option.some.injEq]
    constructor
    · rintro rfl
      exact Int64.toInt_ofInt_of_le h.1 (Int.lt_add_one_of_le h.2)
    · rintro rfl
      exact Int64.ofInt_toInt n
  · rename_i h
    constructor
    · intro hn
      cases hn
    · rintro rfl
      exact absurd ⟨lower, upper⟩ h

namespace Operator

/-- The exact result over the unbounded integers. -/
def onInt : Operator → Int → Int → Int
  | .add, l, r => l + r
  | .subtract, l, r => l - r
  | .multiply, l, r => l * r
  | .divide, l, r => l.tdiv r

def onIntegers (op : Operator) (l r : Int64) : Except ArithmeticError Int64 :=
  if op = .divide ∧ r = 0 then
    .error .divideByZero
  else
    match Integer.ofInt? (op.onInt l.toInt r.toInt) with
    | some value => .ok value
    | none => .error .overflow

end Operator
end BlockLang
