import BlockLang.Execution.Expression

/-! # Failures

What is said of a computation that may fail is said of the cause if it does. The operations
on values fail for ordinary causes: neither the tree of a program nor its names are to
blame.
-/
namespace BlockLang
open RuntimeError

def Fails {α : Type} (P : Cause → Prop) (result : Except RuntimeError α) : Prop :=
  ∀ error, result = .error error → P error.cause

section
variable {α β : Type} {P Q : Cause → Prop}

theorem fails_ok (a : α) : Fails P (.ok a) :=
  nofun

theorem fails_error {cause : Cause} {line : Nat} (h : P cause) :
    Fails P (.error ⟨cause, line⟩ : Except RuntimeError α) := by
  rintro _ ⟨⟩
  exact h

theorem Fails.mono {result : Except RuntimeError α} (h : Fails P result)
    (hpq : ∀ cause, P cause → Q cause) : Fails Q result :=
  fun error he => hpq _ (h error he)

theorem Fails.bind {result : Except RuntimeError α} {f : α → Except RuntimeError β}
    (h : Fails P result) (hf : ∀ a, Fails P (f a)) : Fails P (result >>= f) := by
  cases result with
  | ok a => exact hf a
  | error error =>
    rintro _ ⟨⟩
    exact h error rfl

end

/-- Neither a name nor a literal nor the shape of a tree is to blame. -/
def RuntimeError.Cause.IsOrdinary : Cause → Prop
  | .redeclared _ | .undeclared _ | .literalRange _ | .unexpected _ | .skipped => False
  | _ => True

namespace Value

theorem fails_decimal (line : Nat) (value : Value) :
    Fails Cause.IsOrdinary (value.decimal line) := by
  unfold decimal
  split
  · exact fails_ok _
  · split
    · exact fails_ok _
    · exact fails_error trivial
  · exact fails_error trivial
  · exact fails_error trivial

theorem fails_settle {α : Type} (line : Nat) (wrap : α → Value)
    (result : Except ArithmeticError α) : Fails Cause.IsOrdinary (settle line wrap result) := by
  cases result with
  | ok a => exact fails_ok _
  | error error => exact fails_error trivial

theorem fails_arithmetic (op : Operator) (line leftLine rightLine : Nat) (left right : Value) :
    Fails Cause.IsOrdinary (arithmetic op line leftLine rightLine left right) := by
  unfold arithmetic
  split
  · exact fails_settle _ _ _
  · exact (fails_decimal _ _).bind fun _ => (fails_decimal _ _).bind fun _ =>
      fails_settle _ _ _

theorem fails_checkIndex (base : String) (size line : Nat) (value : Value) :
    Fails Cause.IsOrdinary (value.checkIndex base size line) := by
  unfold checkIndex
  split
  · split
    · exact fails_error trivial
    · split
      · exact fails_ok _
      · exact fails_error trivial
  · exact fails_error trivial

theorem fails_checkSize (line : Nat) (value : Value) :
    Fails Cause.IsOrdinary (value.checkSize line) := by
  unfold checkSize
  split
  · split
    · exact fails_error trivial
    · split
      · exact fails_ok _
      · exact fails_error trivial
  · exact fails_error trivial

end Value
end BlockLang
