import BlockLang.Execution.Error
import BlockLang.Store

/-! # Expressions

An expression is evaluated against the bindings that are visible at a level; it
changes nothing. Arithmetic on two integers stays with integers, and every other
arithmetic is one operation on decimals. Comparison always is of decimals.
-/
namespace BlockLang

/-- Where a variable or a cell of an array is kept, and its kind. -/
structure Slot where
  name : String
  kind : Kind
deriving DecidableEq

namespace Value

/-- The decimal of a number that stands on a line. -/
def decimal (line : Nat) : Value → Except RuntimeError Decimal
  | .int n => .ok (Decimal.ofInt64 n)
  | .real x =>
    match Decimal.ofReal? x with
    | some decimal => .ok decimal
    | none => .error ⟨.arithmetic .overflow, line⟩
  | .bool _ => .error ⟨.notNumeric .bool, line⟩
  | .text _ => .error ⟨.notNumeric .text, line⟩

def settle {α : Type} (line : Nat) (wrap : α → Value) :
    Except ArithmeticError α → Except RuntimeError Value
  | .ok result => .ok (wrap result)
  | .error error => .error ⟨.arithmetic error, line⟩

/-- Applies an operator of `line` to operands of the lines `leftLine` and `rightLine`. -/
def arithmetic (op : Operator) (line leftLine rightLine : Nat) (left right : Value) :
    Except RuntimeError Value :=
  match left, right with
  | .int l, .int r => settle line .int (op.onIntegers l r)
  | left, right => do
    let l ← left.decimal leftLine
    let r ← right.decimal rightLine
    settle line .real (op.onReals l r)

def compare? (comparison : String) (l r : Decimal) : Option Bool :=
  match comparison with
  | "==" => some (l.eqv r)
  | "<>" => some !(l.eqv r)
  | "<" => some (l.lt r)
  | ">" => some (r.lt l)
  | _ => none

def checkIndex (base : String) (size line : Nat) : Value → Except RuntimeError Nat
  | .int n =>
    if n < 0 then
      .error ⟨.negativeIndex n base, line⟩
    else if n.toInt.toNat < size then
      .ok n.toInt.toNat
    else
      .error ⟨.indexRange n base size, line⟩
  | value => .error ⟨.indexKind base value.kind, line⟩

def checkSize (line : Nat) : Value → Except RuntimeError Nat
  | .int n =>
    if n < 0 then
      .error ⟨.negativeSize n, line⟩
    else if n.toInt.toNat ≤ arrayLimit then
      .ok n.toInt.toNat
    else
      .error ⟨.sizeLimit n, line⟩
  | value => .error ⟨.sizeKind value.kind, line⟩

end Value

namespace Store

def fetch (store : Store) (level line : Nat) (name : String) (slot : Slot) :
    Except RuntimeError Value :=
  match (store.visible? slot.name level).bind Binding.value with
  | some value => .ok value
  | none => .error ⟨.uninitialized name, line⟩

mutual

def evaluate (store : Store) (level : Nat) : Node → Except RuntimeError Value
  | ⟨kind, text, line, children⟩ =>
    match kind with
    | .intLiteral =>
      match Numeral.integer? text.toList with
      | some n => .ok (.int n)
      | none => .error ⟨.literalRange text, line⟩
    | .realLiteral =>
      match Binary64.ofText? text.toList with
      | some x => .ok (.real x)
      | none => .error ⟨.unexpected .realLiteral, line⟩
    | .boolLiteral => .ok (.bool (text == "true"))
    | .stringLiteral => .ok (.text text)
    | .identifier => do
      let slot ← slotIn store level text line children
      store.fetch level line text slot
    | .arithmetic =>
      match Operator.ofSpelling? text, children with
      | some op, [left, right] => do
        let l ← evaluate store level left
        let r ← evaluate store level right
        Value.arithmetic op line left.line right.line l r
      | _, _ => .error ⟨.unexpected .arithmetic, line⟩
    | .comparison =>
      match children with
      | [left, right] => do
        let l ← (← evaluate store level left).decimal left.line
        let r ← (← evaluate store level right).decimal right.line
        match Value.compare? text l r with
        | some holds => .ok (.bool holds)
        | none => .error ⟨.unexpected .comparison, line⟩
      | _ => .error ⟨.unexpected .comparison, line⟩
    | kind => .error ⟨.unexpected kind, line⟩

/-- The slot of the name `name` on `line` whose node has the given children. -/
def slotIn (store : Store) (level : Nat) (name : String) (line : Nat) :
    List Node → Except RuntimeError Slot
  | [] =>
    match store.visible? name level with
    | none => .error ⟨.undeclared name, line⟩
    | some binding =>
      match binding.size with
      | none => .ok ⟨name, binding.kind⟩
      | some _ => .error ⟨.unindexed name, line⟩
  | ⟨kind, _, subscriptLine, children⟩ :: _ =>
    match store.visible? name level with
    | none => .error ⟨.undeclared name, line⟩
    | some binding =>
      if kind = .subscript then
        match binding.size with
        | none => .error ⟨.notAnArray name, line⟩
        | some size => do
          let value ← (evaluateFirst store level children).getD
            (.error ⟨.unexpected .subscript, subscriptLine⟩)
          let index ← value.checkIndex name size subscriptLine
          .ok ⟨cellName name index, binding.kind⟩
      else
        .error ⟨.unexpected kind, subscriptLine⟩

def evaluateFirst (store : Store) (level : Nat) :
    List Node → Option (Except RuntimeError Value)
  | [] => none
  | node :: nodes =>
    if node.isError then evaluateFirst store level nodes else some (evaluate store level node)

end

def slotOf (store : Store) (level : Nat) (node : Node) : Except RuntimeError Slot :=
  slotIn store level node.text node.line node.children

def evaluateWithin (store : Store) (level : Nat) (node : Node) : Except RuntimeError Value :=
  (evaluateFirst store level node.children).getD (.error (.unexpected node))

end Store
end BlockLang
