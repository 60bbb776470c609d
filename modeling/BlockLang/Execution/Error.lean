import BlockLang.Arithmetic
import BlockLang.Tree
import BlockLang.Value

/-! # Runtime errors

An error is a cause and the line of the node it is blamed on. The kind and the
wording of an error follow from its cause.
-/
namespace BlockLang

inductive RuntimeError.Cause where
  | redeclared (name : String)
  | arrayInitializer (name : String)
  | negativeSize (size : Int64)
  | sizeLimit (size : Int64)
  | sizeKind (found : Kind)
  | undeclared (name : String)
  | uninitialized (name : String)
  | unindexed (name : String)
  | notAnArray (name : String)
  | negativeIndex (index : Int64) (base : String)
  | indexRange (index : Int64) (base : String) (size : Nat)
  | indexKind (base : String) (found : Kind)
  | literalRange (text : String)
  | arithmetic (error : ArithmeticError)
  | notNumeric (found : Kind)
  | conditionKind (found : Kind)
  | unassignable (found target : Kind) (name : String)
  | invalidInput (text : String) (target : Kind) (name : String)
  | unexpected (kind : NodeKind)
  | skipped
deriving DecidableEq

inductive RuntimeError.Kind where
  | redeclaration | undeclared | uninitialized | typeMismatch
  | indexOutOfBounds | negativeIndex | nonIntegerIndex
  | divideByZero | invalidArraySize | overflow | invalidInput | malformedTree
deriving DecidableEq

structure RuntimeError where
  cause : RuntimeError.Cause
  line : Nat
deriving DecidableEq

def arrayLimit : Nat :=
  1048576

namespace RuntimeError

def Kind.name : Kind → String
  | .redeclaration => "redeclaration"
  | .undeclared => "undeclared"
  | .uninitialized => "uninitialized"
  | .typeMismatch => "type mismatch"
  | .indexOutOfBounds => "index out of bounds"
  | .negativeIndex => "negative index"
  | .nonIntegerIndex => "non-integer index"
  | .divideByZero => "divide by zero"
  | .invalidArraySize => "invalid array size"
  | .overflow => "overflow"
  | .invalidInput => "invalid input"
  | .malformedTree => "malformed tree"

def Cause.kind : Cause → Kind
  | .redeclared _ => .redeclaration
  | .arrayInitializer _ | .unindexed _ | .notAnArray _ | .notNumeric _ | .conditionKind _
  | .unassignable .. => .typeMismatch
  | .negativeSize _ | .sizeLimit _ | .sizeKind _ => .invalidArraySize
  | .undeclared _ => .undeclared
  | .uninitialized _ => .uninitialized
  | .negativeIndex .. => .negativeIndex
  | .indexRange .. => .indexOutOfBounds
  | .indexKind .. => .nonIntegerIndex
  | .literalRange _ | .arithmetic .overflow => .overflow
  | .arithmetic .divideByZero => .divideByZero
  | .invalidInput .. => .invalidInput
  | .unexpected _ | .skipped => .malformedTree

def Cause.message : Cause → String
  | .redeclared name => s!"'{name}' is already declared in this block, please rename it"
  | .arrayInitializer name => s!"array '{name}' cannot have an initializer"
  | .negativeSize size => s!"array size {size.toInt} is negative"
  | .sizeLimit size => s!"array size {size.toInt} exceeds the limit of {arrayLimit}"
  | .sizeKind found => s!"array size must be an int, found {found.name}"
  | .undeclared name => s!"'{name}' is not declared"
  | .uninitialized name => s!"'{name}' is used before initialization"
  | .unindexed name => s!"array '{name}' is used without an index"
  | .notAnArray name => s!"'{name}' is not an array"
  | .negativeIndex index base => s!"index {index.toInt} of '{base}' is negative"
  | .indexRange index base size =>
    s!"index {index.toInt} is out of bounds for '{base}' of size {size}"
  | .indexKind base found => s!"index of '{base}' must be an int, found {found.name}"
  | .literalRange text => s!"integer literal {text} is out of range"
  | .arithmetic .divideByZero => "divisor cannot be zero"
  | .arithmetic .overflow => "arithmetic result is out of range"
  | .notNumeric found => s!"expected an int or real, found {found.name}"
  | .conditionKind found => s!"condition must be bool, found {found.name}"
  | .unassignable found target name =>
    s!"cannot assign a {found.name} value to {target.name} variable '{name}'"
  | .invalidInput text target name =>
    s!"'{text}' is not a valid {target.name} value for '{name}'"
  | .unexpected kind => s!"unexpected {kind.name} node"
  | .skipped => "statement contains a syntax error and was skipped"

def report (error : RuntimeError) : String :=
  s!"[line {error.line}] Error: {error.cause.message}"

def unexpected (node : Node) : RuntimeError :=
  ⟨.unexpected node.kind, node.line⟩

end RuntimeError
end BlockLang
