/-! # Parse trees

A node has a kind, a text, a line and children. A malformed region of a program
appears as an error leaf whose text says what is wrong.
-/
namespace BlockLang

inductive NodeKind where
  | program
  | declaration | declarator | initializer
  | assignment
  | conditional | alternative
  | whileLoop | forLoop | init | step | condition | block
  | read | write
  | identifier | subscript
  | intLiteral | realLiteral | boolLiteral | stringLiteral
  | arithmetic | comparison
  | error
deriving DecidableEq

def NodeKind.name : NodeKind → String
  | .program => "Program"
  | .declaration => "Declare"
  | .declarator => "Declarator"
  | .initializer => "Initializer"
  | .assignment => "Assign"
  | .conditional => "If"
  | .alternative => "Else"
  | .whileLoop => "While"
  | .forLoop => "For"
  | .init => "Init"
  | .step => "Step"
  | .condition => "Condition"
  | .block => "Block"
  | .read => "Read"
  | .write => "Write"
  | .identifier => "Identifier"
  | .subscript => "Subscript"
  | .intLiteral => "IntLiteral"
  | .realLiteral => "RealLiteral"
  | .boolLiteral => "BoolLiteral"
  | .stringLiteral => "StringLiteral"
  | .arithmetic => "Arithmetic"
  | .comparison => "Comparison"
  | .error => "Error"

structure Node where
  kind : NodeKind
  text : String
  line : Nat
  children : List Node

namespace Node

def leaf (kind : NodeKind) (text : String) (line : Nat) : Node :=
  ⟨kind, text, line, []⟩

def isError (node : Node) : Bool :=
  node.kind == .error

def part? (kind : NodeKind) (node : Node) : Option Node :=
  node.children.find? fun child => child.kind == kind

/-- The first child that is no error leaf. -/
def content? (node : Node) : Option Node :=
  node.children.find? fun child => !child.isError

mutual

/-- Whether an error leaf stands anywhere in a tree. -/
def hasError : Node → Bool
  | ⟨kind, _, _, children⟩ => kind == .error || anyHasError children

def anyHasError : List Node → Bool
  | [] => false
  | node :: nodes => node.hasError || anyHasError nodes

end

end Node
end BlockLang
