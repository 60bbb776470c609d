import BlockLang.Token

/-! # Syntax errors

An error is a cause and the place it is blamed on. The kind and the wording of
an error follow from its cause; an error leaf of the tree has the same wording.
-/
namespace BlockLang

inductive SyntaxError.Cause where
  | declarationEnd
  | unexpectedAfter (found name : String)
  | assignmentEnd
  | ifOpening | ifClosing
  | whileOpening | whileClosing
  | forOpening | forInitEnd | forConditionEnd | forClosing
  | readOpening | readClosing | readEnd
  | writeOpening | writeClosing | writeEnd
  | blockClosing | groupClosing | stringClosing | indexClosing
  | noName
  | noTarget
  | noAssign (name : String)
  | noVariable
  | noBody
  | statementStart (found : String)
  | noValue
  | noContents
  | valueStart (found : String)
deriving DecidableEq

inductive SyntaxError.Kind where
  | missingDelimiter | missingToken | invalidStatementStart | malformedFactor
deriving DecidableEq

structure SyntaxError where
  cause : SyntaxError.Cause
  place : Place
deriving DecidableEq

namespace SyntaxError

def Kind.name : Kind → String
  | .missingDelimiter => "missing delimiter"
  | .missingToken => "missing token"
  | .invalidStatementStart => "invalid statement start"
  | .malformedFactor => "malformed factor"

def Cause.kind : Cause → Kind
  | .declarationEnd | .unexpectedAfter .. | .assignmentEnd
  | .ifOpening | .ifClosing | .whileOpening | .whileClosing
  | .forOpening | .forInitEnd | .forConditionEnd | .forClosing
  | .readOpening | .readClosing | .readEnd
  | .writeOpening | .writeClosing | .writeEnd
  | .blockClosing | .groupClosing | .stringClosing | .indexClosing => .missingDelimiter
  | .noName | .noTarget | .noAssign _ | .noVariable | .noBody => .missingToken
  | .statementStart _ => .invalidStatementStart
  | .noValue | .noContents | .valueStart _ => .malformedFactor

def Cause.message : Cause → String
  | .declarationEnd => "declaration is missing ';'"
  | .unexpectedAfter found name => s!"unexpected '{found}' after '{name}'"
  | .assignmentEnd => "assignment is missing ';'"
  | .ifOpening => "'if' is missing '('"
  | .ifClosing => "'if' condition is missing ')'"
  | .whileOpening => "'while' is missing '('"
  | .whileClosing => "'while' condition is missing ')'"
  | .forOpening => "'for' is missing '('"
  | .forInitEnd => "'for' header is missing ';' after the initializer"
  | .forConditionEnd => "'for' header is missing ';' after the condition"
  | .forClosing => "'for' header is missing ')'"
  | .readOpening => "'read' is missing '('"
  | .readClosing => "'read' is missing ')'"
  | .readEnd => "'read' is missing ';'"
  | .writeOpening => "'write' is missing '('"
  | .writeClosing => "'write' is missing ')'"
  | .writeEnd => "'write' is missing ';'"
  | .blockClosing => "block is missing '\x7d'"
  | .groupClosing => "expression is missing ')'"
  | .stringClosing => "string is missing its closing quote"
  | .indexClosing => "index is missing ']'"
  | .noName => "declaration expects a variable name"
  | .noTarget => "expected a variable to assign"
  | .noAssign name => s!"assignment to '{name}' is missing '='"
  | .noVariable => "'read' expects a variable"
  | .noBody => "expected a statement body"
  | .statementStart found => s!"a statement cannot start with '{found}'"
  | .noValue => "expected a value"
  | .noContents => "expected string contents"
  | .valueStart found => s!"'{found}' cannot start a value"

def report (error : SyntaxError) : String :=
  error.place.report error.cause.message

end SyntaxError
end BlockLang
