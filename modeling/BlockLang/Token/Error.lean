import BlockLang.Token

/-! # Lexical errors

An error is a cause and the place it is blamed on. The kind and the wording of
an error follow from its cause.
-/
namespace BlockLang

inductive LexicalError.Cause where
  | unknownCharacter (c : Char)
  | malformedIdentifier (text : String)
  | malformedNumber (text : String)
  | integerRange (text : String)
  | unclosedString (content : String)
  | unopenedComment
  | strayMinus
  | unclosedComment
deriving DecidableEq

inductive LexicalError.Kind where
  | illegalCharacter | malformedIdentifier | malformedNumber
  | unterminatedString | misusedOperator | unterminatedComment
deriving DecidableEq

structure LexicalError where
  cause : LexicalError.Cause
  place : Place
deriving DecidableEq

namespace LexicalError

def Kind.name : Kind → String
  | .illegalCharacter => "illegal character"
  | .malformedIdentifier => "malformed identifier"
  | .malformedNumber => "malformed number"
  | .unterminatedString => "unterminated string"
  | .misusedOperator => "misused operator"
  | .unterminatedComment => "unterminated comment"

def Cause.kind : Cause → Kind
  | .unknownCharacter _ => .illegalCharacter
  | .malformedIdentifier _ => .malformedIdentifier
  | .malformedNumber _ | .integerRange _ => .malformedNumber
  | .unclosedString _ => .unterminatedString
  | .unopenedComment | .strayMinus => .misusedOperator
  | .unclosedComment => .unterminatedComment

def Cause.message : Cause → String
  | .unknownCharacter c => s!"'{c}' is not a recognised character"
  | .malformedIdentifier text => s!"'{text}' is not a valid identifier"
  | .malformedNumber text => s!"'{text}' is not a valid number"
  | .integerRange text => s!"integer '{text}' is out of range"
  | .unclosedString content => s!"string \"{content}\" is missing its closing quote"
  | .unopenedComment => "'*/' has no matching '/*'"
  | .strayMinus => "'-' must be followed by a number here"
  | .unclosedComment => "comment opened here is never closed"

def report (error : LexicalError) : String :=
  error.place.report error.cause.message

end LexicalError
end BlockLang
