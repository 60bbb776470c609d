/-! # Tokens

A token is a kind, the text it was written with and the place of its first
character. Delimiters, operators and keywords have one spelling each; the other
kinds are written in many ways.
-/
namespace BlockLang

/-- A place in a source text: line and column count from one, the column in characters. -/
structure Place where
  line : Nat
  column : Nat
deriving DecidableEq

def Place.report (place : Place) (message : String) : String :=
  s!"[line {place.line}, column {place.column}] Error: {message}"

inductive TokenKind where
  | leftParen | rightParen | leftBrace | rightBrace | leftBracket | rightBracket
  | comma | semicolon | quote
  | plus | minus | star | slash
  | assign | equal | notEqual | less | greater
  | identifier | intLiteral | realLiteral | stringLiteral
  | ifWord | elseWord | whileWord | forWord | readWord | writeWord
  | intWord | realWord | boolWord | stringWord | trueWord | falseWord
deriving DecidableEq

inductive TokenClass where
  | keyword | identifier | integer | real | string | operator | delimiter
deriving DecidableEq

structure Token where
  kind : TokenKind
  text : String
  place : Place
deriving DecidableEq

def Token.line (token : Token) : Nat :=
  token.place.line

namespace TokenClass

def name : TokenClass → String
  | .keyword => "keyword"
  | .identifier => "identifier"
  | .integer => "integer"
  | .real => "real"
  | .string => "string"
  | .operator => "operator"
  | .delimiter => "delimiter"

end TokenClass

namespace TokenKind

def spelling? : TokenKind → Option String
  | .leftParen => some "("
  | .rightParen => some ")"
  | .leftBrace => some "\x7b"
  | .rightBrace => some "\x7d"
  | .leftBracket => some "["
  | .rightBracket => some "]"
  | .comma => some ","
  | .semicolon => some ";"
  | .quote => some "\""
  | .plus => some "+"
  | .minus => some "-"
  | .star => some "*"
  | .slash => some "/"
  | .assign => some "="
  | .equal => some "=="
  | .notEqual => some "<>"
  | .less => some "<"
  | .greater => some ">"
  | .identifier | .intLiteral | .realLiteral | .stringLiteral => none
  | .ifWord => some "if"
  | .elseWord => some "else"
  | .whileWord => some "while"
  | .forWord => some "for"
  | .readWord => some "read"
  | .writeWord => some "write"
  | .intWord => some "int"
  | .realWord => some "real"
  | .boolWord => some "bool"
  | .stringWord => some "string"
  | .trueWord => some "true"
  | .falseWord => some "false"

def keywords : List TokenKind :=
  [.ifWord, .elseWord, .whileWord, .forWord, .readWord, .writeWord,
    .intWord, .realWord, .boolWord, .stringWord, .trueWord, .falseWord]

def keyword? (word : String) : Option TokenKind :=
  keywords.find? fun kind => kind.spelling? == some word

def tokenClass : TokenKind → TokenClass
  | .leftParen | .rightParen | .leftBrace | .rightBrace | .leftBracket | .rightBracket
  | .comma | .semicolon | .quote => .delimiter
  | .plus | .minus | .star | .slash
  | .assign | .equal | .notEqual | .less | .greater => .operator
  | .identifier => .identifier
  | .intLiteral => .integer
  | .realLiteral => .real
  | .stringLiteral => .string
  | .ifWord | .elseWord | .whileWord | .forWord | .readWord | .writeWord
  | .intWord | .realWord | .boolWord | .stringWord | .trueWord | .falseWord => .keyword

/-- The type words, which open declarations. -/
def isTypeWord : TokenKind → Bool
  | .intWord | .realWord | .boolWord | .stringWord => true
  | _ => false

def isComparison : TokenKind → Bool
  | .equal | .notEqual | .less | .greater => true
  | _ => false

/-- The kinds that end a value, so that a `-` behind them subtracts. -/
def endsOperand : TokenKind → Bool
  | .identifier | .intLiteral | .realLiteral | .rightParen | .rightBracket => true
  | _ => false

end TokenKind
end BlockLang
