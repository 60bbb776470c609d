import BlockLang.Token

/-! # Token codes

Listings number the token kinds from 1 to 34.
-/
namespace BlockLang.TokenKind

def code : TokenKind → Nat
  | .ifWord => 1
  | .elseWord => 2
  | .whileWord => 3
  | .forWord => 4
  | .readWord => 5
  | .writeWord => 6
  | .intWord => 7
  | .realWord => 8
  | .boolWord => 9
  | .stringWord => 10
  | .trueWord => 11
  | .falseWord => 12
  | .plus => 13
  | .minus => 14
  | .star => 15
  | .slash => 16
  | .assign => 17
  | .equal => 18
  | .notEqual => 19
  | .less => 20
  | .greater => 21
  | .leftParen => 22
  | .rightParen => 23
  | .leftBrace => 24
  | .rightBrace => 25
  | .leftBracket => 26
  | .rightBracket => 27
  | .semicolon => 28
  | .comma => 29
  | .quote => 30
  | .intLiteral => 31
  | .realLiteral => 32
  | .stringLiteral => 33
  | .identifier => 34

def byCode : List TokenKind :=
  [.ifWord, .elseWord, .whileWord, .forWord, .readWord, .writeWord,
    .intWord, .realWord, .boolWord, .stringWord, .trueWord, .falseWord,
    .plus, .minus, .star, .slash, .assign, .equal, .notEqual, .less, .greater,
    .leftParen, .rightParen, .leftBrace, .rightBrace, .leftBracket, .rightBracket,
    .semicolon, .comma, .quote,
    .intLiteral, .realLiteral, .stringLiteral, .identifier]

def ofCode? (code : Nat) : Option TokenKind :=
  byCode.find? fun kind => kind.code == code

theorem ofCode?_code (kind : TokenKind) : ofCode? kind.code = some kind := by
  cases kind <;> rfl

end BlockLang.TokenKind
