import BlockLang.Token.Code

/-! # Token listings

A listing has one row per token: its place, the code of its kind, the name of
its class and its text, in columns of a least width.
-/
namespace BlockLang.Token

def padLeft (width : Nat) (text : String) : String :=
  String.ofList (List.replicate (width - text.length) ' ') ++ text

def padRight (width : Nat) (text : String) : String :=
  text ++ String.ofList (List.replicate (width - text.length) ' ')

def row (token : Token) : String :=
  padLeft 4 (toString token.place.line) ++ ":" ++
    padRight 4 (toString token.place.column) ++ " " ++
    padLeft 3 (toString token.kind.code) ++ "  " ++
    padRight 16 token.kind.tokenClass.name ++ " " ++ token.text ++ "\n"

def listing (tokens : List Token) : String :=
  String.join (tokens.map row)

end BlockLang.Token
