import BlockLang.Proofs.Lexeme

/-! # Layouts

A list of lexemes is written down as a text with separators between its units, where
the three lexemes of a string are one unit. A separator begins with a blank or a
newline; then further blanks, newlines and comments follow in any order.
-/
namespace BlockLang.Layout

def IsWhite (c : Char) : Prop :=
  c = ' ' ∨ c = '\t' ∨ c = '\r' ∨ c = '\n'

/-- What may be written between lexemes, apart from the start of a separator. -/
inductive Filler where
  | white (c : Char) (h : IsWhite c)
  | blockComment (content : List Char) (h : ¬['*', '/'] <:+: content)
  | lineComment (content : List Char) (h : '\n' ∉ content)

def Filler.text : Filler → List Char
  | .white c _ => [c]
  | .blockComment content _ => '/' :: '*' :: content ++ ['*', '/']
  | .lineComment content _ => '/' :: '/' :: content ++ ['\n']

structure Separator where
  first : Char
  isWhite : IsWhite first
  others : List Filler

def Separator.text (separator : Separator) : List Char :=
  separator.first :: separator.others.flatMap Filler.text

/-- One lexeme, or the three of a string, and how they are written. -/
inductive Unit : List (TokenKind × String) → List Char → Prop
  | single {kind : TokenKind} {text : String} :
    kind ≠ .quote → kind ≠ .stringLiteral → Unit [(kind, text)] text.toList
  | quotation {content : String} :
    Unit [(.quote, "\""), (.stringLiteral, content), (.quote, "\"")]
      ('"' :: content.toList ++ ['"'])

/-- Lexemes behind a unit. -/
inductive Continuation : List (TokenKind × String) → List Char → Prop
  | nil : Continuation [] []
  | trailing (separator : Separator) : Continuation [] separator.text
  | cons {unit lexemes : List (TokenKind × String)} {text rest : List Char}
    (separator : Separator) :
    Unit unit text → Continuation lexemes rest →
    Continuation (unit ++ lexemes) (separator.text ++ text ++ rest)

/-- The texts in which lexemes can be written down. -/
inductive Rendering : List (TokenKind × String) → List Char → Prop
  | nil (leading : List Filler) : Rendering [] (leading.flatMap Filler.text)
  | cons {unit lexemes : List (TokenKind × String)} {text rest : List Char}
    (leading : List Filler) :
    Unit unit text → Continuation lexemes rest →
    Rendering (unit ++ lexemes) (leading.flatMap Filler.text ++ text ++ rest)

end BlockLang.Layout
