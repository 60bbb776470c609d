import BlockLang.Token.Error
import BlockLang.Numeral

/-! # Scanning

A line is cut into pieces from left to right: blanks, comments, lexemes, quoted
strings and faulty runs. Each piece says which tokens and errors it yields at
the place where it stands, so that together the pieces spell the whole line.
A block comment alone outlives its line.
-/
namespace BlockLang.Scan

def isBlank (c : Char) : Bool :=
  c == ' ' || c == '\r' || c == '\t'

def isWordChar (c : Char) : Bool :=
  c.isAlphanum || c == '_'

def isNumberChar (c : Char) : Bool :=
  isWordChar c || c == '.'

inductive Piece where
  | blank (c : Char)
  | lineComment (text : List Char)
  | commentOpening
  | lexeme (kind : TokenKind) (text : List Char)
  | quotation (content : List Char)
  | openQuotation (content : List Char)
  | fault (cause : LexicalError.Cause) (text : List Char)

namespace Piece

def text : Piece → List Char
  | .blank c => [c]
  | .lineComment text => text
  | .commentOpening => ['/', '*']
  | .lexeme _ text => text
  | .quotation content => '"' :: content ++ ['"']
  | .openQuotation content => '"' :: content
  | .fault _ text => text

/-- The tokens of a piece that stands at `place`; a closed string has three. -/
def tokens (place : Place) : Piece → List Token
  | .lexeme kind text => [⟨kind, String.ofList text, place⟩]
  | .quotation content =>
    [⟨.quote, "\"", place⟩,
      ⟨.stringLiteral, String.ofList content, ⟨place.line, place.column + 1⟩⟩,
      ⟨.quote, "\"", ⟨place.line, place.column + 1 + content.length⟩⟩]
  | .openQuotation _ => [⟨.quote, "\"", place⟩]
  | .blank _ | .lineComment _ | .commentOpening | .fault .. => []

def errors (place : Place) : Piece → List LexicalError
  | .openQuotation content => [⟨.unclosedString (String.ofList content), place⟩]
  | .fault cause _ => [⟨cause, place⟩]
  | .blank _ | .lineComment _ | .commentOpening | .lexeme .. | .quotation _ => []

def comment? (place : Place) : Piece → Option Place
  | .commentOpening => some place
  | _ => none

def lastKind (last : Option TokenKind) : Piece → Option TokenKind
  | .lexeme kind _ => some kind
  | .quotation _ | .openQuotation _ => some .quote
  | .blank _ | .lineComment _ | .commentOpening | .fault .. => last

end Piece

/-- The kinds whose spelling is one character that begins no longer piece. -/
def symbol? : Char → Option TokenKind
  | '(' => some .leftParen
  | ')' => some .rightParen
  | '\x7b' => some .leftBrace
  | '\x7d' => some .rightBrace
  | '[' => some .leftBracket
  | ']' => some .rightBracket
  | ',' => some .comma
  | ';' => some .semicolon
  | '+' => some .plus
  | '*' => some .star
  | '/' => some .slash
  | '=' => some .assign
  | '<' => some .less
  | '>' => some .greater
  | _ => none

/-- A run of letters, digits and underscores is a keyword, an identifier or a fault. -/
def word (text : List Char) : Piece :=
  match TokenKind.keyword? (String.ofList text) with
  | some kind => .lexeme kind text
  | none =>
    if (text.head?.any Char.isAlpha) && text.getLast? != some '_' then
      .lexeme .identifier text
    else
      .fault (.malformedIdentifier (String.ofList text)) text

/-- A run that begins like a number is an integer, a real or a fault. -/
def number (text : List Char) : Piece :=
  if Numeral.isIntegerText text then
    if (Numeral.integer? text).isSome then
      .lexeme .intLiteral text
    else
      .fault (.integerRange (String.ofList text)) text
  else if Numeral.isRealText text then
    .lexeme .realLiteral text
  else
    .fault (.malformedNumber (String.ofList text)) text

/-- A string runs to the next quote, or to the end of a line without one. -/
def quoted (text : List Char) : Piece × List Char :=
  let content := text.takeWhile (· != '"')
  match text.dropWhile (· != '"') with
  | [] => (.openQuotation content, [])
  | _ :: rest => (.quotation content, rest)

/-- Behind a value a `-` subtracts; elsewhere it is the sign of a number. -/
def dash (afterValue : Bool) (text : List Char) : Piece × List Char :=
  if afterValue then
    (.lexeme .minus ['-'], text)
  else if text.head?.any Char.isDigit then
    (number ('-' :: text.takeWhile isNumberChar), text.dropWhile isNumberChar)
  else
    (.fault .strayMinus ['-'], text)

def cut (afterValue : Bool) (c : Char) (text : List Char) : Piece × List Char :=
  match c, text with
  | '/', '/' :: rest => (.lineComment ('/' :: '/' :: rest), [])
  | '/', '*' :: rest => (.commentOpening, rest)
  | '*', '/' :: rest => (.fault .unopenedComment ['*', '/'], rest)
  | '=', '=' :: rest => (.lexeme .equal ['=', '='], rest)
  | '<', '>' :: rest => (.lexeme .notEqual ['<', '>'], rest)
  | '"', text => quoted text
  | '-', text => dash afterValue text
  | c, text =>
    if isBlank c then
      (.blank c, text)
    else if c.isDigit then
      (number (c :: text.takeWhile isNumberChar), text.dropWhile isNumberChar)
    else if isWordChar c then
      (word (c :: text.takeWhile isWordChar), text.dropWhile isWordChar)
    else
      match symbol? c with
      | some kind => (.lexeme kind [c], text)
      | none => (.fault (.unknownCharacter c) [c], text)

theorem length_dropWhile_le (p : Char → Bool) (text : List Char) :
    (text.dropWhile p).length ≤ text.length :=
  (List.dropWhile_suffix p).length_le

theorem quoted_length_le (text : List Char) : (quoted text).2.length ≤ text.length := by
  have h := length_dropWhile_le (· != '"') text
  unfold quoted
  split
  · exact Nat.zero_le _
  · rename_i heq
    rw [heq, List.length_cons] at h
    exact Nat.le_of_succ_le h

theorem dash_length_le (afterValue : Bool) (text : List Char) :
    (dash afterValue text).2.length ≤ text.length := by
  unfold dash
  split
  · exact Nat.le_refl _
  · split
    · exact length_dropWhile_le _ _
    · exact Nat.le_refl _

theorem cut_length_le (afterValue : Bool) (c : Char) (text : List Char) :
    (cut afterValue c text).2.length ≤ text.length := by
  unfold cut
  split
  · exact Nat.zero_le _
  · exact Nat.le_succ _
  · exact Nat.le_succ _
  · exact Nat.le_succ _
  · exact Nat.le_succ _
  · exact quoted_length_le _
  · exact dash_length_le _ _
  · split
    · exact Nat.le_refl _
    · split
      · exact length_dropWhile_le _ _
      · split
        · exact length_dropWhile_le _ _
        · split <;> exact Nat.le_refl _

/-- Inside a comment: the text behind the first `*/`, and the column where it begins. -/
def commentEnd? (column : Nat) : List Char → Option (Nat × List Char)
  | '*' :: '/' :: rest => some (column + 2, rest)
  | _ :: rest => commentEnd? (column + 1) rest
  | [] => none

theorem commentEnd?_length_lt {column next : Nat} {text rest : List Char}
    (h : commentEnd? column text = some (next, rest)) : rest.length < text.length := by
  fun_induction commentEnd? column text with
  | case1 column rest' =>
    cases h
    exact Nat.lt_add_of_pos_right Nat.two_pos
  | case2 column c rest' _ ih => exact Nat.lt_succ_of_lt (ih h)
  | case3 => cases h

/-- What scanning yields, with the place of the comment that is still open at the end. -/
structure Result where
  tokens : List Token
  errors : List LexicalError
  comment : Option Place

def Result.after (tokens : List Token) (errors : List LexicalError) (later : Result) : Result :=
  ⟨tokens ++ later.tokens, errors ++ later.errors, later.comment⟩

/-- Scans a line from a column on, inside `comment` and behind a token of kind `last`. -/
def fromColumn (line : Nat) (comment : Option Place) (last : Option TokenKind) (column : Nat)
    (text : List Char) : Result :=
  match comment with
  | some opening =>
    match _ : commentEnd? column text with
    | none => ⟨[], [], some opening⟩
    | some (next, rest) => fromColumn line none last next rest
  | none =>
    match text with
    | [] => ⟨[], [], none⟩
    | c :: cs =>
      let place : Place := ⟨line, column⟩
      let first := cut (last.any TokenKind.endsOperand) c cs
      (fromColumn line (first.1.comment? place) (first.1.lastKind last)
        (column + first.1.text.length) first.2).after (first.1.tokens place) (first.1.errors place)
termination_by text.length
decreasing_by
  · exact commentEnd?_length_lt ‹_›
  · exact Nat.lt_succ_of_le (cut_length_le _ _ _)

def ofLine (line : Nat) (comment : Option Place) (last : Option TokenKind) (text : List Char) :
    Result :=
  fromColumn line comment last 1 text

def lastKind (last : Option TokenKind) (tokens : List Token) : Option TokenKind :=
  (tokens.getLast?.map Token.kind).or last

def ofLines (line : Nat) (comment : Option Place) (last : Option TokenKind) :
    List (List Char) → Result
  | [] => ⟨[], [], comment⟩
  | text :: texts =>
    let first := ofLine line comment last text
    (ofLines (line + 1) first.comment (lastKind last first.tokens) texts).after
      first.tokens first.errors

/-- A line that a newline ends loses one carriage return before it; its characters come last
one first. -/
def chomp : List Char → List Char
  | '\r' :: reversed => reversed.reverse
  | reversed => reversed.reverse

/-- The lines of a text whose current line has begun with `reversed`, last character first. -/
def linesFrom (reversed : List Char) : List Char → List (List Char)
  | [] => if reversed.isEmpty then [] else [reversed.reverse]
  | '\n' :: cs => chomp reversed :: linesFrom [] cs
  | c :: cs => linesFrom (c :: reversed) cs

/-- The lines of a text; an empty line at the very end does not count. -/
def linesOf (text : List Char) : List (List Char) :=
  linesFrom [] text

/-- The tokens and errors of a whole text. A comment that is never closed is reported last. -/
def ofText (text : String) : List Token × List LexicalError :=
  let result := ofLines 1 none none (linesOf text.toList)
  (result.tokens, result.errors ++ result.comment.toList.map (⟨.unclosedComment, ·⟩))

end BlockLang.Scan
