import BlockLang.Tree
import BlockLang.Tree.Error

/-! # The parser's cursor

Parsing reads tokens behind a cursor. A `Parsed` value holds what a procedure
has built, the errors it has recorded and the cursor that it leaves, and it
records that the cursor has only moved over tokens. A parser that fails records one
error and puts a leaf with the same wording into the tree.
-/
namespace BlockLang

/-- The token before the cursor, if there is one, and the tokens behind it. -/
structure Cursor where
  last : Option Token
  rest : List Token

namespace Cursor

def line (cursor : Cursor) : Nat :=
  match cursor.rest.head?.or cursor.last with
  | some token => token.line
  | none => 1

/-- Where a failure is blamed: on the next token if it stands on the line of the last one,
and else on the last one. -/
def blame (cursor : Cursor) : Place :=
  match cursor.rest, cursor.last with
  | next :: _, some last => if next.line = last.line then next.place else last.place
  | next :: _, none => next.place
  | [], some last => last.place
  | [], none => ⟨1, 1⟩

def skip (cursor : Cursor) : Cursor :=
  match cursor.rest with
  | token :: tokens => ⟨some token, tokens⟩
  | [] => cursor

/-- A cursor has been moved over some tokens, the last of which is now before it. -/
def Reaches (start next : Cursor) : Prop :=
  ∃ read, start.rest = read ++ next.rest ∧ next.last = read.getLast?.or start.last

theorem Reaches.refl (cursor : Cursor) : cursor.Reaches cursor :=
  ⟨[], rfl, rfl⟩

theorem Reaches.trans {start next later : Cursor} (h : start.Reaches next)
    (hl : next.Reaches later) : start.Reaches later := by
  obtain ⟨read, hr, hlast⟩ := h
  obtain ⟨more, hm, hlater⟩ := hl
  refine ⟨read ++ more, by rw [hr, hm, List.append_assoc], ?_⟩
  rw [hlater, hlast, List.getLast?_append, Option.or_assoc]

theorem reaches_cons (last : Option Token) (token : Token) (tokens : List Token) :
    Reaches ⟨last, token :: tokens⟩ ⟨some token, tokens⟩ :=
  ⟨[token], rfl, rfl⟩

theorem reaches_skip (cursor : Cursor) : cursor.Reaches cursor.skip := by
  obtain ⟨last, rest⟩ := cursor
  cases rest with
  | nil => exact .refl _
  | cons token tokens => exact reaches_cons last token tokens

theorem Reaches.length_le {start next : Cursor} (h : start.Reaches next) :
    next.rest.length ≤ start.rest.length := by
  obtain ⟨read, hr, -⟩ := h
  rw [hr, List.length_append]
  exact Nat.le_add_left _ _

end Cursor

structure Parsed (α : Type) (start : Cursor) where
  value : α
  errors : List SyntaxError
  next : Cursor
  reaches : start.Reaches next

namespace Parsed

variable {α β : Type} {start : Cursor}

def give (value : α) : Parsed α start :=
  ⟨value, [], start, .refl start⟩

/-- Reads nothing and records an error, whose wording the leaf carries. -/
def fail (cause : SyntaxError.Cause) : Parsed Node start :=
  ⟨.leaf .error cause.message start.blame.line, [⟨cause, start.blame⟩], start, .refl start⟩

def map (f : α → β) (parsed : Parsed α start) : Parsed β start :=
  ⟨f parsed.value, parsed.errors, parsed.next, parsed.reaches⟩

/-- Continues behind a result and drops its value, but not its errors. -/
def andThen (parsed : Parsed α start) (later : Parsed β parsed.next) : Parsed β start :=
  ⟨later.value, parsed.errors ++ later.errors, later.next,
    parsed.reaches.trans later.reaches⟩

/-- What is parsed behind a token, seen from before that token. -/
def behind {last : Option Token} {token : Token} {tokens : List Token}
    (parsed : Parsed α ⟨some token, tokens⟩) : Parsed α ⟨last, token :: tokens⟩ :=
  ⟨parsed.value, parsed.errors, parsed.next,
    (Cursor.reaches_cons last token tokens).trans parsed.reaches⟩

def skip (parsed : Parsed α start) : Parsed α start :=
  ⟨parsed.value, parsed.errors, parsed.next.skip,
    parsed.reaches.trans (Cursor.reaches_skip _)⟩

def cons (parsed : Parsed α start) (later : Parsed (List α) parsed.next) :
    Parsed (List α) start :=
  parsed.andThen (later.map (parsed.value :: ·))

def snoc (parsed : Parsed (List Node) start) (later : Parsed Node parsed.next) :
    Parsed (List Node) start :=
  parsed.andThen (later.map fun node => parsed.value ++ [node])

def child (parsed : Parsed (List Node) start) (parse : (next : Cursor) → Parsed Node next) :
    Parsed (List Node) start :=
  parsed.snoc (parse parsed.next)

def node (kind : NodeKind) (text : String) (line : Nat) (parsed : Parsed (List Node) start) :
    Parsed Node start :=
  parsed.map fun children => ⟨kind, text, line, children⟩

def accept? (kind : TokenKind) (parsed : Parsed α start) : Option (Parsed α start) :=
  if parsed.next.rest.head?.any fun token => token.kind == kind then some parsed.skip else none

/-- Moves past a token of a kind, or records its absence as a leaf among the children. -/
def delimit (kind : TokenKind) (cause : SyntaxError.Cause) (parsed : Parsed (List Node) start) :
    Parsed (List Node) start :=
  (parsed.accept? kind).getD (parsed.snoc (fail cause))

/-- Continues past a token of a kind; its absence replaces the whole construct by a leaf. -/
def require (kind : TokenKind) (cause : SyntaxError.Cause) (parsed : Parsed (List Node) start)
    (proceed : Parsed (List Node) start → Parsed Node start) : Parsed Node start :=
  match parsed.accept? kind with
  | some later => proceed later
  | none => parsed.andThen (fail cause)

theorem length_le (parsed : Parsed α start) : parsed.next.rest.length ≤ start.rest.length :=
  parsed.reaches.length_le

/-- A measure of the tokens left decreases wherever it decreased before a result was parsed. -/
theorem measure_lt (parsed : Parsed α start) (scale : Nat) {rank bound : Nat}
    (h : scale * start.rest.length + rank < bound) :
    scale * parsed.next.rest.length + rank < bound :=
  Nat.lt_of_le_of_lt (Nat.add_le_add_right (Nat.mul_le_mul_left scale parsed.length_le) rank) h

end Parsed
end BlockLang
