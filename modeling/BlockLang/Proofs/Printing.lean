import BlockLang.Proofs.Lexeme
import BlockLang.Proofs.Shape.Literals

/-! # Printing trees

A tree is printed with its bodies in braces. A sum is put in parentheses where it is an
operand of a product or the right operand of a sum, and any other arithmetic where it is the
right operand of a product. The tokens then are a sentence that stands for this very tree.
-/
namespace BlockLang

namespace Lexeme

def spelled (kind : TokenKind) : TokenKind × String :=
  (kind, kind.spelling?.getD "")

def operators : List TokenKind :=
  [.plus, .minus, .star, .slash, .equal, .notEqual, .less, .greater]

def symbol (text : String) : TokenKind × String :=
  (((operators ++ TokenKind.keywords).find? fun kind => kind.spelling? == some text).getD
    .identifier, text)

def grouped (parens : Bool) (lexemes : List (TokenKind × String)) : List (TokenKind × String) :=
  if parens then spelled .leftParen :: lexemes ++ [spelled .rightParen] else lexemes

end Lexeme

namespace Node
open Lexeme

def isArithmetic (n : Node) : Bool :=
  n.kind == .arithmetic

def isSum (n : Node) : Bool :=
  n.isArithmetic && (n.text == "+" || n.text == "-")

/-- What is printed in a list of statements: an assignment has no `;` of its own, since there is
none behind the last one in the header of a `for`. -/
def ended (n : Node) (lexemes : List (TokenKind × String)) : List (TokenKind × String) :=
  if n.kind = .assignment then lexemes ++ [spelled .semicolon] else lexemes

/-- What is printed for a node whose children have been printed. -/
def phrase (kind : NodeKind) (text : String) (parts : List (Node × List (TokenKind × String))) :
    List (TokenKind × String) :=
  match kind, parts with
  | .declaration, parts =>
    symbol text :: [spelled .comma].intercalate (parts.map Prod.snd) ++ [spelled .semicolon]
  | .declarator, parts | .identifier, parts => (.identifier, text) :: parts.flatMap Prod.snd
  | .subscript, parts => spelled .leftBracket :: parts.flatMap Prod.snd ++ [spelled .rightBracket]
  | .initializer, parts => spelled .assign :: parts.flatMap Prod.snd
  | .assignment, [(_, target), (_, source)] => target ++ spelled .assign :: source
  | .read, parts =>
    spelled .readWord :: grouped true (parts.flatMap Prod.snd) ++ [spelled .semicolon]
  | .write, parts =>
    spelled .writeWord :: grouped true (parts.flatMap Prod.snd) ++ [spelled .semicolon]
  | .conditional, (_, test) :: parts =>
    spelled .ifWord :: grouped true test ++ parts.flatMap Prod.snd
  | .alternative, parts => spelled .elseWord :: parts.flatMap Prod.snd
  | .whileLoop, (_, test) :: parts =>
    spelled .whileWord :: grouped true test ++ parts.flatMap Prod.snd
  | .forLoop, [(_, init), (_, test), (_, step), (_, body)] =>
    spelled .forWord ::
      grouped true (init ++ spelled .semicolon :: test ++ spelled .semicolon :: step) ++ body
  | .init, parts | .step, parts | .condition, parts => parts.flatMap Prod.snd
  | .block, parts =>
    spelled .leftBrace :: (parts.flatMap fun part => part.1.ended part.2) ++ [spelled .rightBrace]
  | .program, parts => parts.flatMap fun part => part.1.ended part.2
  | .intLiteral, _ => [(.intLiteral, text)]
  | .realLiteral, _ => [(.realLiteral, text)]
  | .boolLiteral, _ => [symbol text]
  | .stringLiteral, _ => [spelled .quote, (.stringLiteral, text), spelled .quote]
  | .comparison, [(_, left), (_, right)] => left ++ symbol text :: right
  | .arithmetic, [(l, left), (r, right)] =>
    if text = "+" ∨ text = "-" then
      left ++ symbol text :: grouped r.isSum right
    else
      grouped l.isSum left ++ symbol text :: grouped r.isArithmetic right
  | _, _ => []

mutual

def print : Node → List (TokenKind × String)
  | ⟨kind, text, _, children⟩ => phrase kind text (printAll children)

def printAll : List Node → List (Node × List (TokenKind × String))
  | [] => []
  | n :: nodes => (n, print n) :: printAll nodes

end

theorem printAll_eq_map (nodes : List Node) : printAll nodes = nodes.map fun n => (n, n.print) := by
  induction nodes with
  | nil => rfl
  | cons n nodes ih => rw [printAll, ih, List.map_cons]

theorem print_eq (kind : NodeKind) (text : String) (line : Nat) (children : List Node) :
    print ⟨kind, text, line, children⟩ = phrase kind text (children.map fun n => (n, n.print)) := by
  rw [print, printAll_eq_map]

/-! ## What is printed -/

variable {text : String} {line : Nat}

theorem flatMap_printed (nodes : List Node) :
    (nodes.map fun n => (n, n.print)).flatMap Prod.snd = nodes.flatMap print :=
  List.flatMap_map _ _ _

theorem flatMap_printed_singleton (n : Node) :
    ([n].map fun n => (n, n.print)).flatMap Prod.snd = n.print :=
  (flatMap_printed [n]).trans (List.flatMap_singleton print n)

theorem flatMap_ended (stmts : List Node) :
    ((stmts.map fun n => (n, n.print)).flatMap fun part => part.1.ended part.2) =
      stmts.flatMap fun stmt => stmt.ended stmt.print :=
  List.flatMap_map _ _ _

theorem print_intLiteral : print (.leaf .intLiteral text line) = [(.intLiteral, text)] :=
  print_eq _ _ _ _

theorem print_realLiteral : print (.leaf .realLiteral text line) = [(.realLiteral, text)] :=
  print_eq _ _ _ _

theorem print_boolLiteral : print (.leaf .boolLiteral text line) = [symbol text] :=
  print_eq _ _ _ _

theorem print_stringLiteral : print (.leaf .stringLiteral text line) =
    [spelled .quote, (.stringLiteral, text), spelled .quote] :=
  print_eq _ _ _ _

theorem print_identifier (name : String) (suffix : List Node) :
    print ⟨.identifier, name, line, suffix⟩ = (.identifier, name) :: suffix.flatMap print := by
  rw [print_eq, ← flatMap_printed]
  rfl

theorem print_subscript (index : Node) :
    print ⟨.subscript, text, line, [index]⟩ =
      spelled .leftBracket :: index.print ++ [spelled .rightBracket] := by
  rw [print_eq, ← flatMap_printed_singleton index]
  rfl

theorem print_arithmetic (left right : Node) :
    print ⟨.arithmetic, text, line, [left, right]⟩ =
      if text = "+" ∨ text = "-" then
        left.print ++ symbol text :: grouped right.isSum right.print
      else
        grouped left.isSum left.print ++ symbol text ::
          grouped right.isArithmetic right.print :=
  print_eq _ _ _ _

theorem print_comparison (left right : Node) :
    print ⟨.comparison, text, line, [left, right]⟩ = left.print ++ symbol text :: right.print :=
  print_eq _ _ _ _

/-- A declarator is printed like a name, and its initializer behind it. -/
theorem print_declarator (name : String) (suffix rest : List Node) :
    print ⟨.declarator, name, line, suffix ++ rest⟩ =
      print ⟨.identifier, name, line, suffix⟩ ++ rest.flatMap print := by
  rw [print_identifier, List.cons_append, ← List.flatMap_append, print_eq, ← flatMap_printed]
  rfl

theorem print_initializer (value : Node) :
    print ⟨.initializer, text, line, [value]⟩ = spelled .assign :: value.print := by
  rw [print_eq, ← flatMap_printed_singleton value]
  rfl

theorem print_declaration (items : List Node) :
    print ⟨.declaration, text, line, items⟩ =
      symbol text :: [spelled .comma].intercalate (items.map print) ++ [spelled .semicolon] := by
  have hmap : (items.map fun n => (n, n.print)).map Prod.snd = items.map print := List.map_map
  rw [print_eq, ← hmap]
  rfl

theorem print_assignment (target source : Node) :
    print ⟨.assignment, text, line, [target, source]⟩ =
      target.print ++ spelled .assign :: source.print :=
  print_eq _ _ _ _

theorem print_read (target : Node) :
    print ⟨.read, text, line, [target]⟩ =
      spelled .readWord :: grouped true target.print ++ [spelled .semicolon] := by
  rw [print_eq, ← flatMap_printed_singleton target]
  rfl

theorem print_write (value : Node) :
    print ⟨.write, text, line, [value]⟩ =
      spelled .writeWord :: grouped true value.print ++ [spelled .semicolon] := by
  rw [print_eq, ← flatMap_printed_singleton value]
  rfl

theorem print_conditional (test : Node) (branches : List Node) :
    print ⟨.conditional, text, line, test :: branches⟩ =
      spelled .ifWord :: grouped true test.print ++ branches.flatMap print := by
  rw [print_eq, ← flatMap_printed]
  rfl

theorem print_alternative (body : Node) :
    print ⟨.alternative, text, line, [body]⟩ = spelled .elseWord :: body.print := by
  rw [print_eq, ← flatMap_printed_singleton body]
  rfl

theorem print_whileLoop (test body : Node) :
    print ⟨.whileLoop, text, line, [test, body]⟩ =
      spelled .whileWord :: grouped true test.print ++ body.print := by
  rw [print_eq, ← flatMap_printed_singleton body]
  rfl

theorem print_forLoop (init test step body : Node) :
    print ⟨.forLoop, text, line, [init, test, step, body]⟩ =
      spelled .forWord :: grouped true (init.print ++ spelled .semicolon :: test.print ++
        spelled .semicolon :: step.print) ++ body.print :=
  print_eq _ _ _ _

/-- A part of a header is printed as what it wraps. -/
theorem print_part {kind : NodeKind} (hk : kind = .init ∨ kind = .step ∨ kind = .condition)
    (inner : Node) : print ⟨kind, text, line, [inner]⟩ = inner.print := by
  rw [print_eq, ← flatMap_printed_singleton inner]
  obtain rfl | rfl | rfl := hk <;> rfl

theorem print_block (stmts : List Node) :
    print ⟨.block, text, line, stmts⟩ =
      spelled .leftBrace :: (stmts.flatMap fun stmt => stmt.ended stmt.print) ++
        [spelled .rightBrace] := by
  rw [print_eq, ← flatMap_ended]
  rfl

theorem print_program (stmts : List Node) :
    print ⟨.program, text, line, stmts⟩ = stmts.flatMap fun stmt => stmt.ended stmt.print := by
  rw [print_eq, ← flatMap_ended]
  rfl

/-! ## Lines -/

def OnLine (line : Nat) (tree : Node) : Prop :=
  ∀ n : Node, n.OccursIn tree → n.line = line

theorem OnLine.line_eq {tree : Node} (h : OnLine line tree) : tree.line = line :=
  h tree .here

theorem onLine_iff {first : Nat} {kind : NodeKind} {children : List Node} :
    OnLine line ⟨kind, text, first, children⟩ ↔
      first = line ∧ ∀ child ∈ children, child.OnLine line := by
  constructor
  · intro h
    exact ⟨h.line_eq, fun child hc n hn => h n (.inside hc hn)⟩
  · rintro ⟨hfirst, hchildren⟩ n hn
    cases hn with
    | here => exact hfirst
    | inside hc hn => exact hchildren _ hc n hn

theorem OnLine.child {first : Nat} {kind : NodeKind} {children : List Node}
    (h : OnLine line ⟨kind, text, first, children⟩) {child : Node} (hc : child ∈ children) :
    OnLine line child :=
  (onLine_iff.1 h).2 child hc

end Node
end BlockLang
