import BlockLang.Tree.Parse

/-! # Recursive descent

The parser in the form of procedures that share a position among the tokens. A procedure looks at
the next token or at the last one, moves the position, records errors and calls others, as it
likes: nothing in its type says where it leaves the position, and no measure bounds its calls.
What such procedures mean is the least fixed point of their equations. None of them raises a
failure, so one that has no result is one that goes on for ever.
-/
namespace BlockLang

structure SyntaxError.Notice where
  kind : SyntaxError.Kind
  message : String
  place : Place

def SyntaxError.notice (error : SyntaxError) : SyntaxError.Notice :=
  ⟨error.cause.kind, error.cause.message, error.place⟩

def Node.push (node child : Node) : Node :=
  { node with children := node.children ++ [child] }

/-- How many tokens have been passed, and the errors that have been recorded. -/
structure Stand (tokens : List Token) where
  position : Nat
  errors : List SyntaxError.Notice

namespace Stand

variable {tokens : List Token}

def next? (stand : Stand tokens) : Option Token :=
  tokens[stand.position]?

def last? (stand : Stand tokens) : Option Token :=
  match stand.position with
  | 0 => none
  | before + 1 => tokens[before]?

def isNext (kind : TokenKind) (stand : Stand tokens) : Bool :=
  stand.next?.any fun token => token.kind == kind

def isAtEnd (stand : Stand tokens) : Bool :=
  tokens.length ≤ stand.position

def line (stand : Stand tokens) : Nat :=
  match stand.next?.or stand.last? with
  | some token => token.line
  | none => 1

def blame (stand : Stand tokens) : Place :=
  match stand.next?, stand.last? with
  | some next, some last => if next.line = last.line then next.place else last.place
  | some next, none => next.place
  | none, some last => last.place
  | none, none => ⟨1, 1⟩

def advance (stand : Stand tokens) : Stand tokens :=
  if stand.position < tokens.length then { stand with position := stand.position + 1 } else stand

def record (notice : SyntaxError.Notice) (stand : Stand tokens) : Stand tokens :=
  { stand with errors := stand.errors ++ [notice] }

end Stand

/-- A procedure of the parser. Where it does not come to an end it has no result. -/
abbrev Descent (tokens : List Token) := StateT (Stand tokens) Option

namespace Descent

variable {tokens : List Token} {α : Type}

def look (view : Stand tokens → α) : Descent tokens α := do
  return view (← get)

def advance : Descent tokens Unit :=
  modify Stand.advance

/-- Records an error, whose wording the leaf carries. -/
def failWith (kind : SyntaxError.Kind) (message : String) : Descent tokens Node := do
  let place ← look Stand.blame
  modify (Stand.record ⟨kind, message, place⟩)
  return .leaf .error message place.line

def fail (cause : SyntaxError.Cause) : Descent tokens Node :=
  failWith cause.kind cause.message

def failPast (cause : SyntaxError.Cause) : Descent tokens Node := do
  let node ← fail cause
  advance
  return node

def accept (kind : TokenKind) : Descent tokens Bool := do
  if ← look (Stand.isNext kind) then
    advance
    return true
  else
    return false

def expect (kind : TokenKind) (cause : SyntaxError.Cause) (node : Node) : Descent tokens Node := do
  if ← accept kind then
    return node
  else
    return node.push (← fail cause)

/-! ## Operands -/

def literal (kind : NodeKind) (token : Token) : Descent tokens Node := do
  advance
  return .leaf kind token.text token.line

def stringContents : Descent tokens Node := do
  match ← look Stand.next? with
  | some content =>
    if content.kind = .stringLiteral then
      advance
      expect .quote .stringClosing (.leaf .stringLiteral content.text content.line)
    else
      fail .noContents
  | none => fail .noContents

/-- The procedures on operands, which call each other, with what they are called with. -/
inductive OperandRule where
  | factor
  | identifier (name : Token)
  | subscript
  | term
  /-- The loop over the factors of a term, with what stands before them. -/
  | termFrom (left : Node)
  | expression
  /-- The loop over the terms of an expression, with what stands before them. -/
  | expressionFrom (left : Node)

namespace OperandRule

def run : OperandRule → Descent tokens Node
  | factor => do
    match ← look Stand.next? with
    | none => fail .noValue
    | some token =>
      match token.kind with
      | .intLiteral => literal .intLiteral token
      | .realLiteral => literal .realLiteral token
      | .trueWord | .falseWord => literal .boolLiteral token
      | .identifier => do
        advance
        identifier token |>.run
      | .leftParen => do
        advance
        let inner ← expression |>.run
        if ← accept .rightParen then
          return inner
        else
          fail .groupClosing
      | .quote => do
        advance
        stringContents
      | _ =>
        if token.kind = .semicolon then
          fail (.valueStart token.text)
        else
          failPast (.valueStart token.text)
  | identifier name => do
    let node : Node := .leaf .identifier name.text name.line
    if ← look (Stand.isNext .leftBracket) then
      let index ← subscript |>.run
      return node.push index
    else
      return node
  | subscript => do
    let line ← look Stand.line
    advance
    let index ← expression |>.run
    if ← accept .rightBracket then
      return ⟨.subscript, "[]", line, [index]⟩
    else
      fail .indexClosing
  | term => do
    let first ← factor |>.run
    termFrom first |>.run
  | termFrom left => do
    match ← look Stand.next? with
    | some op =>
      if op.kind = .star ∨ op.kind = .slash then
        advance
        let right ← factor |>.run
        termFrom ⟨.arithmetic, op.text, op.line, [left, right]⟩ |>.run
      else
        return left
    | none => return left
  | expression => do
    let first ← term |>.run
    expressionFrom first |>.run
  | expressionFrom left => do
    match ← look Stand.next? with
    | some op =>
      if op.kind = .plus ∨ op.kind = .minus then
        advance
        let right ← term |>.run
        expressionFrom ⟨.arithmetic, op.text, op.line, [left, right]⟩ |>.run
      else
        return left
    | none => return left
partial_fixpoint

end OperandRule

open OperandRule

def comparisonFrom (left : Node) : Descent tokens Node := do
  match ← look Stand.next? with
  | some op =>
    if op.kind.isComparison then
      advance
      let right ← expression.run
      return ⟨.comparison, op.text, op.line, [left, right]⟩
    else
      return left
  | none => return left

def condition : Descent tokens Node := do
  comparisonFrom (← expression.run)

def within (kind : NodeKind) (text : String) (procedure : Descent tokens Node) :
    Descent tokens Node := do
  let line ← look Stand.line
  return ⟨kind, text, line, [← procedure]⟩

/-! ## Simple statements -/

def assignTo (inHeader : Bool) (name : Token) : Descent tokens Node := do
  let target ← (identifier name).run
  if ← accept .assign then
    let node : Node := ⟨.assignment, "=", name.line, [target, ← condition]⟩
    if inHeader then
      return node
    else
      expect .semicolon .assignmentEnd node
  else
    fail (.noAssign name.text)

def assignment (inHeader : Bool) : Descent tokens Node := do
  match ← look Stand.next? with
  | some name =>
    if name.kind = .identifier then
      advance
      assignTo inHeader name
    else
      fail .noTarget
  | none => fail .noTarget

def declaratorSuffix (name : Token) (item : Node) : Descent tokens Node := do
  match ← look Stand.next? with
  | some next =>
    if next.kind = .leftBracket then
      return item.push (← subscript.run)
    else
      match next.kind with
      | .assign | .semicolon | .comma => return item
      | _ => return item.push (← failPast (.unexpectedAfter next.text name.text))
  | none => return item

def declarator : Descent tokens Node := do
  match ← look Stand.next? with
  | some name =>
    if name.kind = .identifier then
      advance
      let item ← declaratorSuffix name (.leaf .declarator name.text name.line)
      if ← accept .assign then
        return item.push (← within .initializer "=" condition)
      else
        return item
    else
      failPast .noName
  | none => failPast .noName

def readTarget (keyword : Token) : Descent tokens Node := do
  match ← look Stand.next? with
  | some name =>
    if name.kind = .identifier then
      advance
      let target ← (identifier name).run
      if ← accept .rightParen then
        if ← accept .semicolon then
          return ⟨.read, keyword.text, keyword.line, [target]⟩
        else
          fail .readEnd
      else
        fail .readClosing
    else
      failPast .noVariable
  | none => failPast .noVariable

def readStatement (keyword : Token) : Descent tokens Node := do
  advance
  if ← accept .leftParen then
    readTarget keyword
  else
    fail .readOpening

def writeStatement (keyword : Token) : Descent tokens Node := do
  advance
  if ← accept .leftParen then
    let value ← expression.run
    if ← accept .rightParen then
      if ← accept .semicolon then
        return ⟨.write, keyword.text, keyword.line, [value]⟩
      else
        fail .writeEnd
    else
      fail .writeClosing
  else
    fail .writeOpening

/-! ## Statements -/

def header (noOpening noClosing : SyntaxError.Cause) (node : Node) : Descent tokens Node := do
  let node ← expect .leftParen noOpening node
  let test ← within .condition "" condition
  expect .rightParen noClosing (node.push test)

/-- The procedures on statements, which call each other, with what they are called with. -/
inductive StatementRule where
  | statement
  | declaration (keyword : Token)
  /-- The loop over the declarators behind the first one. -/
  | declaratorLoop (node : Node)
  | ifStatement (keyword : Token)
  /-- Adds the branch behind an `else`, if there is one. -/
  | alternative (node : Node)
  | whileStatement (keyword : Token)
  | forStatement (keyword : Token)
  | block
  /-- The loop over the statements in braces. -/
  | blockLoop (node : Node)
  /-- The loop over the statements of a program. -/
  | programLoop (node : Node)

namespace StatementRule

def run : StatementRule → Descent tokens Node
  | statement => do
    match ← look Stand.next? with
    | none => failWith .missingToken "expected a statement"
    | some token =>
      match token.kind with
      | .identifier => assignment false
      | .ifWord => ifStatement token |>.run
      | .whileWord => whileStatement token |>.run
      | .forWord => forStatement token |>.run
      | .readWord => readStatement token
      | .writeWord => writeStatement token
      | .intWord | .realWord | .boolWord | .stringWord => declaration token |>.run
      | _ => failPast (.statementStart token.text)
  | declaration keyword => do
    advance
    let first ← declarator
    let node ← declaratorLoop ⟨.declaration, keyword.text, keyword.line, [first]⟩ |>.run
    expect .semicolon .declarationEnd node
  | declaratorLoop node => do
    if ← accept .comma then
      let item ← declarator
      declaratorLoop (node.push item) |>.run
    else
      return node
  | ifStatement keyword => do
    advance
    let node ← header .ifOpening .ifClosing (.leaf .conditional keyword.text keyword.line)
    let body ← block |>.run
    alternative (node.push body) |>.run
  | alternative node => do
    match ← look Stand.next? with
    | some word =>
      if word.kind = .elseWord then
        advance
        let body ← block |>.run
        return node.push ⟨.alternative, word.text, word.line, [body]⟩
      else
        return node
    | none => return node
  | whileStatement keyword => do
    advance
    let node ← header .whileOpening .whileClosing (.leaf .whileLoop keyword.text keyword.line)
    let body ← block |>.run
    return node.push body
  | forStatement keyword => do
    advance
    let node ← expect .leftParen .forOpening (.leaf .forLoop keyword.text keyword.line)
    let init ← within .init "" (assignment true)
    if ← accept .semicolon then
      let test ← within .condition "" condition
      if ← accept .semicolon then
        let step ← within .step "" (assignment true)
        let node ← expect .rightParen .forClosing (((node.push init).push test).push step)
        let body ← block |>.run
        return node.push body
      else
        fail .forConditionEnd
    else
      fail .forInitEnd
  | block => do
    let node : Node := .leaf .block "" (← look Stand.line)
    if ← accept .leftBrace then
      let node ← blockLoop node |>.run
      expect .rightBrace .blockClosing node
    else if ← look Stand.isAtEnd then
      return node.push (← fail .noBody)
    else
      let child ← statement |>.run
      return node.push child
  | blockLoop node => do
    match ← look Stand.next? with
    | some token =>
      if token.kind = .rightBrace then
        return node
      else
        let child ← statement |>.run
        blockLoop (node.push child) |>.run
    | none => return node
  | programLoop node => do
    if ← look Stand.isAtEnd then
      return node
    else
      let child ← statement |>.run
      programLoop (node.push child) |>.run
partial_fixpoint

end StatementRule

def program : Descent tokens Node :=
  (StatementRule.programLoop (.leaf .program "" 1)).run

example :
    let tokens : List Token := [⟨.writeWord, "write", 1, 1⟩, ⟨.leftParen, "(", 1, 6⟩,
      ⟨.intLiteral, "7", 1, 7⟩, ⟨.rightParen, ")", 1, 8⟩, ⟨.semicolon, ";", 1, 9⟩]
    program (⟨0, []⟩ : Stand tokens) =
      some (⟨.program, "", 1, [⟨.write, "write", 1, [.leaf .intLiteral "7" 1]⟩]⟩, ⟨5, []⟩) := by
  cbv

end Descent
end BlockLang
