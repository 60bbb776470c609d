import BlockLang.Tree.Cursor

/-! # Parsing

A program is a list of statements. Parsing never stops at an error: a missing
delimiter is recorded inside the construct, and a construct that cannot go on
becomes one error leaf, so that every list of tokens has a tree. Binary
operators associate to the left, `*` and `/` bind tighter than `+` and `-`, and
a condition has at most one comparison.
-/
namespace BlockLang.Parse

open Parsed

def binary (kind : NodeKind) (op : Token) (left right : Node) : Node :=
  ⟨kind, op.text, op.line, [left, right]⟩

def stringContents (c : Cursor) : Parsed Node c :=
  match c with
  | ⟨_, content :: tokens⟩ =>
    if content.kind = .stringLiteral then
      (((give [] : Parsed (List Node) ⟨some content, tokens⟩).delimit .quote .stringClosing).node
        .stringLiteral content.text content.line).behind
    else
      fail .noContents
  | ⟨_, []⟩ => fail .noContents

mutual

/-- A literal, a variable, an expression in parentheses or a string in quotes. -/
def factor (c : Cursor) : Parsed Node c :=
  match c with
  | ⟨_, []⟩ => fail .noValue
  | ⟨_, token :: tokens⟩ =>
    match token.kind with
    | .intLiteral => (give (Node.leaf .intLiteral token.text token.line)).behind
    | .realLiteral => (give (Node.leaf .realLiteral token.text token.line)).behind
    | .trueWord | .falseWord => (give (Node.leaf .boolLiteral token.text token.line)).behind
    | .identifier => (identifier token tokens).behind
    | .leftParen =>
      let inner := expression ⟨some token, tokens⟩
      ((inner.accept? .rightParen).getD (inner.andThen (fail .groupClosing))).behind
    | .quote => (stringContents ⟨some token, tokens⟩).behind
    | .semicolon => fail (.valueStart token.text)
    | _ => (fail (.valueStart token.text)).skip
termination_by 4 * c.rest.length
decreasing_by all_goals simp only [List.length_cons]; omega

/-- A variable whose name has been read, with its subscript if one follows. -/
def identifier (name : Token) (tokens : List Token) : Parsed Node ⟨some name, tokens⟩ :=
  match tokens with
  | [] => give (.leaf .identifier name.text name.line)
  | bracket :: tokens =>
    if bracket.kind = .leftBracket then
      ((subscript bracket tokens).map fun index =>
        ⟨.identifier, name.text, name.line, [index]⟩).behind
    else
      give (.leaf .identifier name.text name.line)
termination_by 4 * tokens.length + 1
decreasing_by simp only [List.length_cons]; omega

/-- A subscript whose opening bracket has been read. -/
def subscript (bracket : Token) (tokens : List Token) : Parsed Node ⟨some bracket, tokens⟩ :=
  let index := expression ⟨some bracket, tokens⟩
  (index.map fun node => [node]).require .rightBracket .indexClosing fun children =>
    children.node .subscript "[]" bracket.line
termination_by 4 * tokens.length + 4
decreasing_by omega

def term (c : Cursor) : Parsed Node c :=
  let first := factor c
  first.andThen (termFrom first.value first.next)
termination_by 4 * c.rest.length + 2
decreasing_by
  · omega
  · exact measure_lt _ 4 (by omega)

/-- The factors behind the first one of a term. -/
def termFrom (left : Node) (c : Cursor) : Parsed Node c :=
  match c with
  | ⟨_, []⟩ => give left
  | ⟨_, op :: tokens⟩ =>
    if op.kind = .star ∨ op.kind = .slash then
      let right := factor ⟨some op, tokens⟩
      (right.andThen (termFrom (binary .arithmetic op left right.value) right.next)).behind
    else
      give left
termination_by 4 * c.rest.length + 1
decreasing_by
  · simp only [List.length_cons]
    omega
  · exact measure_lt _ 4 (by simp only [List.length_cons]; omega)

def expression (c : Cursor) : Parsed Node c :=
  let first := term c
  first.andThen (expressionFrom first.value first.next)
termination_by 4 * c.rest.length + 3
decreasing_by
  · omega
  · exact measure_lt _ 4 (by omega)

/-- The terms behind the first one of an expression. -/
def expressionFrom (left : Node) (c : Cursor) : Parsed Node c :=
  match c with
  | ⟨_, []⟩ => give left
  | ⟨_, op :: tokens⟩ =>
    if op.kind = .plus ∨ op.kind = .minus then
      let right := term ⟨some op, tokens⟩
      (right.andThen (expressionFrom (binary .arithmetic op left right.value) right.next)).behind
    else
      give left
termination_by 4 * c.rest.length + 2
decreasing_by
  · simp only [List.length_cons]
    omega
  · exact measure_lt _ 4 (by simp only [List.length_cons]; omega)

end

/-- A comparison may stand behind the first expression of a condition. -/
def comparisonFrom (left : Node) (c : Cursor) : Parsed Node c :=
  match c with
  | ⟨_, []⟩ => give left
  | ⟨_, op :: tokens⟩ =>
    if op.kind.isComparison then
      ((expression ⟨some op, tokens⟩).map (binary .comparison op left)).behind
    else
      give left

/-- One expression, or two with a comparison between them. -/
def condition (c : Cursor) : Parsed Node c :=
  let left := expression c
  left.andThen (comparisonFrom left.value left.next)

def within (kind : NodeKind) (text : String) (parse : (c : Cursor) → Parsed Node c) (c : Cursor) :
    Parsed Node c :=
  (parse c).map fun node => ⟨kind, text, c.line, [node]⟩

/-- A variable, if an identifier is next. -/
def target? (c : Cursor) : Option (Parsed Node c) :=
  match c with
  | ⟨_, []⟩ => none
  | ⟨_, name :: tokens⟩ =>
    if name.kind = .identifier then some (identifier name tokens).behind else none

/-- An assignment whose target has been read; in the header of a `for` it has no `;`. -/
def assignTo {c : Cursor} (inHeader : Bool) (target : Parsed Node c) : Parsed Node c :=
  (target.map fun node => [node]).require .assign (.noAssign target.value.text) fun children =>
    let sides := children.child condition
    (if inHeader then sides else sides.delimit .semicolon .assignmentEnd).node
      .assignment "=" target.value.line

def headerAssignment (c : Cursor) : Parsed Node c :=
  match target? c with
  | some target => assignTo true target
  | none => fail .noTarget

/-- What stands between a declared name and its initializer: a subscript or nothing. -/
def declaratorSuffix (name : Token) (tokens : List Token) :
    Parsed (List Node) ⟨some name, tokens⟩ :=
  match tokens with
  | [] => give []
  | token :: tokens =>
    match token.kind with
    | .leftBracket => ((subscript token tokens).map fun node => [node]).behind
    | .assign | .semicolon | .comma => give []
    | _ => ((fail (.unexpectedAfter token.text name.text)).map fun node => [node]).skip

def declarator (c : Cursor) : Parsed Node c :=
  match c with
  | ⟨_, []⟩ => fail .noName
  | ⟨_, name :: tokens⟩ =>
    if name.kind = .identifier then
      let suffix := declaratorSuffix name tokens
      let parts := match suffix.accept? .assign with
        | some later => later.child (within .initializer "=" condition)
        | none => suffix
      (parts.node .declarator name.text name.line).behind
    else
      (fail .noName).skip

mutual

def declarators (c : Cursor) : Parsed (List Node) c :=
  let first := declarator c
  first.cons (declaratorsFrom first.next)
termination_by 2 * c.rest.length + 1
decreasing_by exact Nat.lt_succ_of_le (Nat.mul_le_mul_left 2 (length_le _))

def declaratorsFrom (c : Cursor) : Parsed (List Node) c :=
  match c with
  | ⟨_, []⟩ => give []
  | ⟨_, comma :: tokens⟩ =>
    if comma.kind = .comma then (declarators ⟨some comma, tokens⟩).behind else give []
termination_by 2 * c.rest.length
decreasing_by simp only [List.length_cons]; omega

end

def declaration (word : Token) (tokens : List Token) : Parsed Node ⟨some word, tokens⟩ :=
  ((declarators ⟨some word, tokens⟩).delimit .semicolon .declarationEnd).node
    .declaration word.text word.line

def read (word : Token) (tokens : List Token) : Parsed Node ⟨some word, tokens⟩ :=
  (give []).require .leftParen .readOpening fun opened =>
    match target? opened.next with
    | none => (opened.andThen (fail .noVariable)).skip
    | some target =>
      (opened.snoc target).require .rightParen .readClosing fun closed =>
        closed.require .semicolon .readEnd fun ended =>
          ended.node .read word.text word.line

def write (word : Token) (tokens : List Token) : Parsed Node ⟨some word, tokens⟩ :=
  (give []).require .leftParen .writeOpening fun opened =>
    (opened.child expression).require .rightParen .writeClosing fun closed =>
      closed.require .semicolon .writeEnd fun ended =>
        ended.node .write word.text word.line

mutual

/-- A statement whose first token has been read. -/
def statement (last : Option Token) (token : Token) (tokens : List Token) :
    Parsed Node ⟨some token, tokens⟩ :=
  match token.kind with
  | .identifier => assignTo false (identifier token tokens)
  | .intWord | .realWord | .boolWord | .stringWord => declaration token tokens
  | .readWord => read token tokens
  | .writeWord => write token tokens
  | .ifWord =>
    let header := (((give []).delimit .leftParen .ifOpening).child
      (within .condition "" condition)).delimit .rightParen .ifClosing
    let body := header.snoc (block header.next)
    (body.andThen (alternative body.value body.next)).node .conditional token.text token.line
  | .whileWord =>
    let header := (((give []).delimit .leftParen .whileOpening).child
      (within .condition "" condition)).delimit .rightParen .whileClosing
    (header.snoc (block header.next)).node .whileLoop token.text token.line
  | .forWord =>
    (((give []).delimit .leftParen .forOpening).child (within .init "" headerAssignment)).require
      .semicolon .forInitEnd fun started =>
        (started.child (within .condition "" condition)).require
          .semicolon .forConditionEnd fun tested =>
            let header := (tested.child (within .step "" headerAssignment)).delimit
              .rightParen .forClosing
            (header.snoc (block header.next)).node .forLoop token.text token.line
  | _ =>
    let failure : Parsed Node ⟨last, token :: tokens⟩ := fail (.statementStart token.text)
    ⟨failure.value, failure.errors, ⟨some token, tokens⟩, .refl _⟩
termination_by 3 * tokens.length + 2
decreasing_by all_goals exact measure_lt _ 3 (Nat.lt_succ_self _)

/-- The `else` branch behind a conditional's `children`, if there is one. -/
def alternative (children : List Node) (c : Cursor) : Parsed (List Node) c :=
  match c with
  | ⟨_, []⟩ => give children
  | ⟨_, word :: tokens⟩ =>
    if word.kind = .elseWord then
      ((block ⟨some word, tokens⟩).map fun body =>
        children ++ [⟨.alternative, word.text, word.line, [body]⟩]).behind
    else
      give children
termination_by 3 * c.rest.length + 1
decreasing_by simp only [List.length_cons]; omega

/-- Statements in braces, or a single statement without them. -/
def block (c : Cursor) : Parsed Node c :=
  match c with
  | ⟨last, []⟩ => (fail .noBody).map fun node => ⟨.block, "", Cursor.line ⟨last, []⟩, [node]⟩
  | ⟨last, token :: tokens⟩ =>
    if token.kind = .leftBrace then
      (((blockItems ⟨some token, tokens⟩).delimit .rightBrace .blockClosing).node
        .block "" token.line).behind
    else
      ((statement last token tokens).map fun node => ⟨.block, "", token.line, [node]⟩).behind
termination_by 3 * c.rest.length + 1
decreasing_by all_goals simp only [List.length_cons]; omega

def blockItems (c : Cursor) : Parsed (List Node) c :=
  match c with
  | ⟨_, []⟩ => give []
  | ⟨last, token :: tokens⟩ =>
    if token.kind = .rightBrace then
      give []
    else
      let first := statement last token tokens
      (first.cons (blockItems first.next)).behind
termination_by 3 * c.rest.length + 1
decreasing_by
  · simp only [List.length_cons]
    omega
  · exact measure_lt _ 3 (by simp only [List.length_cons]; omega)

end

def statements (c : Cursor) : Parsed (List Node) c :=
  match c with
  | ⟨_, []⟩ => give []
  | ⟨last, token :: tokens⟩ =>
    let first := statement last token tokens
    (first.cons (statements first.next)).behind
termination_by c.rest.length
decreasing_by exact Nat.lt_succ_of_le (length_le _)

/-- The tree of a list of tokens, and the errors in the order in which they were met. -/
def program (tokens : List Token) : Node × List SyntaxError :=
  let parsed := statements ⟨none, tokens⟩
  (⟨.program, "", 1, parsed.value⟩, parsed.errors)

end BlockLang.Parse
