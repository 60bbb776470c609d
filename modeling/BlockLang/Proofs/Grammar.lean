import BlockLang.Token
import BlockLang.Tree

/-! # The grammar

Every rule says which tokens a phrase consists of and which tree they stand for.
A rule tests the kinds of tokens alone; their texts and lines go into the tree.

    statement  := declaration | assignment `;` | if | while | for | read | write
    declaration := TYPE declarator (`,` declarator)* `;`
    declarator := IDENT suffix? (`=` condition)?
    assignment := IDENT suffix? `=` condition
    if         := `if` `(` condition `)` block (`else` block)?
    while      := `while` `(` condition `)` block
    for        := `for` `(` assignment `;` condition `;` assignment `)` block
    read       := `read` `(` IDENT suffix? `)` `;`
    write      := `write` `(` expression `)` `;`
    block      := `{` statement* `}` | statement
    condition  := expression (COMPARISON expression)?
    expression := term ((`+` | `-`) term)*
    term       := factor ((`*` | `/`) factor)*
    factor     := INT | REAL | BOOL | STRING | IDENT suffix? | `(` expression `)`
    suffix     := `[` expression `]`
-/
namespace BlockLang.Grammar

/-- The line of a phrase is that of its first token. -/
def firstLine : List Token → Nat
  | [] => 1
  | token :: _ => token.line

/-- The levels at which operands bind: a name with or without a subscript, and the levels above. -/
inductive Rank where
  | name | factor | term | expression
deriving DecidableEq

/-- A chain of operators is read from the left, so that its last operator is the outermost. -/
inductive Operand : Rank → List Token → Node → Prop
  | plain {name : Token} :
    name.kind = .identifier →
    Operand .name [name] (.leaf .identifier name.text name.line)
  | subscripted {name opening closing : Token} {ts : List Token} {index : Node} :
    name.kind = .identifier → opening.kind = .leftBracket →
    Operand .expression ts index → closing.kind = .rightBracket →
    Operand .name (name :: opening :: ts ++ [closing])
      ⟨.identifier, name.text, name.line, [⟨.subscript, "[]", opening.line, [index]⟩]⟩
  | ofName {ts : List Token} {n : Node} : Operand .name ts n → Operand .factor ts n
  | int {t : Token} :
    t.kind = .intLiteral → Operand .factor [t] (.leaf .intLiteral t.text t.line)
  | real {t : Token} :
    t.kind = .realLiteral → Operand .factor [t] (.leaf .realLiteral t.text t.line)
  | bool {t : Token} :
    t.kind = .trueWord ∨ t.kind = .falseWord →
    Operand .factor [t] (.leaf .boolLiteral t.text t.line)
  | string {opening content closing : Token} :
    opening.kind = .quote → content.kind = .stringLiteral → closing.kind = .quote →
    Operand .factor [opening, content, closing]
      (.leaf .stringLiteral content.text content.line)
  | group {opening closing : Token} {ts : List Token} {n : Node} :
    opening.kind = .leftParen → Operand .expression ts n → closing.kind = .rightParen →
    Operand .factor (opening :: ts ++ [closing]) n
  | ofFactor {ts : List Token} {n : Node} : Operand .factor ts n → Operand .term ts n
  | product {ts us : List Token} {op : Token} {left right : Node} :
    Operand .term ts left → op.kind = .star ∨ op.kind = .slash → Operand .factor us right →
    Operand .term (ts ++ op :: us) ⟨.arithmetic, op.text, op.line, [left, right]⟩
  | ofTerm {ts : List Token} {n : Node} : Operand .term ts n → Operand .expression ts n
  | sum {ts us : List Token} {op : Token} {left right : Node} :
    Operand .expression ts left → op.kind = .plus ∨ op.kind = .minus → Operand .term us right →
    Operand .expression (ts ++ op :: us) ⟨.arithmetic, op.text, op.line, [left, right]⟩

inductive Condition : List Token → Node → Prop
  | plain {ts : List Token} {n : Node} : Operand .expression ts n → Condition ts n
  | comparison {ts us : List Token} {op : Token} {left right : Node} :
    Operand .expression ts left → op.kind.isComparison → Operand .expression us right →
    Condition (ts ++ op :: us) ⟨.comparison, op.text, op.line, [left, right]⟩

/-- A declarator begins like a name: what follows the name there becomes its first child. -/
inductive Declarator : List Token → Node → Prop
  | plain {ts : List Token} {name : String} {line : Nat} {suffix : List Node} :
    Operand .name ts ⟨.identifier, name, line, suffix⟩ →
    Declarator ts ⟨.declarator, name, line, suffix⟩
  | initialized {ts us : List Token} {sign : Token} {name : String} {line : Nat}
    {suffix : List Node} {value : Node} :
    Operand .name ts ⟨.identifier, name, line, suffix⟩ → sign.kind = .assign →
    Condition us value →
    Declarator (ts ++ sign :: us)
      ⟨.declarator, name, line, suffix ++ [⟨.initializer, "=", firstLine us, [value]⟩]⟩

inductive Declarators : List Token → List Node → Prop
  | one {ts : List Token} {n : Node} : Declarator ts n → Declarators ts [n]
  | more {ts us : List Token} {comma : Token} {n : Node} {ns : List Node} :
    Declarator ts n → comma.kind = .comma → Declarators us ns →
    Declarators (ts ++ comma :: us) (n :: ns)

inductive Assignment : List Token → Node → Prop
  | intro {ts us : List Token} {sign : Token} {target source : Node} :
    Operand .name ts target → sign.kind = .assign → Condition us source →
    Assignment (ts ++ sign :: us) ⟨.assignment, "=", target.line, [target, source]⟩

inductive Part where
  | statement | block | statements
deriving DecidableEq

/-- Statements, blocks and lists of statements. The flag `isOpen` says that an `else` could be
added at the end, because an `if` without one ends there. Without `nearest` the grammar is
ambiguous; with it an `else` goes to the nearest `if` that has none, so that the block before
an `else` must not be open. -/
inductive Derives (nearest : Bool) : Part → Bool → List Token → List Node → Prop
  | declaration {word closing : Token} {ts : List Token} {ns : List Node} :
    word.kind.isTypeWord → Declarators ts ns → closing.kind = .semicolon →
    Derives nearest .statement false (word :: ts ++ [closing])
      [⟨.declaration, word.text, word.line, ns⟩]
  | assignment {closing : Token} {ts : List Token} {n : Node} :
    Assignment ts n → closing.kind = .semicolon →
    Derives nearest .statement false (ts ++ [closing]) [n]
  | read {word opening closing ending : Token} {ts : List Token} {target : Node} :
    word.kind = .readWord → opening.kind = .leftParen → Operand .name ts target →
    closing.kind = .rightParen → ending.kind = .semicolon →
    Derives nearest .statement false (word :: opening :: ts ++ [closing, ending])
      [⟨.read, word.text, word.line, [target]⟩]
  | write {word opening closing ending : Token} {ts : List Token} {value : Node} :
    word.kind = .writeWord → opening.kind = .leftParen → Operand .expression ts value →
    closing.kind = .rightParen → ending.kind = .semicolon →
    Derives nearest .statement false (word :: opening :: ts ++ [closing, ending])
      [⟨.write, word.text, word.line, [value]⟩]
  | conditional {word opening closing : Token} {ts us : List Token} {test body : Node}
    {isOpen : Bool} :
    word.kind = .ifWord → opening.kind = .leftParen → Condition ts test →
    closing.kind = .rightParen → Derives nearest .block isOpen us [body] →
    Derives nearest .statement true (word :: opening :: ts ++ closing :: us)
      [⟨.conditional, word.text, word.line, [⟨.condition, "", firstLine ts, [test]⟩, body]⟩]
  | alternative {word opening closing other : Token} {ts us vs : List Token}
    {test body otherwise : Node} {inner isOpen : Bool} :
    word.kind = .ifWord → opening.kind = .leftParen → Condition ts test →
    closing.kind = .rightParen → Derives nearest .block inner us [body] →
    (nearest → inner = false) → other.kind = .elseWord →
    Derives nearest .block isOpen vs [otherwise] →
    Derives nearest .statement isOpen (word :: opening :: ts ++ closing :: us ++ other :: vs)
      [⟨.conditional, word.text, word.line, [⟨.condition, "", firstLine ts, [test]⟩, body,
        ⟨.alternative, other.text, other.line, [otherwise]⟩]⟩]
  | whileLoop {word opening closing : Token} {ts us : List Token} {test body : Node}
    {isOpen : Bool} :
    word.kind = .whileWord → opening.kind = .leftParen → Condition ts test →
    closing.kind = .rightParen → Derives nearest .block isOpen us [body] →
    Derives nearest .statement isOpen (word :: opening :: ts ++ closing :: us)
      [⟨.whileLoop, word.text, word.line, [⟨.condition, "", firstLine ts, [test]⟩, body]⟩]
  | forLoop {word opening first second closing : Token} {ts us vs ws : List Token}
    {init test step body : Node} {isOpen : Bool} :
    word.kind = .forWord → opening.kind = .leftParen → Assignment ts init →
    first.kind = .semicolon → Condition us test → second.kind = .semicolon →
    Assignment vs step → closing.kind = .rightParen →
    Derives nearest .block isOpen ws [body] →
    Derives nearest .statement isOpen
      (word :: opening :: ts ++ first :: us ++ second :: vs ++ closing :: ws)
      [⟨.forLoop, word.text, word.line, [⟨.init, "", firstLine ts, [init]⟩,
        ⟨.condition, "", firstLine us, [test]⟩, ⟨.step, "", firstLine vs, [step]⟩, body]⟩]
  | braces {opening closing : Token} {ts : List Token} {ns : List Node} {isOpen : Bool} :
    opening.kind = .leftBrace → Derives nearest .statements isOpen ts ns →
    closing.kind = .rightBrace →
    Derives nearest .block false (opening :: ts ++ [closing]) [⟨.block, "", opening.line, ns⟩]
  | bare {ts : List Token} {n : Node} {isOpen : Bool} :
    Derives nearest .statement isOpen ts [n] →
    Derives nearest .block isOpen ts [⟨.block, "", firstLine ts, [n]⟩]
  | nil : Derives nearest .statements false [] []
  | cons {ts us : List Token} {n : Node} {ns : List Node} {first isOpen : Bool} :
    Derives nearest .statement first ts [n] → Derives nearest .statements isOpen us ns →
    Derives nearest .statements isOpen (ts ++ us) (n :: ns)

inductive Program (nearest : Bool) : List Token → Node → Prop
  | intro {ts : List Token} {ns : List Node} {isOpen : Bool} :
    Derives nearest .statements isOpen ts ns → Program nearest ts ⟨.program, "", 1, ns⟩

/-- The lists of token kinds that the grammar allows, no matter where an `else` belongs. -/
def IsSentence (kinds : List TokenKind) : Prop :=
  ∃ tokens tree, tokens.map Token.kind = kinds ∧ Program false tokens tree

theorem Operand.ne_nil {rank : Rank} {ts : List Token} {n : Node} (h : Operand rank ts n) :
    ts ≠ [] := by
  induction h <;> simp_all

theorem Condition.ne_nil {ts : List Token} {n : Node} (h : Condition ts n) : ts ≠ [] := by
  cases h with
  | plain he => exact he.ne_nil
  | comparison => simp

theorem Assignment.ne_nil {ts : List Token} {n : Node} (h : Assignment ts n) : ts ≠ [] := by
  cases h
  simp

theorem Operand.first_eq {ts : List Token} {n : Node} (h : Operand .name ts n) :
    ∃ name tokens, ts = name :: tokens ∧ name.kind = .identifier := by
  cases h with
  | plain hk => exact ⟨_, _, rfl, hk⟩
  | subscripted hk => exact ⟨_, _, rfl, hk⟩

/-- The kinds with which no statement begins, although a statement may stand in front of them. -/
def stopping : List TokenKind :=
  [.elseWord, .leftBrace, .rightBrace]

theorem Derives.first_not_mem {nearest isOpen : Bool} {ts : List Token} {ns : List Node}
    (h : Derives nearest .statement isOpen ts ns) :
    ∃ token tokens, ts = token :: tokens ∧ token.kind ∉ stopping := by
  cases h with
  | @declaration word _ _ _ hk =>
    refine ⟨_, _, rfl, ?_⟩
    cases hw : word.kind <;> simp_all [TokenKind.isTypeWord, stopping]
  | assignment ha =>
    obtain ⟨ht, -, -⟩ := ha
    obtain ⟨name, tokens, rfl, hk⟩ := ht.first_eq
    exact ⟨_, _, rfl, by simp [hk, stopping]⟩
  | read hk => exact ⟨_, _, rfl, by simp [hk, stopping]⟩
  | write hk => exact ⟨_, _, rfl, by simp [hk, stopping]⟩
  | conditional hk => exact ⟨_, _, rfl, by simp [hk, stopping]⟩
  | alternative hk => exact ⟨_, _, rfl, by simp [hk, stopping]⟩
  | whileLoop hk => exact ⟨_, _, rfl, by simp [hk, stopping]⟩
  | forLoop hk => exact ⟨_, _, rfl, by simp [hk, stopping]⟩

end BlockLang.Grammar
