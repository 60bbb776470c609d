import BlockLang.Proofs.Descent.Correspondence
import BlockLang.Proofs.Tree.Procedures
import BlockLang.Token.Scan

/-! # The descent and the parser

Begun at a stand, each procedure of the descent gives what the parser gives from the cursor there.
So the recursion of the parser on the tokens that are left is the least fixed point of procedures
that know nothing of it, and what is true of their position is true of the parser's cursor.
-/
namespace BlockLang
namespace Descent
open Parsed OperandRule StatementRule

variable {tokens : List Token} {α : Type} {c : Cursor} {stand : Stand tokens}
  {earlier : List SyntaxError.Notice}

/-! ## Operands -/

theorem gives_literal {last : Option Token} {token : Token} {rest : List Token}
    (h : stand.At ⟨last, token :: rest⟩) (kind : NodeKind) :
    Gives stand.errors (literal kind token) stand
      (behind (give (.leaf kind token.text token.line)) : Parsed Node ⟨last, token :: rest⟩) :=
  gives_advance (gives_give h.advance _)

theorem gives_stringContents (h : stand.At c) :
    Gives stand.errors stringContents stand (Parse.stringContents c) := by
  obtain ⟨last, rest⟩ := c
  rw [Parse.stringContents.eq_def]
  cases rest with
  | nil => exact gives_nil h (gives_fail h _)
  | cons content rest =>
    refine gives_cons h ?_
    dsimp only
    split
    · exact gives_advance (gives_expect (h.advance.follows []) _ _ _ _ _)
    · exact gives_fail h _

mutual

theorem gives_factor : (c : Cursor) → (stand : Stand tokens) → stand.At c →
    Gives stand.errors factor.run stand (Parse.factor c)
  | ⟨last, []⟩, stand, h => by
    rw [OperandRule.run, Parse.factor]
    exact gives_nil h (gives_fail h _)
  | ⟨last, token :: rest⟩, stand, h => by
    rw [OperandRule.run, Parse.factor]
    refine gives_cons h ?_
    dsimp only
    split <;> rename_i hk
    iterate 4
      · simp only [hk]
        exact gives_literal h _
    · simp only [hk]
      exact gives_advance (gives_identifier token rest _ h.advance)
    · simp only [hk]
      refine gives_advance ?_
      refine (gives_expression ⟨some token, rest⟩ _ h.advance).bind fun later hl => ?_
      refine gives_accept hl (fun ha hs => ?_) fun ha => ?_
      · rw [ha]
        exact gives_pure hs
      · rw [ha]
        exact gives_andThen hl fun hc => gives_fail hc _
    · simp only [hk]
      exact gives_advance (gives_stringContents h.advance)
    · by_cases hs : token.kind = .semicolon
      · simp only [hs]
        exact gives_fail h _
      · rw [if_neg hs]
        split <;> try contradiction
        exact gives_failPast h _
termination_by c => 4 * c.rest.length
decreasing_by all_goals simp only [List.length_cons]; omega

theorem gives_identifier (name : Token) : (rest : List Token) → (stand : Stand tokens) →
    stand.At ⟨some name, rest⟩ →
    Gives stand.errors (identifier name).run stand (Parse.identifier name rest)
  | [], stand, h => by
    rw [OperandRule.run, Parse.identifier]
    exact gives_isNext h (gives_give h _)
  | bracket :: rest, stand, h => by
    rw [OperandRule.run, Parse.identifier]
    refine gives_isNext h ?_
    simp only [List.head?_cons, Option.any_some, beq_iff_eq]
    split
    · exact (gives_subscript _ bracket rest stand h).bind fun later hl => ends_pure ⟨rfl, hl⟩
    · exact gives_give h _
termination_by rest => 4 * rest.length + 1
decreasing_by simp only [List.length_cons]; omega

theorem gives_subscript (last : Option Token) (bracket : Token) (rest : List Token)
    (stand : Stand tokens) (h : stand.At ⟨last, bracket :: rest⟩) :
    Gives stand.errors subscript.run stand (Parse.subscript bracket rest) := by
  rw [OperandRule.run, Parse.subscript]
  refine gives_line h (gives_advance ?_)
  refine (gives_expression ⟨some bracket, rest⟩ _ h.advance).bind fun later hl => ?_
  exact gives_require hl fun hs => ends_pure ⟨rfl, hs⟩
termination_by 4 * rest.length + 4
decreasing_by omega

theorem gives_term (c : Cursor) (stand : Stand tokens) (h : stand.At c) :
    Gives stand.errors term.run stand (Parse.term c) := by
  rw [OperandRule.run, Parse.term]
  refine (gives_factor c stand h).bind fun later hl => ?_
  exact gives_andThen hl fun hc => gives_termFrom _ _ later hc
termination_by 4 * c.rest.length + 2
decreasing_by
  · omega
  · exact measure_lt _ 4 (by omega)

theorem gives_termFrom (left : Node) : (c : Cursor) → (stand : Stand tokens) → stand.At c →
    Gives stand.errors (termFrom left).run stand (Parse.termFrom left c)
  | ⟨last, []⟩, stand, h => by
    rw [OperandRule.run, Parse.termFrom]
    exact gives_nil h (gives_give h left)
  | ⟨last, op :: rest⟩, stand, h => by
    rw [OperandRule.run, Parse.termFrom]
    refine gives_cons h ?_
    dsimp only
    split
    · refine gives_advance ((gives_factor ⟨some op, rest⟩ _ h.advance).bind fun later hl => ?_)
      exact gives_andThen hl fun hc => gives_termFrom _ _ later hc
    · exact gives_give h left
termination_by c => 4 * c.rest.length + 1
decreasing_by
  · simp only [List.length_cons]
    omega
  · exact measure_lt _ 4 (by simp only [List.length_cons]; omega)

theorem gives_expression (c : Cursor) (stand : Stand tokens) (h : stand.At c) :
    Gives stand.errors expression.run stand (Parse.expression c) := by
  rw [OperandRule.run, Parse.expression]
  refine (gives_term c stand h).bind fun later hl => ?_
  exact gives_andThen hl fun hc => gives_expressionFrom _ _ later hc
termination_by 4 * c.rest.length + 3
decreasing_by
  · omega
  · exact measure_lt _ 4 (by omega)

theorem gives_expressionFrom (left : Node) : (c : Cursor) → (stand : Stand tokens) → stand.At c →
    Gives stand.errors (expressionFrom left).run stand (Parse.expressionFrom left c)
  | ⟨last, []⟩, stand, h => by
    rw [OperandRule.run, Parse.expressionFrom]
    exact gives_nil h (gives_give h left)
  | ⟨last, op :: rest⟩, stand, h => by
    rw [OperandRule.run, Parse.expressionFrom]
    refine gives_cons h ?_
    dsimp only
    split
    · refine gives_advance ((gives_term ⟨some op, rest⟩ _ h.advance).bind fun later hl => ?_)
      exact gives_andThen hl fun hc => gives_expressionFrom _ _ later hc
    · exact gives_give h left
termination_by c => 4 * c.rest.length + 2
decreasing_by
  · simp only [List.length_cons]
    omega
  · exact measure_lt _ 4 (by simp only [List.length_cons]; omega)

end

theorem gives_comparisonFrom (left : Node) (h : stand.At c) :
    Gives stand.errors (comparisonFrom left) stand (Parse.comparisonFrom left c) := by
  obtain ⟨last, rest⟩ := c
  rw [Parse.comparisonFrom.eq_def]
  cases rest with
  | nil => exact gives_nil h (gives_give h left)
  | cons op rest =>
    refine gives_cons h ?_
    dsimp only
    split
    · refine gives_advance ?_
      exact (gives_expression _ _ h.advance).bind fun _ hl => ends_pure ⟨rfl, hl⟩
    · exact gives_give h left

theorem gives_condition (h : stand.At c) :
    Gives stand.errors condition stand (Parse.condition c) :=
  (gives_expression c stand h).bind fun _ hl => gives_andThen hl fun hc => gives_comparisonFrom _ hc

theorem gives_within (h : stand.At c) {procedure : Descent tokens Node}
    {parse : (c : Cursor) → Parsed Node c} (kind : NodeKind) (text : String)
    (hp : Gives stand.errors procedure stand (parse c)) :
    Gives stand.errors (within kind text procedure) stand (Parse.within kind text parse c) :=
  gives_line h (hp.bind fun _ hl => ends_pure ⟨rfl, hl⟩)

/-! ## Simple statements -/

theorem identifier_line (name : Token) (rest : List Token) :
    (Parse.identifier name rest).value.line = name.line := by
  cases rest with
  | nil =>
    rw [Parse.identifier]
    rfl
  | cons bracket rest =>
    rw [Parse.identifier]
    split <;> rfl

theorem gives_assignTo (inHeader : Bool) {name : Token} {target : Parsed Node c}
    (h : Gives stand.errors (identifier name).run stand target)
    (htext : target.value.text = name.text) (hline : target.value.line = name.line) :
    Gives stand.errors (assignTo inHeader name) stand (Parse.assignTo inHeader target) := by
  refine h.bind fun later hl => ?_
  rw [Parse.assignTo, htext, hline]
  refine gives_require hl fun hs => ?_
  refine gives_child hs gives_condition fun final hf => ?_
  dsimp only
  cases inHeader with
  | true => exact ends_pure ⟨rfl, hf⟩
  | false => exact gives_expect hf _ _ _ _ _

theorem gives_headerAssignment (h : stand.At c) :
    Gives stand.errors (assignment true) stand (Parse.headerAssignment c) := by
  obtain ⟨last, rest⟩ := c
  rw [Parse.headerAssignment, Parse.target?.eq_def]
  cases rest with
  | nil => exact gives_nil h (gives_fail h _)
  | cons name rest =>
    refine gives_cons h ?_
    dsimp only
    by_cases hk : name.kind = .identifier
    · rw [if_pos hk, if_pos hk]
      have ht := gives_identifier name rest stand.advance h.advance
      exact gives_advance (gives_assignTo true (Gives.behind ht) (Parse.identifier_text name rest)
        (identifier_line name rest))
    · rw [if_neg hk, if_neg hk]
      exact gives_fail h _

theorem gives_declaratorSuffix {name : Token} {rest : List Token} (h : stand.At ⟨some name, rest⟩)
    (kind : NodeKind) (text : String) (line : Nat) :
    Gives stand.errors (declaratorSuffix name (.leaf kind text line)) stand
      ((Parse.declaratorSuffix name rest).node kind text line) := by
  rw [Parse.declaratorSuffix.eq_def]
  cases rest with
  | nil => exact gives_nil h (ends_pure ⟨rfl, h.follows ([] : List Node)⟩)
  | cons next rest =>
    refine gives_cons h ?_
    dsimp only
    by_cases hb : next.kind = .leftBracket
    · simp only [hb]
      exact (gives_subscript _ next rest stand h).bind fun _ hl => ends_pure ⟨rfl, hl⟩
    · rw [if_neg hb]
      split <;> rename_i hk
      iterate 3
        · simp only [hk]
          exact ends_pure ⟨rfl, h.follows ([] : List Node)⟩
      · split <;> try contradiction
        exact (gives_failPast h _).bind fun _ hl => ends_pure ⟨rfl, hl⟩

theorem gives_declarator (h : stand.At c) :
    Gives stand.errors declarator stand (Parse.declarator c) := by
  obtain ⟨last, rest⟩ := c
  rw [Parse.declarator.eq_def]
  cases rest with
  | nil => exact gives_nil h (gives_failPast h _)
  | cons name rest =>
    refine gives_cons h ?_
    dsimp only
    split
    · refine gives_advance ((gives_declaratorSuffix h.advance _ _ _).bind fun later hl => ?_)
      have hsuffix : later.Follows stand.advance.errors (Parse.declaratorSuffix name rest) := hl
      refine gives_accept hsuffix (fun ha hs => ?_) fun ha => ?_
      · rw [ha]
        refine gives_child hs (fun hc => gives_within hc _ _ (gives_condition hc)) fun _ hf => ?_
        exact ends_pure ⟨rfl, hf⟩
      · rw [ha]
        exact ends_pure ⟨rfl, hl⟩
    · exact gives_failPast h _

theorem gives_declaratorLoop : (node : Node) → (c : Cursor) → (stand : Stand tokens) →
    stand.At c →
    Gives stand.errors (declaratorLoop node).run stand (onto node (Parse.declaratorsFrom c))
  | node, ⟨last, []⟩, stand, h => by
    rw [StatementRule.run, Parse.declaratorsFrom]
    exact gives_accept_nil h (gives_onto_nil h node)
  | node, ⟨last, comma :: rest⟩, stand, h => by
    rw [StatementRule.run, Parse.declaratorsFrom]
    refine gives_accept_cons h (fun hk hs => ?_) fun hk => ?_
    · rw [if_pos hk, Parse.declarators, if_pos rfl]
      refine (gives_declarator hs).bind fun later hl => ?_
      exact gives_onto_cons hl fun hc => gives_declaratorLoop _ _ later hc
    · rw [if_neg hk]
      exact gives_onto_nil h node
termination_by _ c => c.rest.length
decreasing_by exact Nat.lt_succ_of_le (length_le _)

theorem gives_declaration {last : Option Token} {word : Token} {rest : List Token}
    (h : stand.At ⟨last, word :: rest⟩) :
    Gives stand.errors (declaration word).run stand (Parse.declaration word rest) := by
  rw [StatementRule.run, Parse.declaration, Parse.declarators]
  refine gives_advance ((gives_declarator h.advance).bind fun later hl => ?_)
  refine (gives_andThen hl fun hc => gives_declaratorLoop _ _ later hc).bind fun final hf => ?_
  have hall : final.Follows stand.advance.errors ((Parse.declarator ⟨some word, rest⟩).cons
      (Parse.declaratorsFrom (Parse.declarator ⟨some word, rest⟩).next)) := hf
  exact gives_expect hall _ _ _ _ _

theorem gives_readStatement {last : Option Token} {word : Token} {rest : List Token}
    (h : stand.At ⟨last, word :: rest⟩) :
    Gives stand.errors (readStatement word) stand (Parse.read word rest) := by
  refine gives_advance (gives_require (h.advance.follows []) fun hs => ?_)
  generalize hopened : (give [] : Parsed (List Node) ⟨some word, rest⟩).skip = opened at hs
  have hvalue : opened.value = [] := by
    rw [← hopened]
    rfl
  obtain ⟨_, errors, ⟨before, behind⟩, hr⟩ := opened
  subst hvalue
  rw [Parse.target?.eq_def]
  cases behind with
  | nil => exact gives_nil hs.1 (gives_andThen hs fun hc => gives_failPast hc .noVariable)
  | cons name behind =>
    refine gives_cons hs.1 ?_
    dsimp only
    by_cases hk : name.kind = .identifier
    · rw [if_pos hk, if_pos hk]
      rw [Gives, ends_advance]
      refine Ends.bind (gives_identifier name behind _ hs.1.advance) ?_
      rintro _ later ⟨rfl, hl⟩
      rw [Stand.errors_advance stand.advance.advance] at hl
      have hread := hs.andThen (Stand.Follows.behind hl)
      exact gives_require hread fun hc => gives_require hc fun he => ends_pure ⟨rfl, he⟩
    · rw [if_neg hk, if_neg hk]
      exact gives_andThen hs fun hc => gives_failPast hc .noVariable

theorem gives_writeStatement {last : Option Token} {word : Token} {rest : List Token}
    (h : stand.At ⟨last, word :: rest⟩) :
    Gives stand.errors (writeStatement word) stand (Parse.write word rest) := by
  refine gives_advance (gives_require (h.advance.follows []) fun ho => ?_)
  refine gives_child ho (fun hc => gives_expression _ _ hc) fun later hl => ?_
  refine gives_require hl fun hc => gives_require hc fun he => ?_
  exact ends_pure ⟨rfl, he⟩

/-! ## Statements -/

theorem gives_header {d : Cursor} {noOpening noClosing : SyntaxError.Cause} {kind : NodeKind}
    {text : String} {line : Nat} {parsed : Parsed α d} {next : Node → Descent tokens α}
    (h : stand.At c)
    (hn : ∀ later : Stand tokens, later.Follows stand.errors
        ((((give [] : Parsed (List Node) c).delimit .leftParen noOpening).child
          (Parse.within .condition "" Parse.condition)).delimit .rightParen noClosing) →
      Gives stand.errors (next ⟨kind, text, line,
        ((((give [] : Parsed (List Node) c).delimit .leftParen noOpening).child
          (Parse.within .condition "" Parse.condition)).delimit .rightParen noClosing).value⟩) later
        parsed) :
    Gives stand.errors (header noOpening noClosing (.leaf kind text line) >>= next) stand
      parsed := by
  have hheader : Gives stand.errors (header noOpening noClosing (.leaf kind text line)) stand
      (((((give [] : Parsed (List Node) c).delimit .leftParen noOpening).child
        (Parse.within .condition "" Parse.condition)).delimit .rightParen noClosing).node
          kind text line) := by
    refine gives_expect_bind (h.follows []) rfl fun opened ho => ?_
    refine gives_child ho (fun hc => gives_within hc _ _ (gives_condition hc)) fun tested ht => ?_
    exact gives_expect ht _ _ _ _ _
  exact hheader.bind hn

def GivesBlocks (tokens : List Token) (length : Nat) : Prop :=
  ∀ (c : Cursor) (stand : Stand tokens), c.rest.length ≤ length → stand.At c →
    Gives stand.errors block.run stand (Parse.block c)

section

variable {last : Option Token} {token : Token} {rest : List Token}

theorem gives_alternative (hb : GivesBlocks tokens c.rest.length) (h : stand.At c)
    (kind : NodeKind) (text : String) (line : Nat) (children : List Node) :
    Gives stand.errors (alternative ⟨kind, text, line, children⟩).run stand
      ((Parse.alternative children c).node kind text line) := by
  obtain ⟨last, rest⟩ := c
  rw [StatementRule.run, Parse.alternative.eq_def]
  cases rest with
  | nil => exact gives_nil h (ends_pure ⟨rfl, h.follows ([] : List Node)⟩)
  | cons word rest =>
    refine gives_cons h ?_
    dsimp only
    split
    · have hbody := hb ⟨some word, rest⟩ stand.advance (Nat.le_succ _) h.advance
      exact gives_advance (hbody.bind fun _ hf => ends_pure ⟨rfl, hf⟩)
    · exact ends_pure ⟨rfl, h.follows ([] : List Node)⟩

theorem gives_whileStatement (h : stand.At ⟨last, token :: rest⟩) (hk : token.kind = .whileWord)
    (hb : GivesBlocks tokens rest.length) :
    Gives stand.errors (whileStatement token).run stand (Parse.statement last token rest) := by
  rw [StatementRule.run, Parse.statement]
  simp only [hk]
  refine gives_advance (gives_header h.advance fun headed hh => ?_)
  refine gives_child hh (hb _ headed (length_le _)) fun _ hf => ?_
  exact ends_pure ⟨rfl, hf⟩

theorem gives_forStatement (h : stand.At ⟨last, token :: rest⟩) (hk : token.kind = .forWord)
    (hb : GivesBlocks tokens rest.length) :
    Gives stand.errors (forStatement token).run stand (Parse.statement last token rest) := by
  rw [StatementRule.run, Parse.statement]
  simp only [hk]
  refine gives_advance (gives_expect_bind (h.advance.follows []) rfl fun opened ho => ?_)
  refine gives_child ho (fun hc => gives_within hc _ _ (gives_headerAssignment hc)) fun _ hi => ?_
  refine gives_require hi fun hs => ?_
  refine gives_child hs (fun hc => gives_within hc _ _ (gives_condition hc)) fun _ ht => ?_
  refine gives_require ht fun hs => ?_
  refine gives_child hs (fun hc => gives_within hc _ _ (gives_headerAssignment hc)) fun _ hp => ?_
  refine gives_expect_bind hp rfl fun headed hh => ?_
  refine gives_child hh (hb _ headed (length_le _)) fun _ hf => ?_
  exact ends_pure ⟨rfl, hf⟩

theorem gives_ifStatement (h : stand.At ⟨last, token :: rest⟩) (hk : token.kind = .ifWord)
    (hb : GivesBlocks tokens rest.length) :
    Gives stand.errors (ifStatement token).run stand (Parse.statement last token rest) := by
  rw [StatementRule.run, Parse.statement]
  simp only [hk]
  refine gives_advance (gives_header h.advance fun headed hh => ?_)
  refine gives_child hh (hb _ headed (length_le _)) fun closed hc => ?_
  have hlater {d : Cursor} (hd : d.rest.length ≤ rest.length) : GivesBlocks tokens d.rest.length :=
    fun c stand hle => hb c stand (Nat.le_trans hle hd)
  exact gives_andThen hc fun hat => gives_alternative (hlater (length_le _)) hat _ _ _ _

theorem gives_statement (h : stand.At ⟨last, token :: rest⟩)
    (hb : GivesBlocks tokens rest.length) :
    Gives stand.errors statement.run stand (Parse.statement last token rest) := by
  rw [StatementRule.run]
  refine gives_cons h ?_
  dsimp only
  split <;> rename_i hk
  · rw [Parse.statement]
    simp only [hk]
    refine gives_cons h ?_
    dsimp only
    rw [if_pos hk]
    exact gives_advance (gives_assignTo false (gives_identifier token rest _ h.advance)
      (Parse.identifier_text token rest) (identifier_line token rest))
  · exact gives_ifStatement h hk hb
  · exact gives_whileStatement h hk hb
  · exact gives_forStatement h hk hb
  · rw [Parse.statement]
    simp only [hk]
    exact gives_readStatement h
  · rw [Parse.statement]
    simp only [hk]
    exact gives_writeStatement h
  iterate 4
    · rw [Parse.statement]
      simp only [hk]
      exact gives_declaration h
  · rw [Parse.statement]
    split <;> try contradiction
    exact gives_failPast h _

end

mutual

theorem gives_block : (c : Cursor) → (stand : Stand tokens) → stand.At c →
    Gives stand.errors block.run stand (Parse.block c)
  | ⟨last, []⟩, stand, h => by
    rw [StatementRule.run, Parse.block]
    refine gives_line h (gives_accept_nil h (gives_isAtEnd h ?_))
    exact (gives_fail h _).bind fun _ hl => ends_pure ⟨rfl, hl⟩
  | ⟨last, token :: rest⟩, stand, h => by
    rw [StatementRule.run, Parse.block]
    refine gives_line h (gives_accept_cons h (fun hk hs => ?_) fun hk => ?_)
    · rw [if_pos hk, if_pos rfl]
      refine (gives_blockLoop _ ⟨some token, rest⟩ _ hs).bind fun later hl => ?_
      have hitems : later.Follows stand.advance.errors (Parse.blockItems ⟨some token, rest⟩) := hl
      exact gives_expect hitems _ _ _ _ _
    · rw [if_neg hk]
      have hb : GivesBlocks tokens rest.length := fun c stand _ => gives_block c stand
      exact gives_isAtEnd h ((gives_statement h hb).bind fun _ hl => ends_pure ⟨rfl, hl⟩)
termination_by c => c.rest.length
decreasing_by all_goals simp only [List.length_cons]; omega

theorem gives_blockLoop : (node : Node) → (c : Cursor) → (stand : Stand tokens) → stand.At c →
    Gives stand.errors (blockLoop node).run stand (onto node (Parse.blockItems c))
  | node, ⟨last, []⟩, stand, h => by
    rw [StatementRule.run, Parse.blockItems]
    exact gives_nil h (gives_onto_nil h node)
  | node, ⟨last, token :: rest⟩, stand, h => by
    rw [StatementRule.run, Parse.blockItems]
    refine gives_cons h ?_
    dsimp only
    split
    · exact gives_onto_nil h node
    · have hb : GivesBlocks tokens rest.length := fun c stand _ => gives_block c stand
      refine (gives_statement h hb).bind fun later hl => ?_
      exact gives_onto_cons hl fun hc => gives_blockLoop _ _ later hc
termination_by _ c => c.rest.length
decreasing_by
  · simp only [List.length_cons]
    omega
  · exact Nat.lt_succ_of_le (length_le _)

end

theorem gives_programLoop : (node : Node) → (c : Cursor) → (stand : Stand tokens) → stand.At c →
    Gives stand.errors (programLoop node).run stand (onto node (Parse.statements c))
  | node, ⟨last, []⟩, stand, h => by
    rw [StatementRule.run, Parse.statements]
    exact gives_isAtEnd h (gives_onto_nil h node)
  | node, ⟨last, token :: rest⟩, stand, h => by
    rw [StatementRule.run, Parse.statements]
    have hb : GivesBlocks tokens rest.length := fun c stand _ => gives_block c stand
    refine gives_isAtEnd h ((gives_statement h hb).bind fun later hl => ?_)
    exact gives_onto_cons hl fun hc => gives_programLoop _ _ later hc
termination_by _ c => c.rest.length
decreasing_by exact Nat.lt_succ_of_le (length_le _)

/-! ## Programs -/

/-- At a stand, the procedures give what the parser gives from a cursor. -/
structure AgreesAt (stand : Stand tokens) (c : Cursor) : Prop where
  factor : Gives stand.errors factor.run stand (Parse.factor c)
  term : Gives stand.errors term.run stand (Parse.term c)
  expression : Gives stand.errors expression.run stand (Parse.expression c)
  condition : Gives stand.errors condition stand (Parse.condition c)
  declarator : Gives stand.errors declarator stand (Parse.declarator c)
  headerAssignment : Gives stand.errors (assignment true) stand (Parse.headerAssignment c)
  block : Gives stand.errors block.run stand (Parse.block c)
  statement {last : Option Token} {token : Token} {rest : List Token} :
    c = ⟨last, token :: rest⟩ →
      Gives stand.errors statement.run stand (Parse.statement last token rest)
  program : Gives stand.errors program stand ((Parse.statements c).node .program "" 1)

theorem agreesAt (h : stand.At c) : AgreesAt stand c where
  factor := gives_factor c stand h
  term := gives_term c stand h
  expression := gives_expression c stand h
  condition := gives_condition h
  declarator := gives_declarator h
  headerAssignment := gives_headerAssignment h
  block := gives_block c stand h
  statement hc := by
    subst hc
    exact gives_statement h fun d later _ => gives_block d later
  program := gives_programLoop _ c stand h

theorem program_eq (tokens : List Token) : program (⟨0, []⟩ : Stand tokens) =
    some ((Parse.program tokens).1,
      ⟨tokens.length, (Parse.program tokens).2.map SyntaxError.notice⟩) := by
  obtain ⟨_, later, hrun, hend, -⟩ :=
    ends_programLoop (.leaf .program "" 1) (⟨0, []⟩ : Stand tokens) (Nat.zero_le _)
  obtain ⟨_, ⟨position, errors⟩, hgives, rfl, -, herrors⟩ :=
    (agreesAt (Stand.at_start tokens [])).program
  cases hrun.symm.trans hgives
  obtain rfl : position = tokens.length := hend
  obtain rfl : errors = (Parse.program tokens).2.map SyntaxError.notice := herrors
  exact hgives

/-- Wherever a procedure is begun, it comes to an end and leaves the position where it was or
further on, but not beyond the last token. A statement passes a token, a program all of them, one
or more for each of its children. All this is so with procedures that may call each other for
ever, and what they give is what the parser gives by recursion on the tokens that are left. -/
theorem makes_progress (tokens : List Token) :
    (∀ stand : Stand tokens, stand.position ≤ tokens.length →
      (∀ {α : Type} {procedure : Descent tokens α}, Procedure procedure →
        ∃ value later, procedure stand = some (value, later) ∧
          stand.position ≤ later.position ∧ later.position ≤ tokens.length) ∧
      (stand.position < tokens.length → ∃ node later, statement.run stand = some (node, later) ∧
        stand.position < later.position) ∧
      (∃ node later, program stand = some (node, later) ∧ later.position = tokens.length ∧
        node.children.length ≤ tokens.length - stand.position) ∧
      AgreesAt stand stand.cursor) ∧
    program (⟨0, []⟩ : Stand tokens) = some ((Parse.program tokens).1,
      ⟨tokens.length, (Parse.program tokens).2.map SyntaxError.notice⟩) ∧
    (Parse.program tokens).1.children.length ≤ tokens.length := by
  have hprogram (stand : Stand tokens) (h : stand.position ≤ tokens.length) :
      ∃ node later, program stand = some (node, later) ∧ later.position = tokens.length ∧
        node.children.length ≤ tokens.length - stand.position := by
    obtain ⟨node, later, hrun, hend, hlength⟩ := ends_programLoop (.leaf .program "" 1) stand h
    exact ⟨node, later, hrun, hend, by simpa [Node.leaf] using hlength⟩
  refine ⟨fun stand h => ⟨fun hp => ?_, fun hlt => ?_, hprogram stand h, ?_⟩, program_eq tokens, ?_⟩
  · exact hp.movesFrom stand (Nat.zero_le _) h
  · obtain ⟨node, later, hrun, hle, -⟩ :=
      passesFrom_statement movesFrom_block stand (Nat.zero_le _) hlt
    exact ⟨node, later, hrun, hle⟩
  · exact agreesAt (Stand.at_cursor h)
  · obtain ⟨node, later, hrun, -, hlength⟩ := hprogram ⟨0, []⟩ (Nat.zero_le _)
    cases (program_eq tokens).symm.trans hrun
    exact hlength

def strayTokens : List Token :=
  (Scan.ofText ("\x7d \x7d ) ( if while for read write int = == [ ] , else")).1

/-- A block and a statement that begin with a `while` among stray tokens. -/
theorem stray_tokens_are_passed :
    strayTokens.length = 16 ∧
      (∃ value later, block.run (⟨5, []⟩ : Stand strayTokens) = some (value, later) ∧
        5 ≤ later.position ∧ later.position ≤ 16) ∧
      ∃ node later, statement.run (⟨5, []⟩ : Stand strayTokens) = some (node, later) ∧
        5 < later.position := by
  have hlength : strayTokens.length = 16 := by decide +kernel
  obtain ⟨hends, hpasses, -⟩ :=
    (makes_progress strayTokens).1 ⟨5, []⟩ (by rw [hlength]; decide)
  have hblock := hends (.statement block)
  rw [hlength] at hblock hpasses
  exact ⟨hlength, hblock, hpasses (by decide)⟩

end Descent
end BlockLang
