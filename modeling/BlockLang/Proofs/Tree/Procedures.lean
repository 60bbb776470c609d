import BlockLang.Proofs.Tree.Construction
import BlockLang.Tree.Parse

/-! # What the procedures build

Every procedure of the parser builds its nodes and records its errors in the ways that there are,
also on each way of recovery. It asks for kinds of tokens and for whether there are more of them,
and takes over texts. Hence two runs over tokens that differ in places only stay in step.
-/
namespace BlockLang.Parse
open Parsed SyntaxError.Cause

variable {tokens : List Token} {start origin c d : Cursor}

theorem built_stringContents (h : c.Twins tokens d) :
    Built tokens (stringContents c).single (stringContents d).single := by
  cases h with
  | nil hl => exact built_fail (.nil hl) (isAbout_of_nil rfl)
  | @cons last before content twin rest others hl hs =>
    obtain ⟨hm, hkind, htext⟩ := hs.passed
    rw [stringContents, stringContents, ← hkind, ← htext]
    split
    · rename_i hk
      have hlabel : Labels tokens .stringLiteral content.text :=
        .token hm (by simp [NodeKind.takes, hk])
      exact (built_node hlabel (built_delimit _ _ (built_give hs) (isAbout_of_nil rfl))).behind hs
    · exact built_fail (.cons hl hs) (isAbout_of_nil rfl)

/-- An operator takes the left operand's place. -/
theorem built_binary {kind : NodeKind} {last before : Option Token} {op twin : Token}
    {rest others : List Token} {next later : Cursor} {left other right mate : Node}
    {errors faults added found : List SyntaxError}
    (hs : Cursor.Twins tokens ⟨some op, rest⟩ ⟨some twin, others⟩) (hk : kind.takes op.kind)
    (h : Built tokens ⟨start, [left], errors, ⟨last, op :: rest⟩⟩
      ⟨origin, [other], faults, ⟨before, twin :: others⟩⟩)
    (hr : Built tokens ⟨⟨some op, rest⟩, [right], added, next⟩
      ⟨⟨some twin, others⟩, [mate], found, later⟩) :
    Built tokens ⟨start, [binary kind op left right], errors ++ added, next⟩
      ⟨origin, [binary kind twin other mate], faults ++ found, later⟩ := by
  obtain ⟨hm, -, htext⟩ := hs.passed
  rw [binary, binary, ← htext]
  exact .node (.token hm hk) (h.append (hr.behind hs))

mutual

theorem built_factor {c d : Cursor} (h : c.Twins tokens d) :
    Built tokens (factor c).single (factor d).single := by
  cases h with
  | nil hl =>
    rw [factor, factor]
    exact built_fail (.nil hl) (isAbout_of_nil rfl)
  | @cons last before token twin rest others hl hs =>
    obtain ⟨hm, hkind, htext⟩ := hs.passed
    have hfound : (SyntaxError.Cause.valueStart token.text).IsAbout tokens := isAbout_of_mem hm rfl
    have hleaf (kind : NodeKind) (hk : kind.takes token.kind) :
        Built tokens ⟨⟨last, token :: rest⟩, [.leaf kind token.text token.line], [], ⟨_, rest⟩⟩
          ⟨⟨before, twin :: others⟩, [.leaf kind token.text twin.line], [], ⟨_, others⟩⟩ :=
      Built.behind hs (built_leaf (.token hm hk) hs)
    rw [factor, factor]
    dsimp only
    rw [← hkind, ← htext]
    cases hk : token.kind with
    | intLiteral => exact hleaf .intLiteral (by simp [NodeKind.takes, hk])
    | realLiteral => exact hleaf .realLiteral (by simp [NodeKind.takes, hk])
    | trueWord => exact hleaf .boolLiteral (by simp [NodeKind.takes, hk])
    | falseWord => exact hleaf .boolLiteral (by simp [NodeKind.takes, hk])
    | identifier => exact (built_identifier hk hs.passed hs).behind hs
    | leftParen =>
      have hi : Built tokens (expression ⟨some token, rest⟩).single
          (expression ⟨some twin, others⟩).single := built_expression hs
      refine Built.behind hs ?_
      rcases accept?_twins hi.twins .rightParen with ⟨hx, hy⟩ | ⟨hx, hy⟩
      · rw [hx, hy]
        exact hi.skip
      · rw [hx, hy]
        exact built_andThen_fail hi (isAbout_of_nil rfl)
    | quote => exact (built_stringContents hs).behind hs
    | semicolon => exact built_fail (.cons hl hs) hfound
    | _ => exact Built.skip (built_fail (.cons hl hs) hfound)
termination_by 4 * c.rest.length
decreasing_by all_goals simp only [List.length_cons]; omega

theorem built_identifier {name mate : Token} (hk : name.kind = .identifier)
    (ht : Token.Twins tokens name mate) : {rest others : List Token} →
    Cursor.Twins tokens ⟨some name, rest⟩ ⟨some mate, others⟩ →
    Built tokens (identifier name rest).single (identifier mate others).single
  | [], [], h => by
    rw [identifier, identifier, ← ht.2.2]
    exact built_leaf (.token ht.1 (by simp [NodeKind.takes, hk])) h
  | bracket :: rest, twin :: others, .cons hl hs => by
    have hlabel : Labels tokens .identifier name.text :=
      .token ht.1 (by simp [NodeKind.takes, hk])
    rw [identifier, identifier, ← hs.passed.2.1, ← ht.2.2]
    split
    · exact .node hlabel ((built_subscript hs).behind hs)
    · exact built_leaf hlabel (.cons hl hs)
termination_by rest => 4 * rest.length + 1
decreasing_by simp only [List.length_cons]; omega

theorem built_subscript {bracket mate : Token} {rest others : List Token}
    (h : Cursor.Twins tokens ⟨some bracket, rest⟩ ⟨some mate, others⟩) :
    Built tokens (subscript bracket rest).single (subscript mate others).single := by
  have hi : Built tokens (expression ⟨some bracket, rest⟩).single
      (expression ⟨some mate, others⟩).single := built_expression h
  rw [subscript, subscript]
  exact built_require hi (isAbout_of_nil rfl) fun _ _ hl => built_node (.fixed rfl) hl
termination_by 4 * rest.length + 4
decreasing_by omega

theorem built_term {c d : Cursor} (h : c.Twins tokens d) :
    Built tokens (term c).single (term d).single := by
  rw [term, term]
  exact built_termFrom (built_factor h).twins (built_factor h)
termination_by 4 * c.rest.length + 2
decreasing_by
  · omega
  · exact measure_lt _ 4 (by omega)

/-- What was recorded for the left operand comes first. -/
theorem built_termFrom {start origin : Cursor} {left other : Node}
    {errors faults : List SyntaxError} : {c d : Cursor} → c.Twins tokens d →
    Built tokens ⟨start, [left], errors, c⟩ ⟨origin, [other], faults, d⟩ →
    Built tokens ((termFrom left c).since start errors) ((termFrom other d).since origin faults)
  | ⟨_, []⟩, ⟨_, []⟩, _, h => by
    rw [termFrom, termFrom]
    simpa [since, give] using h
  | ⟨_, op :: rest⟩, ⟨_, twin :: others⟩, .cons hl hs, h => by
    rw [termFrom, termFrom, ← hs.passed.2.1]
    split
    · rename_i hk
      have htakes : NodeKind.arithmetic.takes op.kind := by
        rcases hk with hk | hk <;> simp [NodeKind.takes, hk]
      have hb := built_binary hs htakes h (built_factor hs)
      simpa [since, andThen, behind] using built_termFrom hb.twins hb
    · simpa [since, give] using h
termination_by c => 4 * c.rest.length + 1
decreasing_by
  · simp only [List.length_cons]
    omega
  · exact measure_lt _ 4 (by simp only [List.length_cons]; omega)

theorem built_expression {c d : Cursor} (h : c.Twins tokens d) :
    Built tokens (expression c).single (expression d).single := by
  rw [expression, expression]
  exact built_expressionFrom (built_term h).twins (built_term h)
termination_by 4 * c.rest.length + 3
decreasing_by
  · omega
  · exact measure_lt _ 4 (by omega)

theorem built_expressionFrom {start origin : Cursor} {left other : Node}
    {errors faults : List SyntaxError} : {c d : Cursor} → c.Twins tokens d →
    Built tokens ⟨start, [left], errors, c⟩ ⟨origin, [other], faults, d⟩ →
    Built tokens ((expressionFrom left c).since start errors)
      ((expressionFrom other d).since origin faults)
  | ⟨_, []⟩, ⟨_, []⟩, _, h => by
    rw [expressionFrom, expressionFrom]
    simpa [since, give] using h
  | ⟨_, op :: rest⟩, ⟨_, twin :: others⟩, .cons hl hs, h => by
    rw [expressionFrom, expressionFrom, ← hs.passed.2.1]
    split
    · rename_i hk
      have htakes : NodeKind.arithmetic.takes op.kind := by
        rcases hk with hk | hk <;> simp [NodeKind.takes, hk]
      have hb := built_binary hs htakes h (built_term hs)
      simpa [since, andThen, behind] using built_expressionFrom hb.twins hb
    · simpa [since, give] using h
termination_by c => 4 * c.rest.length + 2
decreasing_by
  · simp only [List.length_cons]
    omega
  · exact measure_lt _ 4 (by simp only [List.length_cons]; omega)

end

theorem built_comparisonFrom {left other : Node} {errors faults : List SyntaxError}
    (h : Built tokens ⟨start, [left], errors, c⟩ ⟨origin, [other], faults, d⟩) :
    Built tokens ((comparisonFrom left c).since start errors)
      ((comparisonFrom other d).since origin faults) := by
  have htwins : c.Twins tokens d := h.twins
  cases htwins with
  | nil hl => simpa [since, comparisonFrom, give] using h
  | @cons last before op twin rest others hl hs =>
    rw [comparisonFrom, comparisonFrom, ← hs.passed.2.1]
    split
    · rename_i hk
      exact built_binary hs hk h (built_expression hs)
    · simpa [since, give] using h

theorem built_condition (h : c.Twins tokens d) :
    Built tokens (condition c).single (condition d).single :=
  built_comparisonFrom (built_expression h)

theorem built_within {kind : NodeKind} {text : String} {parse : (c : Cursor) → Parsed Node c}
    (hl : Labels tokens kind text) (hp : ∀ {c d : Cursor}, c.Twins tokens d →
      Built tokens (parse c).single (parse d).single) (h : c.Twins tokens d) :
    Built tokens (within kind text parse c).single (within kind text parse d).single :=
  .node hl (hp h)

theorem identifier_text (name : Token) (rest : List Token) :
    (identifier name rest).value.text = name.text := by
  cases rest with
  | nil =>
    rw [identifier]
    rfl
  | cons bracket rest =>
    rw [identifier]
    split <;> rfl

theorem built_target? (h : c.Twins tokens d) : target? c = none ∧ target? d = none ∨
    ∃ target other, target? c = some target ∧ target? d = some other ∧
      Built tokens target.single other.single ∧
        ∃ name ∈ tokens, target.value.text = name.text ∧ other.value.text = name.text := by
  cases h with
  | nil => exact .inl ⟨rfl, rfl⟩
  | @cons last before name mate rest others hl hs =>
    obtain ⟨hm, hkind, htext⟩ := hs.passed
    rw [target?, target?, ← hkind]
    split
    · rename_i hk
      refine .inr ⟨_, _, rfl, rfl, (built_identifier hk hs.passed hs).behind hs, name, hm,
        identifier_text name rest, ?_⟩
      exact (identifier_text mate others).trans htext.symm
    · exact .inl ⟨rfl, rfl⟩

theorem built_assignTo {inHeader : Bool} {target : Parsed Node c} {other : Parsed Node d}
    {name : Token} (h : Built tokens target.single other.single) (hm : name ∈ tokens)
    (ht : target.value.text = name.text) (ho : other.value.text = name.text) :
    Built tokens (assignTo inHeader target).single (assignTo inHeader other).single := by
  rw [assignTo, assignTo, ht, ho]
  refine built_require h (isAbout_of_mem hm rfl) fun later mate hl => built_node (.fixed rfl) ?_
  have hsides := built_child hl built_condition
  cases inHeader with
  | true => exact hsides
  | false => exact built_delimit _ _ hsides (isAbout_of_nil rfl)

theorem built_headerAssignment (h : c.Twins tokens d) :
    Built tokens (headerAssignment c).single (headerAssignment d).single := by
  rw [headerAssignment, headerAssignment]
  obtain ⟨hx, hy⟩ | ⟨target, other, hx, hy, hb, name, hm, ht, ho⟩ := built_target? h
  · rw [hx, hy]
    exact built_fail h (isAbout_of_nil rfl)
  · rw [hx, hy]
    exact built_assignTo hb hm ht ho

theorem built_declaratorSuffix {name mate : Token} {rest others : List Token}
    (h : Cursor.Twins tokens ⟨some name, rest⟩ ⟨some mate, others⟩) :
    Built tokens (declaratorSuffix name rest).several (declaratorSuffix mate others).several := by
  obtain ⟨hname, -, hnames⟩ := h.passed
  cases h with
  | nil hl => exact built_give (.nil hl)
  | @cons _ _ token twin rest others hl hs =>
    obtain ⟨hm, hkind, htext⟩ := hs.passed
    have hnone := built_give (Cursor.Twins.cons hl hs)
    rw [declaratorSuffix, declaratorSuffix, ← hkind]
    cases token.kind with
    | leftBracket => exact (built_subscript hs).behind hs
    | assign => exact hnone
    | semicolon => exact hnone
    | comma => exact hnone
    | _ =>
      rw [← htext, ← hnames]
      refine Built.skip (built_fail (.cons hl hs) ?_)
      simp only [SyntaxError.Cause.IsAbout, SyntaxError.Cause.found, List.forall_mem_cons]
      exact ⟨⟨token, hm, rfl⟩, ⟨name, hname, rfl⟩, List.forall_mem_nil _⟩

theorem built_declarator (h : c.Twins tokens d) :
    Built tokens (declarator c).single (declarator d).single := by
  cases h with
  | nil hl => exact built_fail (.nil hl) (isAbout_of_nil rfl)
  | @cons last before name mate rest others hl hs =>
    obtain ⟨hm, hkind, htext⟩ := hs.passed
    rw [declarator, declarator, ← hkind, ← htext]
    split
    · rename_i hk
      have hlabel : Labels tokens .declarator name.text :=
        .token hm (by simp [NodeKind.takes, hk])
      have hsuffix := built_declaratorSuffix hs
      refine Built.behind hs ?_
      dsimp only
      rcases accept?_twins hsuffix.twins .assign with ⟨hx, hy⟩ | ⟨hx, hy⟩
      · rw [hx, hy]
        exact built_node hlabel
          (built_child hsuffix.skip (built_within (.fixed rfl) built_condition))
      · rw [hx, hy]
        exact built_node hlabel hsuffix
    · exact Built.skip (built_fail (.cons hl hs) (isAbout_of_nil rfl))

mutual

theorem built_declarators {c d : Cursor} (h : c.Twins tokens d) :
    Built tokens (declarators c).several (declarators d).several := by
  have hfirst := built_declarator h
  rw [declarators, declarators]
  exact built_cons hfirst (built_declaratorsFrom hfirst.twins)
termination_by 2 * c.rest.length + 1
decreasing_by exact Nat.lt_succ_of_le (Nat.mul_le_mul_left 2 (length_le _))

theorem built_declaratorsFrom {c d : Cursor} (h : c.Twins tokens d) :
    Built tokens (declaratorsFrom c).several (declaratorsFrom d).several := by
  cases h with
  | nil hl =>
    rw [declaratorsFrom, declaratorsFrom]
    exact built_give (.nil hl)
  | @cons last before comma twin rest others hl hs =>
    rw [declaratorsFrom, declaratorsFrom, ← hs.passed.2.1]
    split
    · exact (built_declarators hs).behind hs
    · exact built_give (.cons hl hs)
termination_by 2 * c.rest.length
decreasing_by simp only [List.length_cons]; omega

end

section

variable {word mate : Token} {rest others : List Token}

theorem built_declaration (hk : word.kind.isTypeWord)
    (h : Cursor.Twins tokens ⟨some word, rest⟩ ⟨some mate, others⟩) :
    Built tokens (declaration word rest).single (declaration mate others).single := by
  obtain ⟨hm, -, htext⟩ := h.passed
  rw [declaration, declaration, ← htext]
  exact built_node (.token hm hk) (built_delimit _ _ (built_declarators h) (isAbout_of_nil rfl))

theorem built_read (hk : word.kind = .readWord)
    (h : Cursor.Twins tokens ⟨some word, rest⟩ ⟨some mate, others⟩) :
    Built tokens (read word rest).single (read mate others).single := by
  obtain ⟨hm, -, htext⟩ := h.passed
  have hlabel : Labels tokens .read word.text := .token hm (by simp [NodeKind.takes, hk])
  rw [Parse.read, Parse.read, ← htext]
  refine built_require (built_give h) (isAbout_of_nil rfl) fun opened twin ho => ?_
  have hnext : opened.next.Twins tokens twin.next := ho.twins
  obtain ⟨hx, hy⟩ | ⟨target, other, hx, hy, hb, -⟩ := built_target? hnext
  · rw [hx, hy]
    exact Built.skip (built_andThen_fail ho (isAbout_of_nil rfl))
  · rw [hx, hy]
    refine built_require (built_snoc ho hb) (isAbout_of_nil rfl) fun _ _ hclosed => ?_
    exact built_require hclosed (isAbout_of_nil rfl) fun _ _ hended => built_node hlabel hended

theorem built_write (hk : word.kind = .writeWord)
    (h : Cursor.Twins tokens ⟨some word, rest⟩ ⟨some mate, others⟩) :
    Built tokens (write word rest).single (write mate others).single := by
  obtain ⟨hm, -, htext⟩ := h.passed
  have hlabel : Labels tokens .write word.text := .token hm (by simp [NodeKind.takes, hk])
  rw [Parse.write, Parse.write, ← htext]
  refine built_require (built_give h) (isAbout_of_nil rfl) fun _ _ ho => ?_
  refine built_require (built_child ho built_expression) (isAbout_of_nil rfl) fun _ _ hclosed => ?_
  exact built_require hclosed (isAbout_of_nil rfl) fun _ _ hended => built_node hlabel hended

end

/-- The condition of a statement in its parentheses. -/
theorem built_header (noOpening noClosing : SyntaxError.Cause) (h : c.Twins tokens d)
    (ho : noOpening.found = []) (hc : noClosing.found = []) :
    Built tokens
      ((((give [] : Parsed (List Node) c).delimit .leftParen noOpening).child
        (within .condition "" condition)).delimit .rightParen noClosing).several
      ((((give [] : Parsed (List Node) d).delimit .leftParen noOpening).child
        (within .condition "" condition)).delimit .rightParen noClosing).several :=
  built_delimit _ _ (built_child (built_delimit _ _ (built_give h) (isAbout_of_nil ho))
    (built_within (.fixed rfl) built_condition)) (isAbout_of_nil hc)

mutual

/-- A statement is told from before its first token, where it fails if it cannot begin so. -/
theorem built_statement {last before : Option Token} {token twin : Token}
    {rest others : List Token} (hl : Option.Rel (Token.Twins tokens) last before)
    (hs : Cursor.Twins tokens ⟨some token, rest⟩ ⟨some twin, others⟩) :
    Built tokens ((statement last token rest).since ⟨last, token :: rest⟩ [])
      ((statement before twin others).since ⟨before, twin :: others⟩ []) := by
  obtain ⟨hm, hkind, htext⟩ := hs.passed
  rw [statement, statement, ← hkind, ← htext]
  cases hk : token.kind with
  | identifier =>
    exact Built.behind hs (built_assignTo (built_identifier hk hs.passed hs) hm
      (identifier_text token rest) ((identifier_text twin others).trans htext.symm))
  | intWord | realWord | boolWord | stringWord =>
    exact Built.behind hs (built_declaration (by rw [hk]; rfl) hs)
  | readWord => exact Built.behind hs (built_read hk hs)
  | writeWord => exact Built.behind hs (built_write hk hs)
  | ifWord =>
    have hlabel : Labels tokens .conditional token.text :=
      .token hm (by simp [NodeKind.takes, hk])
    have hheader := built_header .ifOpening .ifClosing hs rfl rfl
    have hbody := built_snoc hheader (built_block hheader.twins)
    exact Built.behind hs (.node hlabel (built_alternative hbody.twins hbody))
  | whileWord =>
    have hlabel : Labels tokens .whileLoop token.text :=
      .token hm (by simp [NodeKind.takes, hk])
    have hheader := built_header .whileOpening .whileClosing hs rfl rfl
    exact Built.behind hs (built_node hlabel (built_snoc hheader (built_block hheader.twins)))
  | forWord =>
    have hlabel : Labels tokens .forLoop token.text := .token hm (by simp [NodeKind.takes, hk])
    refine Built.behind hs ?_
    have hopened := built_delimit .leftParen .forOpening (built_give hs) (isAbout_of_nil rfl)
    refine built_require (built_child hopened (built_within (.fixed rfl) built_headerAssignment))
      (isAbout_of_nil rfl) fun _ _ hstarted => ?_
    refine built_require (built_child hstarted (built_within (.fixed rfl) built_condition))
      (isAbout_of_nil rfl) fun _ _ htested => ?_
    have hstep {c d : Cursor} (h : c.Twins tokens d) :
        Built tokens (within .step "" headerAssignment c).single
          (within .step "" headerAssignment d).single :=
      built_within (.fixed rfl) built_headerAssignment h
    have hheader := built_delimit .rightParen .forClosing (built_child htested hstep)
      (isAbout_of_nil rfl)
    exact built_node hlabel (built_snoc hheader (built_block hheader.twins))
  | _ =>
    exact Built.skip (built_fail (.cons hl hs) (isAbout_of_mem hm rfl))
termination_by 3 * rest.length + 2
decreasing_by all_goals exact measure_lt _ 3 (Nat.lt_succ_self _)

/-- What was recorded for the other children comes first. -/
theorem built_alternative {start origin : Cursor} {children nodes : List Node}
    {errors faults : List SyntaxError} : {c d : Cursor} → c.Twins tokens d →
    Built tokens ⟨start, children, errors, c⟩ ⟨origin, nodes, faults, d⟩ →
    Built tokens
      ⟨start, (alternative children c).value, errors ++ (alternative children c).errors,
        (alternative children c).next⟩
      ⟨origin, (alternative nodes d).value, faults ++ (alternative nodes d).errors,
        (alternative nodes d).next⟩
  | ⟨_, []⟩, ⟨_, []⟩, _, h => by
    rw [alternative, alternative]
    simpa [give] using h
  | ⟨_, word :: rest⟩, ⟨_, twin :: others⟩, .cons hl hs, h => by
    obtain ⟨hm, hkind, htext⟩ := hs.passed
    rw [alternative, alternative, ← hkind, ← htext]
    split
    · rename_i hk
      have hlabel : Labels tokens .alternative word.text :=
        .token hm (by simp [NodeKind.takes, hk])
      exact h.append (.node hlabel ((built_block hs).behind hs))
    · simpa [give] using h
termination_by c => 3 * c.rest.length + 1
decreasing_by simp only [List.length_cons]; omega

theorem built_block {c d : Cursor} (h : c.Twins tokens d) :
    Built tokens (block c).single (block d).single := by
  cases h with
  | nil hl =>
    rw [block, block]
    exact .node (.fixed rfl) (built_fail (.nil hl) (isAbout_of_nil rfl))
  | @cons last before token twin rest others hl hs =>
    rw [block, block, ← hs.passed.2.1]
    split
    · exact Built.behind hs
        (built_node (.fixed rfl) (built_delimit _ _ (built_blockItems hs) (isAbout_of_nil rfl)))
    · exact .node (.fixed rfl) (built_statement hl hs)
termination_by 3 * c.rest.length + 1
decreasing_by all_goals simp only [List.length_cons]; omega

theorem built_blockItems {c d : Cursor} (h : c.Twins tokens d) :
    Built tokens (blockItems c).several (blockItems d).several := by
  cases h with
  | nil hl =>
    rw [blockItems, blockItems]
    exact built_give (.nil hl)
  | @cons last before token twin rest others hl hs =>
    rw [blockItems, blockItems, ← hs.passed.2.1]
    split
    · exact built_give (.cons hl hs)
    · have hfirst := built_statement hl hs
      exact hfirst.append (built_blockItems hfirst.twins)
termination_by 3 * c.rest.length + 1
decreasing_by
  · simp only [List.length_cons]
    omega
  · exact measure_lt _ 3 (by simp only [List.length_cons]; omega)

end

theorem built_statements {c d : Cursor} (h : c.Twins tokens d) :
    Built tokens (statements c).several (statements d).several := by
  cases h with
  | nil hl =>
    rw [statements, statements]
    exact built_give (.nil hl)
  | @cons last before token twin rest others hl hs =>
    have hfirst := built_statement hl hs
    rw [statements, statements]
    exact hfirst.append (built_statements hfirst.twins)
termination_by c.rest.length
decreasing_by exact Nat.lt_succ_of_le (statement _ _ _).length_le

/-- Every tree is built from its tokens, also if there are errors, and the tree of alike tokens is
built in step. -/
theorem built_program {others : List Token} (h : List.Forall₂ Token.Alike tokens others) :
    Built tokens
      ⟨⟨none, tokens⟩, [(program tokens).1], (program tokens).2, (statements ⟨none, tokens⟩).next⟩
      ⟨⟨none, others⟩, [(program others).1], (program others).2,
        (statements ⟨none, others⟩).next⟩ :=
  .node (.fixed rfl) (built_statements (Cursor.twins_start h))

end BlockLang.Parse
