import BlockLang.Proofs.Grammar.Operands

/-! # Derived statements are read

Where the grammar derives a statement, a block or a list of statements, and each
`else` belongs to the nearest `if`, parsing reads their trees without an error. An
open statement must not be followed by an `else`.
-/
namespace BlockLang.Parse

open Grammar Parsed

theorem reads_assignTo_header {c : Cursor} {target : Parsed Node c} {n source : Node}
    {sign : Token} {us rest : List Token} (ht : target.Reads n (sign :: (us ++ rest)))
    (hs : sign.kind = .assign) (hc : Condition us source) (hr : NotNext afterCondition rest) :
    (assignTo true target).Reads ⟨.assignment, "=", n.line, [n, source]⟩ rest := by
  rw [assignTo, ht.value_eq]
  refine (ht.map fun node => [node]).require hs _ fun later hl => ?_
  exact (hl.child fun last => reads_condition hc hr last).node _ _ _

theorem reads_assignTo_statement {c : Cursor} {target : Parsed Node c} {n source : Node}
    {sign closing : Token} {us rest : List Token}
    (ht : target.Reads n (sign :: (us ++ closing :: rest))) (hs : sign.kind = .assign)
    (hc : Condition us source) (hk : closing.kind = .semicolon) :
    (assignTo false target).Reads ⟨.assignment, "=", n.line, [n, source]⟩ rest := by
  rw [assignTo, ht.value_eq]
  refine (ht.map fun node => [node]).require hs _ fun later hl => ?_
  have hr : NotNext afterCondition (closing :: rest) := by simp [afterCondition, hk]
  exact ((hl.child fun last => reads_condition hc hr last).delimit hk _).node _ _ _

theorem target?_eq_some {last : Option Token} {name : Token} {tokens : List Token}
    (hk : name.kind = .identifier) :
    target? ⟨last, name :: tokens⟩ = some (identifier name tokens).behind := by
  rw [target?, if_pos hk]

theorem reads_target {c : Cursor} {parsed : Parsed (List Node) c} {children : List Node}
    {name : Token} {tokens rest : List Token} {n : Node}
    (h : parsed.Reads children (name :: tokens)) (hk : name.kind = .identifier)
    (hi : (identifier name tokens).Reads n rest) :
    ∃ target, target? parsed.next = some target ∧ target.Reads n rest := by
  obtain ⟨value, errors, ⟨last, rest'⟩, hle⟩ := parsed
  obtain ⟨-, -, hr⟩ := h
  cases hr
  exact ⟨_, target?_eq_some hk, hi.behind⟩

theorem reads_headerAssignment {ts rest : List Token} {n : Node} (h : Assignment ts n)
    (hr : NotNext afterCondition rest) (last : Option Token) :
    (headerAssignment ⟨last, ts ++ rest⟩).Reads n rest := by
  obtain @⟨ts, us, sign, target, source, ht, hs, hc⟩ := h
  rw [List.append_assoc]
  obtain ⟨name, tokens, rfl, hk, hi⟩ := readsOperand ht (sign :: us ++ rest)
    (by simp [continuing, hs])
  rw [headerAssignment, List.cons_append, target?_eq_some hk]
  exact reads_assignTo_header hi.behind hs hc hr

def afterDeclared : List TokenKind :=
  [.assign, .comma, .semicolon]

/-- What a name reads as its subscript is read as the size of a declarator. -/
theorem reads_declaratorSuffix {name : Token} {tokens rest : List Token} {text : String}
    {line : Nat} {suffix : List Node} {next : Token}
    (h : (identifier name tokens).Reads ⟨.identifier, text, line, suffix⟩ (next :: rest))
    (hn : next.kind ∈ afterDeclared) :
    text = name.text ∧ line = name.line ∧
      (declaratorSuffix name tokens).Reads suffix (next :: rest) := by
  cases tokens with
  | nil =>
    rw [identifier] at h
    exact absurd h.rest_eq (by simp [give])
  | cons token tokens =>
    rw [identifier] at h
    rw [declaratorSuffix]
    split at h
    · rename_i hb
      simp only [hb]
      obtain ⟨hv, he, hr⟩ := h
      cases hv
      have hs : (subscript token tokens).Reads (subscript token tokens).value (next :: rest) :=
        ⟨rfl, he, hr⟩
      exact ⟨rfl, rfl, (hs.map fun node => [node]).behind⟩
    · obtain ⟨hv, -, hr⟩ := h
      cases hv
      cases hr
      refine ⟨rfl, rfl, ?_⟩
      simp only [afterDeclared, List.mem_cons, List.not_mem_nil, or_false] at hn
      obtain hk | hk | hk := hn <;>
      · simp only [hk]
        exact reads_give _

theorem reads_declarator {ts : List Token} {n : Node} {next : Token} (h : Declarator ts n)
    (hn : next.kind = .comma ∨ next.kind = .semicolon) (rest : List Token) (last : Option Token) :
    (declarator ⟨last, ts ++ next :: rest⟩).Reads n (next :: rest) := by
  cases h with
  | plain hname =>
    obtain ⟨name, tokens, rfl, hk, hi⟩ := readsOperand hname (next :: rest)
      (by obtain h | h := hn <;> simp [continuing, h])
    obtain ⟨rfl, rfl, hs⟩ := reads_declaratorSuffix hi
      (by obtain h | h := hn <;> simp [afterDeclared, h])
    have ha : (declaratorSuffix name (tokens ++ next :: rest)).accept? .assign = none :=
      accept?_eq_none (by rw [hs.rest_eq]; obtain h | h := hn <;> simp [h])
    rw [List.cons_append, declarator, if_pos hk]
    dsimp only
    rw [ha]
    exact (hs.node _ _ _).behind
  | @initialized ts us sign _ _ suffix value hname hsign hc =>
    rw [List.append_assoc]
    obtain ⟨name, tokens, rfl, hk, hi⟩ := readsOperand hname (sign :: us ++ next :: rest)
      (by simp [continuing, hsign])
    obtain ⟨rfl, rfl, hs⟩ := reads_declaratorSuffix hi (by simp [afterDeclared, hsign])
    rw [List.cons_append, declarator, if_pos hk]
    dsimp only
    rw [accept?_eq_some hs.rest_eq hsign]
    refine ((hs.skip.child fun last => ?_).node _ _ _).behind
    exact reads_within hc.ne_nil (reads_condition hc
      (by obtain h | h := hn <;> simp [afterCondition, h]) last)

theorem reads_declarators {ts : List Token} {ns : List Node} {closing : Token}
    (h : Declarators ts ns) (hc : closing.kind = .semicolon) (rest : List Token)
    (last : Option Token) :
    (declarators ⟨last, ts ++ closing :: rest⟩).Reads ns (closing :: rest) := by
  induction h generalizing last with
  | one hd =>
    have hr := reads_declarator hd (.inr hc) rest last
    rw [declarators]
    refine hr.cons declaratorsFrom fun between => ?_
    rw [declaratorsFrom, if_neg (by simp [hc])]
    exact reads_give _
  | @more ts us comma n ns hd hk _ ih =>
    rw [List.append_assoc, List.cons_append]
    have hr := reads_declarator hd (.inl hk) (us ++ closing :: rest) last
    rw [declarators]
    refine hr.cons declaratorsFrom fun between => ?_
    rw [declaratorsFrom, if_pos hk]
    exact (ih _).behind

theorem reads_read {word opening name closing ending : Token} {tokens rest : List Token}
    {target : Node} (ho : opening.kind = .leftParen) (hk : name.kind = .identifier)
    (hi : (identifier name tokens).Reads target (closing :: ending :: rest))
    (hc : closing.kind = .rightParen) (he : ending.kind = .semicolon) :
    (read word (opening :: name :: tokens)).Reads ⟨.read, word.text, word.line, [target]⟩ rest := by
  rw [Parse.read]
  refine (reads_give []).require ho _ fun opened hopened => ?_
  obtain ⟨parsed, ht, hr⟩ := reads_target hopened hk hi
  rw [ht]
  refine (hopened.snoc hr).require hc _ fun closed hclosed => ?_
  exact hclosed.require he _ fun ended hended => hended.node _ _ _

theorem reads_write {word opening closing ending : Token} {ts rest : List Token} {value : Node}
    (ho : opening.kind = .leftParen) (hv : Operand .expression ts value)
    (hc : closing.kind = .rightParen) (he : ending.kind = .semicolon) :
    (write word (opening :: (ts ++ closing :: ending :: rest))).Reads
      ⟨.write, word.text, word.line, [value]⟩ rest := by
  have hr : NotNext afterExpression (closing :: ending :: rest) := by simp [afterExpression, hc]
  rw [Parse.write]
  refine (reads_give []).require ho _ fun opened hopened => ?_
  refine (hopened.child fun last => reads_expression hv hr last).require hc _
    fun closed hclosed => ?_
  exact hclosed.require he _ fun ended hended => hended.node _ _ _

/-! ## Compound statements -/

theorem reads_header (word : Token) {opening closing : Token} {ts rest : List Token}
    {test : Node} (ho : opening.kind = .leftParen) (ht : Condition ts test)
    (hc : closing.kind = .rightParen)
    (noOpening noClosing : SyntaxError.Cause) :
    ((((give [] : Parsed (List Node) ⟨some word, opening :: (ts ++ closing :: rest)⟩).delimit
      .leftParen noOpening).child (within .condition "" condition)).delimit
        .rightParen noClosing).Reads [⟨.condition, "", firstLine ts, [test]⟩] rest := by
  have hg : (give [] : Parsed (List Node) ⟨some word, opening :: (ts ++ closing :: rest)⟩).Reads []
      (opening :: (ts ++ closing :: rest)) := reads_give []
  have hr : NotNext afterCondition (closing :: rest) := by simp [afterCondition, hc]
  exact ((hg.delimit ho _).child fun last =>
    reads_within ht.ne_nil (reads_condition ht hr last)).delimit hc _

theorem reads_alternative_end {children : List Node} {last : Option Token} {rest : List Token}
    (h : NotNext [.elseWord] rest) :
    (alternative children ⟨last, rest⟩).Reads children rest := by
  cases rest with
  | nil =>
    rw [alternative]
    exact reads_give _
  | cons word tokens =>
    rw [alternative, if_neg (by simpa using h)]
    exact reads_give _

theorem reads_alternative {word : Token} {children : List Node} {body : Node}
    {last : Option Token} {tokens rest : List Token} (hk : word.kind = .elseWord)
    (hb : ∀ last, (block ⟨last, tokens⟩).Reads body rest) :
    (alternative children ⟨last, word :: tokens⟩).Reads
      (children ++ [⟨.alternative, word.text, word.line, [body]⟩]) rest := by
  rw [alternative, if_pos hk]
  exact ((hb _).map _).behind

section
variable {word opening closing : Token} {ts tokens rest : List Token} {test body : Node}

theorem reads_conditional {between : List Token} {branches : List Node} (last : Option Token)
    (hk : word.kind = .ifWord) (ho : opening.kind = .leftParen) (ht : Condition ts test)
    (hc : closing.kind = .rightParen) (hb : ∀ last, (block ⟨last, tokens⟩).Reads body between)
    (ha : ∀ last, (alternative [⟨.condition, "", firstLine ts, [test]⟩, body]
      ⟨last, between⟩).Reads branches rest) :
    (statement last word (opening :: (ts ++ closing :: tokens))).Reads
      ⟨.conditional, word.text, word.line, branches⟩ rest := by
  have hbody := (reads_header word ho ht hc .ifOpening .ifClosing).child hb
  rw [statement]
  simp only [hk]
  exact (hbody.followed alternative ha).node _ _ _

theorem reads_while (last : Option Token) (hk : word.kind = .whileWord)
    (ho : opening.kind = .leftParen) (ht : Condition ts test) (hc : closing.kind = .rightParen)
    (hb : ∀ last, (block ⟨last, tokens⟩).Reads body rest) :
    (statement last word (opening :: (ts ++ closing :: tokens))).Reads
      ⟨.whileLoop, word.text, word.line, [⟨.condition, "", firstLine ts, [test]⟩, body]⟩ rest := by
  rw [statement]
  simp only [hk]
  exact ((reads_header word ho ht hc .whileOpening .whileClosing).child hb).node _ _ _

theorem reads_for {first second : Token} {us vs : List Token} {init step : Node}
    (last : Option Token) (hk : word.kind = .forWord) (ho : opening.kind = .leftParen)
    (hi : Assignment ts init) (hf : first.kind = .semicolon) (ht : Condition us test)
    (hs : second.kind = .semicolon) (hp : Assignment vs step) (hc : closing.kind = .rightParen)
    (hb : ∀ last, (block ⟨last, tokens⟩).Reads body rest) :
    (statement last word
      (opening :: (ts ++ first :: (us ++ second :: (vs ++ closing :: tokens))))).Reads
      ⟨.forLoop, word.text, word.line, [⟨.init, "", firstLine ts, [init]⟩,
        ⟨.condition, "", firstLine us, [test]⟩, ⟨.step, "", firstLine vs, [step]⟩, body]⟩
      rest := by
  have hg : (give [] : Parsed (List Node) ⟨some word, opening :: (ts ++ first :: (us ++
      second :: (vs ++ closing :: tokens)))⟩).Reads [] _ := reads_give []
  have hstep : ∀ last, (within .step "" headerAssignment ⟨last, vs ++ closing :: tokens⟩).Reads
      ⟨.step, "", firstLine vs, [step]⟩ (closing :: tokens) := fun last =>
    reads_within hp.ne_nil (reads_headerAssignment hp (by simp [afterCondition, hc]) last)
  rw [statement]
  simp only [hk]
  refine ((hg.delimit ho _).child fun last => reads_within hi.ne_nil
    (reads_headerAssignment hi (by simp [afterCondition, hf]) last)).require hf _
    fun started hstarted => ?_
  refine (hstarted.child fun last => reads_within ht.ne_nil
    (reads_condition ht (by simp [afterCondition, hs]) last)).require hs _
    fun tested htested => ?_
  exact (((htested.child hstep).delimit hc .forClosing).child hb).node _ _ _

end

/-- Neither the first of some statements nor what stands behind them is an `else`. -/
theorem notNext_else {isOpen : Bool} {us rest : List Token} {ns : List Node}
    (h : Derives true .statements isOpen us ns) (hr : NotNext [.elseWord] rest) :
    NotNext [.elseWord] (us ++ rest) := by
  cases h with
  | nil => exact hr
  | cons hs _ =>
    obtain ⟨token, tokens, rfl, hk⟩ := hs.first_not_mem
    rw [List.append_assoc, List.cons_append, notNext_cons]
    exact fun h => hk (by simp_all [stopping])

/-- How the parts of a program are read: a statement behind its first token, a block in front of
any tokens, and a list of statements both up to a closing brace and up to the end. -/
def ReadsPart : Part → Bool → List Token → List Node → Prop
  | .statement, isOpen, ts, ns => ∀ n rest, ns = [n] →
      (isOpen = true → NotNext [.elseWord] rest) →
        ∃ token tokens, ts = token :: tokens ∧
          ∀ last, (statement last token (tokens ++ rest)).Reads n rest
  | .block, isOpen, ts, ns => ∀ n rest, ns = [n] →
      (isOpen = true → NotNext [.elseWord] rest) → ∀ last, (block ⟨last, ts ++ rest⟩).Reads n rest
  | .statements, _, ts, ns =>
      (∀ closing rest last, closing.kind = .rightBrace →
        (blockItems ⟨last, ts ++ closing :: rest⟩).Reads ns (closing :: rest)) ∧
      ∀ last, (statements ⟨last, ts⟩).Reads ns []

theorem readsPart {part : Part} {isOpen : Bool} {ts : List Token} {ns : List Node}
    (h : Derives true part isOpen ts ns) : ReadsPart part isOpen ts ns := by
  induction h with
  | @declaration word closing ts ns hk hd hc =>
    rintro n rest ⟨⟩ -
    refine ⟨word, ts ++ [closing], rfl, fun last => ?_⟩
    have hr := ((reads_declarators hd hc rest (some word)).delimit hc
      .declarationEnd).node .declaration word.text word.line
    rw [List.append_assoc, List.singleton_append, statement]
    cases hw : word.kind <;> simp only [hw, TokenKind.isTypeWord, Bool.false_eq_true] at hk ⊢ <;>
      exact hr
  | @assignment closing ts n ha hc =>
    rintro n rest ⟨⟩ -
    obtain @⟨ts, us, sign, target, source, ht, hs, hu⟩ := ha
    obtain ⟨name, tokens, rfl, hk, hi⟩ := readsOperand ht (sign :: (us ++ closing :: rest))
      (by simp [continuing, hs])
    refine ⟨name, tokens ++ sign :: us ++ [closing], rfl, fun last => ?_⟩
    have hts : (tokens ++ sign :: us ++ [closing]) ++ rest =
        tokens ++ sign :: (us ++ closing :: rest) := by simp
    rw [hts, statement]
    simp only [hk]
    exact reads_assignTo_statement hi hs hu hc
  | @read word opening closing ending ts target hk ho ht hc he =>
    rintro n rest ⟨⟩ -
    obtain ⟨name, tokens, rfl, hi, hr⟩ := readsOperand ht (closing :: ending :: rest)
      (by simp [continuing, hc])
    refine ⟨word, opening :: name :: tokens ++ [closing, ending], rfl, fun last => ?_⟩
    have hts : (opening :: name :: tokens ++ [closing, ending]) ++ rest =
        opening :: name :: (tokens ++ closing :: ending :: rest) := by simp
    rw [hts, statement]
    simp only [hk]
    exact reads_read ho hi hr hc he
  | @write word opening closing ending ts value hk ho hv hc he =>
    rintro n rest ⟨⟩ -
    refine ⟨word, opening :: ts ++ [closing, ending], rfl, fun last => ?_⟩
    have hts : (opening :: ts ++ [closing, ending]) ++ rest =
        opening :: (ts ++ closing :: ending :: rest) := by simp
    rw [hts, statement]
    simp only [hk]
    exact reads_write ho hv hc he
  | @conditional word opening closing ts us test body isOpen hk ho ht hc _ ih =>
    rintro n rest ⟨⟩ hr
    refine ⟨word, opening :: ts ++ closing :: us, rfl, fun last => ?_⟩
    have hts : (opening :: ts ++ closing :: us) ++ rest =
        opening :: (ts ++ closing :: (us ++ rest)) := by simp
    rw [hts]
    exact reads_conditional last hk ho ht hc (ih body rest rfl fun _ => hr rfl)
      fun last => reads_alternative_end (hr rfl)
  | @alternative word opening closing other ts us vs test body otherwise inner isOpen hk ho ht hc _
      hinner hother _ ihb iho =>
    rintro n rest ⟨⟩ hr
    refine ⟨word, opening :: ts ++ closing :: us ++ other :: vs, rfl, fun last => ?_⟩
    have hts : (opening :: ts ++ closing :: us ++ other :: vs) ++ rest =
        opening :: (ts ++ closing :: (us ++ other :: (vs ++ rest))) := by simp
    have hb := ihb body (other :: (vs ++ rest)) rfl fun h => by simp [hinner rfl] at h
    rw [hts]
    exact reads_conditional last hk ho ht hc hb fun last =>
      reads_alternative hother (iho otherwise rest rfl hr)
  | @whileLoop word opening closing ts us test body isOpen hk ho ht hc _ ih =>
    rintro n rest ⟨⟩ hr
    refine ⟨word, opening :: ts ++ closing :: us, rfl, fun last => ?_⟩
    have hts : (opening :: ts ++ closing :: us) ++ rest =
        opening :: (ts ++ closing :: (us ++ rest)) := by simp
    rw [hts]
    exact reads_while last hk ho ht hc (ih body rest rfl hr)
  | @forLoop word opening first second closing ts us vs ws init test step body isOpen hk ho hi hf ht
      hs hp hc _ ih =>
    rintro n rest ⟨⟩ hr
    refine ⟨word, opening :: ts ++ first :: us ++ second :: vs ++ closing :: ws, rfl,
      fun last => ?_⟩
    have hts : (opening :: ts ++ first :: us ++ second :: vs ++ closing :: ws) ++ rest =
        opening :: (ts ++ first :: (us ++ second :: (vs ++ closing :: (ws ++ rest)))) := by simp
    rw [hts]
    exact reads_for last hk ho hi hf ht hs hp hc (ih body rest rfl hr)
  | @braces opening closing ts ns isOpen ho _ hc ih =>
    rintro n rest ⟨⟩ - last
    rw [enclosed_append, block, if_pos ho]
    exact (((ih.1 closing rest _ hc).delimit hc _).node _ _ _).behind
  | @bare ts n isOpen hd ih =>
    rintro n rest ⟨⟩ hr last
    obtain ⟨token, tokens, rfl, hs⟩ := ih _ rest rfl hr
    have hk : token.kind ≠ .leftBrace := by
      obtain ⟨_, _, ⟨⟩, hk⟩ := hd.first_not_mem
      exact fun h => hk (by simp [h, stopping])
    rw [List.cons_append, block, if_neg hk]
    exact ((hs last).map _).behind
  | nil =>
    constructor
    · intro closing rest last hc
      rw [List.nil_append, blockItems, if_pos hc]
      exact reads_give _
    · intro last
      rw [statements]
      exact reads_give _
  | @cons ts us n ns first isOpen hd hds ih ihs =>
    constructor
    · intro closing rest last hc
      obtain ⟨token, tokens, rfl, hs⟩ := ih n (us ++ closing :: rest) rfl
        fun _ => notNext_else hds (by simp [hc])
      have hk : token.kind ≠ .rightBrace := by
        obtain ⟨_, _, ⟨⟩, hk⟩ := hd.first_not_mem
        exact fun h => hk (by simp [h, stopping])
      rw [List.append_assoc, List.cons_append, blockItems, if_neg hk]
      exact ((hs last).cons blockItems fun between => ihs.1 closing rest between hc).behind
    · intro last
      obtain ⟨token, tokens, rfl, hs⟩ := ih n us rfl fun _ => by
        simpa using notNext_else hds (notNext_nil _)
      rw [List.cons_append, statements]
      exact ((hs last).cons statements ihs.2).behind

/-- A program is read as the tree that it is derived with. -/
theorem program_of_derives {tokens : List Token} {tree : Node} (h : Program true tokens tree) :
    program tokens = (tree, []) := by
  obtain ⟨hd⟩ := h
  have hr := (readsPart hd).2 none
  rw [program, hr.value_eq, hr.errors_eq]

end BlockLang.Parse
