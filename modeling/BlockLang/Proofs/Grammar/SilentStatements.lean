import BlockLang.Proofs.Grammar.SilentOperands

/-! # Statements that are parsed in silence

If statements are parsed and no error is recorded, then the grammar derives the
tokens that have been read with the trees that have been built: no recovery is
silent. An open statement is not followed by an `else`, so that each `else` has
gone to the nearest `if`.
-/
namespace BlockLang.Parse

open Grammar Parsed

/-! ## Simple statements -/

theorem spans_target? {c : Cursor} {target : Parsed Node c} (h : target? c = some target) :
    target.Spans fun ts n _ => Operand .name ts n := by
  obtain ⟨last, rest⟩ := c
  cases rest with
  | nil => simp [target?] at h
  | cons name tokens =>
    rw [target?] at h
    split at h
    · rename_i hk
      cases h
      exact (spans_identifier name tokens hk).behind
    · cases h

/-- An assignment whose target begins with tokens `pre` that have been read. -/
theorem spans_assignTo_header {c : Cursor} {target : Parsed Node c} (pre : List Token)
    (ht : target.Spans fun ts n _ => Operand .name (pre ++ ts) n) :
    (assignTo true target).Spans fun ts n _ => Assignment (pre ++ ts) n := by
  rw [assignTo]
  refine Spans.require (P := fun ts ns _ => ns = [target.value] ∧
    Operand .name (pre ++ ts) target.value) (Spans.map (ht.value.mono ?_)) fun later hl => ?_
  · rintro ts n _ ⟨rfl, hn⟩
    exact ⟨rfl, hn⟩
  · refine Spans.node (hl.child (spans_condition _) ?_)
    rintro _ _ us source _ ⟨ts, sign, rfl, hk, rfl, hn⟩ hc
    simpa using Assignment.intro hn hk hc

theorem spans_assignTo_statement {c : Cursor} {target : Parsed Node c} (pre : List Token)
    (ht : target.Spans fun ts n _ => Operand .name (pre ++ ts) n) :
    (assignTo false target).Spans fun ts n _ =>
      ∃ us closing, pre ++ ts = us ++ [closing] ∧ closing.kind = .semicolon ∧ Assignment us n := by
  rw [assignTo]
  refine Spans.require (P := fun ts ns _ => ns = [target.value] ∧
    Operand .name (pre ++ ts) target.value) (Spans.map (ht.value.mono ?_)) fun later hl => ?_
  · rintro ts n _ ⟨rfl, hn⟩
    exact ⟨rfl, hn⟩
  · refine Spans.node ((hl.child (Q := fun ts ns _ => ∃ source, ns = [target.value, source] ∧
      Assignment (pre ++ ts) ⟨.assignment, "=", target.value.line, [target.value, source]⟩)
      (spans_condition _) ?_).delimit ?_)
    · rintro _ _ us source _ ⟨ts, sign, rfl, hk, rfl, hn⟩ hc
      exact ⟨source, rfl, by simpa using Assignment.intro hn hk hc⟩
    · rintro ts closing _ _ hk ⟨source, rfl, ha⟩
      exact ⟨pre ++ ts, closing, by simp, hk, ha⟩

theorem spans_headerAssignment (c : Cursor) :
    (headerAssignment c).Spans fun ts n _ => Assignment ts n := by
  rw [headerAssignment]
  split
  · rename_i target ht
    exact spans_assignTo_header [] (spans_target? ht)
  · exact spans_fail _

theorem spans_declaratorSuffix (name : Token) (tokens : List Token)
    (hk : name.kind = .identifier) : (declaratorSuffix name tokens).Spans fun ts ns _ =>
      Operand .name (name :: ts) ⟨.identifier, name.text, name.line, ns⟩ := by
  cases tokens with
  | nil =>
    rw [declaratorSuffix]
    exact spans_give (.plain hk)
  | cons token tokens =>
    rw [declaratorSuffix]
    split
    · rename_i ho
      refine (Spans.map ((spans_subscript token tokens).mono ?_)).behind
      rintro _ n _ ⟨ts, closing, index, rfl, hc, rfl, hi⟩
      exact .subscripted hk ho hi hc
    · exact spans_give (.plain hk)
    · exact spans_give (.plain hk)
    · exact spans_give (.plain hk)
    · exact spans_of_errors (List.cons_ne_nil _ _)

theorem spans_declarator (c : Cursor) : (declarator c).Spans fun ts n _ => Declarator ts n := by
  obtain ⟨last, rest⟩ := c
  cases rest with
  | nil => exact spans_fail _
  | cons name tokens =>
    rw [declarator]
    split
    · rename_i hk
      have hs := spans_declaratorSuffix name tokens hk
      refine (Spans.node ?_).behind
      obtain ⟨sign, rest, hr, hsign, ha, -⟩ | ⟨-, ha⟩ :=
        accept?_cases .assign (declaratorSuffix name tokens)
      · rw [ha]
        refine (hs.skip hr).child (spans_within (spans_condition _) fun _ _ h => h.ne_nil) ?_
        rintro _ suffix us _ _ ⟨ts, rfl, hn⟩ ⟨value, hc, rfl⟩
        simpa using Declarator.initialized hn hsign hc
      · rw [ha]
        exact hs.mono fun ts suffix _ hn => .plain hn
    · exact spans_of_errors (List.cons_ne_nil _ _)

mutual

theorem spans_declarators (c : Cursor) :
    (declarators c).Spans fun ts ns _ => Declarators ts ns := by
  rw [declarators]
  refine (spans_declarator c).cons (spans_declaratorsFrom _) ?_
  rintro ts n _ _ _ hd (⟨rfl, rfl⟩ | ⟨comma, us, rfl, hk, hds⟩)
  · simpa using Declarators.one hd
  · exact .more hd hk hds
termination_by 2 * c.rest.length + 1
decreasing_by exact Nat.lt_succ_of_le (Nat.mul_le_mul_left 2 (length_le _))

theorem spans_declaratorsFrom (c : Cursor) : (declaratorsFrom c).Spans fun ts ns _ =>
    (ts = [] ∧ ns = []) ∨
      ∃ comma us, ts = comma :: us ∧ comma.kind = .comma ∧ Declarators us ns := by
  obtain ⟨last, rest⟩ := c
  cases rest with
  | nil =>
    rw [declaratorsFrom]
    exact spans_give (.inl ⟨rfl, rfl⟩)
  | cons comma tokens =>
    rw [declaratorsFrom]
    split
    · rename_i hk
      refine ((spans_declarators ⟨some comma, tokens⟩).mono ?_).behind
      exact fun us ns _ hds => .inr ⟨comma, us, rfl, hk, hds⟩
    · exact spans_give (.inl ⟨rfl, rfl⟩)
termination_by 2 * c.rest.length
decreasing_by simp only [List.length_cons]; omega

end

theorem spans_declaration (word : Token) (tokens : List Token) (hk : word.kind.isTypeWord) :
    (declaration word tokens).Spans fun ts n _ =>
      Derives true .statement false (word :: ts) [n] := by
  rw [declaration]
  refine Spans.node ((spans_declarators _).delimit ?_)
  exact fun ts closing ns _ hc hds => .declaration hk hds hc

theorem spans_read (word : Token) (tokens : List Token) (hk : word.kind = .readWord) :
    (read word tokens).Spans fun ts n _ => Derives true .statement false (word :: ts) [n] := by
  rw [Parse.read]
  refine Spans.require (P := fun ts ns _ => ts = [] ∧ ns = []) (spans_give ⟨rfl, rfl⟩)
    fun opened hopened => ?_
  split
  · exact spans_of_errors (by simp [Parsed.skip, Parsed.andThen, fail])
  · rename_i target ht
    refine Spans.require (P := fun ts ns _ => ∃ opening us n, opening.kind = .leftParen ∧
      ts = opening :: us ∧ ns = [n] ∧ Operand .name us n)
      (hopened.snoc (spans_target? ht) ?_) fun closed hclosed => ?_
    · rintro _ _ us n _ ⟨_, opening, rfl, ho, rfl, rfl⟩ hn
      exact ⟨opening, us, n, ho, rfl, rfl, hn⟩
    · refine Spans.require hclosed fun ended hended => Spans.node (hended.mono ?_)
      rintro _ _ _ ⟨_, ending, rfl, he, _, closing, rfl, hc, opening, us, n, ho, rfl, rfl, hn⟩
      simpa using Derives.read hk ho hn hc he

theorem spans_write (word : Token) (tokens : List Token) (hk : word.kind = .writeWord) :
    (write word tokens).Spans fun ts n _ => Derives true .statement false (word :: ts) [n] := by
  rw [Parse.write]
  refine Spans.require (P := fun ts ns _ => ts = [] ∧ ns = []) (spans_give ⟨rfl, rfl⟩)
    fun opened hopened => ?_
  refine Spans.require (P := fun ts ns _ => ∃ opening us n, opening.kind = .leftParen ∧
    ts = opening :: us ∧ ns = [n] ∧ Operand .expression us n)
    (hopened.child (spans_expression _) ?_) fun closed hclosed => ?_
  · rintro _ _ us n _ ⟨_, opening, rfl, ho, rfl, rfl⟩ hn
    exact ⟨opening, us, n, ho, rfl, rfl, hn⟩
  · refine Spans.require hclosed fun ended hended => Spans.node (hended.mono ?_)
    rintro _ _ _ ⟨_, ending, rfl, he, _, closing, rfl, hc, opening, us, n, ho, rfl, rfl, hn⟩
    simpa using Derives.write hk ho hn hc he

/-! ## Compound statements -/

theorem spans_header {start : Cursor} (noOpening noClosing : SyntaxError.Cause) :
    ((((give [] : Parsed (List Node) start).delimit .leftParen noOpening).child
      (within .condition "" condition)).delimit .rightParen noClosing).Spans fun ts ns _ =>
        ∃ opening us closing test, ts = opening :: us ++ [closing] ∧ opening.kind = .leftParen ∧
          Condition us test ∧ closing.kind = .rightParen ∧
          ns = [⟨.condition, "", firstLine us, [test]⟩] := by
  refine Spans.delimit (Spans.child (P := fun ts ns _ => ∃ opening, opening.kind = .leftParen ∧
    ts = [opening] ∧ ns = []) (Q := fun ts ns _ => ∃ opening us test, opening.kind = .leftParen ∧
    ts = opening :: us ∧ Condition us test ∧ ns = [⟨.condition, "", firstLine us, [test]⟩])
    (Spans.delimit (P := fun ts ns _ => ts = [] ∧ ns = []) (spans_give ⟨rfl, rfl⟩) ?_)
    (spans_within (spans_condition _) fun _ _ h => h.ne_nil) ?_) ?_
  · rintro _ opening _ _ ho ⟨rfl, rfl⟩
    exact ⟨opening, ho, rfl, rfl⟩
  · rintro _ _ us _ _ ⟨opening, ho, rfl, rfl⟩ ⟨test, hc, rfl⟩
    exact ⟨opening, us, test, ho, rfl, hc, rfl⟩
  · rintro _ closing _ _ hk ⟨opening, us, test, ho, rfl, hc, rfl⟩
    exact ⟨opening, us, closing, test, rfl, ho, hc, hk, rfl⟩

/-- Statements and blocks are derived, and an open one is not followed by an `else`. -/
def Derived (part : Part) (ts : List Token) (n : Node) (rest : List Token) : Prop :=
  ∃ isOpen, Derives true part isOpen ts [n] ∧ (isOpen = true → NotNext [.elseWord] rest)

def Headed (ts : List Token) (ns : List Node) (rest : List Token) : Prop :=
  ∃ opening us closing test vs body, ts = opening :: us ++ closing :: vs ∧
    opening.kind = .leftParen ∧ Condition us test ∧ closing.kind = .rightParen ∧
    ns = [⟨.condition, "", firstLine us, [test]⟩, body] ∧ Derived .block vs body rest

theorem spans_headed {start : Cursor} {header : Parsed (List Node) start}
    (hh : header.Spans fun ts ns _ => ∃ opening us closing test, ts = opening :: us ++ [closing] ∧
      opening.kind = .leftParen ∧ Condition us test ∧ closing.kind = .rightParen ∧
      ns = [⟨.condition, "", firstLine us, [test]⟩])
    (hb : (block header.next).Spans (Derived .block)) :
    (header.snoc (block header.next)).Spans Headed := by
  refine hh.snoc hb ?_
  rintro _ _ vs body rest ⟨opening, us, closing, test, rfl, ho, ht, hc, rfl⟩ hd
  exact ⟨opening, us, closing, test, vs, body, by simp, ho, ht, hc, rfl, hd⟩

/-- The branches of a conditional, and a third child if there is an `else`. -/
theorem derived_conditional {word : Token} {ts us : List Token} {children ns : List Node}
    {rest : List Token} (hk : word.kind = .ifWord) (hh : Headed ts children (us ++ rest))
    (ha : (us = [] ∧ ns = children ∧ NotNext [.elseWord] rest) ∨
      ∃ other vs body, us = other :: vs ∧ other.kind = .elseWord ∧
        ns = children ++ [⟨.alternative, other.text, other.line, [body]⟩] ∧
        Derived .block vs body rest) :
    Derived .statement (word :: (ts ++ us)) ⟨.conditional, word.text, word.line, ns⟩ rest := by
  obtain ⟨opening, us', closing, test, vs, body, rfl, ho, ht, hc, rfl, inner, hd, hr⟩ := hh
  obtain ⟨rfl, rfl, hn⟩ | ⟨other, ws, otherwise, rfl, hother, rfl, isOpen, hde, hre⟩ := ha
  · exact ⟨true, by simpa using Derives.conditional hk ho ht hc hd, fun _ => hn⟩
  · have hinner : inner = false := by
      cases inner with
      | false => rfl
      | true => exact absurd (hr rfl) (by simp [hother])
    exact ⟨isOpen, by simpa using Derives.alternative hk ho ht hc hd (fun _ => hinner) hother hde,
      hre⟩

theorem derived_while {word : Token} {ts rest : List Token} {ns : List Node}
    (hk : word.kind = .whileWord) (hh : Headed ts ns rest) :
    Derived .statement (word :: ts) ⟨.whileLoop, word.text, word.line, ns⟩ rest := by
  obtain ⟨opening, us, closing, test, vs, body, rfl, ho, ht, hc, rfl, isOpen, hd, hr⟩ := hh
  exact ⟨isOpen, Derives.whileLoop hk ho ht hc hd, hr⟩

def Begun (ts : List Token) (ns : List Node) : Prop :=
  ∃ opening us init, ts = opening :: us ∧ opening.kind = .leftParen ∧ Assignment us init ∧
    ns = [⟨.init, "", firstLine us, [init]⟩]

def Tested (ts : List Token) (ns : List Node) : Prop :=
  ∃ us ms first vs test, ts = us ++ first :: vs ∧ Begun us ms ∧ first.kind = .semicolon ∧
    Condition vs test ∧ ns = ms ++ [⟨.condition, "", firstLine vs, [test]⟩]

def Stepped (ts : List Token) (ns : List Node) : Prop :=
  ∃ us ms second vs step closing, ts = us ++ second :: vs ++ [closing] ∧ Tested us ms ∧
    second.kind = .semicolon ∧ Assignment vs step ∧ closing.kind = .rightParen ∧
    ns = ms ++ [⟨.step, "", firstLine vs, [step]⟩]

theorem spans_begun {start : Cursor} (cause : SyntaxError.Cause) :
    (((give [] : Parsed (List Node) start).delimit .leftParen cause).child
      (within .init "" headerAssignment)).Spans fun ts ns _ => Begun ts ns := by
  refine Spans.child (P := fun ts ns _ => ∃ opening, opening.kind = .leftParen ∧
    ts = [opening] ∧ ns = [])
    (Spans.delimit (P := fun ts ns _ => ts = [] ∧ ns = []) (spans_give ⟨rfl, rfl⟩) ?_)
    (spans_within (spans_headerAssignment _) fun _ _ h => h.ne_nil) ?_
  · rintro _ opening _ _ ho ⟨rfl, rfl⟩
    exact ⟨opening, ho, rfl, rfl⟩
  · rintro _ _ us _ _ ⟨opening, ho, rfl, rfl⟩ ⟨init, hi, rfl⟩
    exact ⟨opening, us, init, rfl, ho, hi, rfl⟩

theorem spans_tested {start : Cursor} {started : Parsed (List Node) start}
    (h : started.Spans fun ts ns _ =>
      ∃ us token, ts = us ++ [token] ∧ token.kind = .semicolon ∧ Begun us ns) :
    (started.child (within .condition "" condition)).Spans fun ts ns _ => Tested ts ns := by
  refine h.child (spans_within (spans_condition _) fun _ _ h => h.ne_nil) ?_
  rintro _ ms vs _ _ ⟨us, first, rfl, hf, hb⟩ ⟨test, ht, rfl⟩
  exact ⟨us, ms, first, vs, test, by simp, hb, hf, ht, rfl⟩

theorem spans_stepped {start : Cursor} {tested : Parsed (List Node) start}
    (cause : SyntaxError.Cause) (h : tested.Spans fun ts ns _ =>
      ∃ us token, ts = us ++ [token] ∧ token.kind = .semicolon ∧ Tested us ns) :
    ((tested.child (within .step "" headerAssignment)).delimit .rightParen cause).Spans
      fun ts ns _ => Stepped ts ns := by
  refine Spans.delimit (P := fun ts ns _ => ∃ us ms second vs step, ts = us ++ second :: vs ∧
    Tested us ms ∧ second.kind = .semicolon ∧ Assignment vs step ∧
    ns = ms ++ [⟨.step, "", firstLine vs, [step]⟩])
    (h.child (spans_within (spans_headerAssignment _) fun _ _ h => h.ne_nil) ?_) ?_
  · rintro _ ms vs _ _ ⟨us, second, rfl, hs, ht⟩ ⟨step, ha, rfl⟩
    exact ⟨us, ms, second, vs, step, by simp, ht, hs, ha, rfl⟩
  · rintro _ closing _ _ hc ⟨us, ms, second, vs, step, rfl, ht, hs, ha, rfl⟩
    exact ⟨us, ms, second, vs, step, closing, rfl, ht, hs, ha, hc, rfl⟩

theorem derived_for {word : Token} {ts ws rest : List Token} {ns : List Node} {body : Node}
    (hk : word.kind = .forWord) (hs : Stepped ts ns) (hb : Derived .block ws body rest) :
    Derived .statement (word :: (ts ++ ws)) ⟨.forLoop, word.text, word.line, ns ++ [body]⟩
      rest := by
  obtain ⟨_, _, second, vs, step, closing, rfl, ht, hsecond, hstep, hc, rfl⟩ := hs
  obtain ⟨_, _, first, us, test, rfl, hbegun, hfirst, htest, rfl⟩ := ht
  obtain ⟨opening, ts, init, rfl, ho, hi, rfl⟩ := hbegun
  obtain ⟨isOpen, hd, hr⟩ := hb
  exact ⟨isOpen, by simpa using Derives.forLoop hk ho hi hfirst htest hsecond hstep hc hd, hr⟩

mutual

theorem spans_statement (last : Option Token) (token : Token) (tokens : List Token) :
    (statement last token tokens).Spans fun ts n rest =>
      Derived .statement (token :: ts) n rest := by
  rw [statement]
  split
  · rename_i hk
    refine (spans_assignTo_statement [token] (spans_identifier token tokens hk)).mono ?_
    rintro ts n _ ⟨us, closing, hts, hc, ha⟩
    rw [List.singleton_append] at hts
    exact ⟨false, hts ▸ .assignment ha hc, by simp⟩
  iterate 4
    · rename_i hk
      refine (spans_declaration token tokens (by rw [hk]; rfl)).mono fun ts n _ hd => ?_
      exact ⟨false, hd, by simp⟩
  · rename_i hk
    exact (spans_read token tokens hk).mono fun ts n _ hd => ⟨false, hd, by simp⟩
  · rename_i hk
    exact (spans_write token tokens hk).mono fun ts n _ hd => ⟨false, hd, by simp⟩
  · rename_i hk
    refine Spans.node ((spans_headed (spans_header _ _) (spans_block _)).followed
      (spans_alternative _ _) ?_)
    exact fun ts us ns rest hh ha => derived_conditional hk hh ha
  · rename_i hk
    exact Spans.node ((spans_headed (spans_header _ _) (spans_block _)).mono
      fun ts ns rest hh => derived_while hk hh)
  · rename_i hk
    refine Spans.require (spans_begun _) fun started hstarted => ?_
    refine Spans.require (spans_tested hstarted) fun tested htested => ?_
    refine Spans.node ((spans_stepped _ htested).snoc (spans_block _) ?_)
    exact fun ts ns ws body rest hs hb => derived_for hk hs hb
  · exact spans_of_errors (List.cons_ne_nil _ _)
termination_by 3 * tokens.length + 2
decreasing_by all_goals exact measure_lt _ 3 (Nat.lt_succ_self _)

theorem spans_alternative (children : List Node) (c : Cursor) :
    (alternative children c).Spans fun ts ns rest =>
      (ts = [] ∧ ns = children ∧ NotNext [.elseWord] rest) ∨
      ∃ word us body, ts = word :: us ∧ word.kind = .elseWord ∧
        ns = children ++ [⟨.alternative, word.text, word.line, [body]⟩] ∧
        Derived .block us body rest := by
  obtain ⟨last, rest⟩ := c
  cases rest with
  | nil =>
    rw [alternative]
    exact spans_give (.inl ⟨rfl, rfl, by simp⟩)
  | cons word tokens =>
    rw [alternative]
    split
    · rename_i hk
      refine (Spans.map ((spans_block ⟨some word, tokens⟩).mono fun us body rest hb => ?_)).behind
      exact .inr ⟨word, us, body, rfl, hk, rfl, hb⟩
    · rename_i hk
      exact spans_give (.inl ⟨rfl, rfl, by simpa using hk⟩)
termination_by 3 * c.rest.length + 1
decreasing_by simp only [List.length_cons]; omega

theorem spans_block (c : Cursor) : (block c).Spans fun ts n rest => Derived .block ts n rest := by
  obtain ⟨last, rest⟩ := c
  cases rest with
  | nil =>
    rw [block]
    exact spans_of_errors (List.cons_ne_nil _ _)
  | cons token tokens =>
    rw [block]
    split
    · rename_i ho
      refine (Spans.node ((spans_blockItems ⟨some token, tokens⟩).delimit ?_)).behind
      rintro ts closing ns _ hc ⟨isOpen, hds⟩
      exact ⟨false, .braces ho hds hc, by simp⟩
    · refine (Spans.map ((spans_statement last token tokens).mono ?_)).behind
      rintro ts n rest ⟨isOpen, hd, hr⟩
      exact ⟨isOpen, .bare hd, hr⟩
termination_by 3 * c.rest.length + 1
decreasing_by all_goals simp only [List.length_cons]; omega

theorem spans_blockItems (c : Cursor) : (blockItems c).Spans fun ts ns _ =>
    ∃ isOpen, Derives true .statements isOpen ts ns := by
  obtain ⟨last, rest⟩ := c
  cases rest with
  | nil =>
    rw [blockItems]
    exact spans_give ⟨false, .nil⟩
  | cons token tokens =>
    rw [blockItems]
    split
    · exact spans_give ⟨false, .nil⟩
    · refine ((spans_statement last token tokens).cons (spans_blockItems _) ?_).behind
      rintro ts n us ns _ ⟨_, hd, -⟩ ⟨isOpen, hds⟩
      exact ⟨isOpen, .cons hd hds⟩
termination_by 3 * c.rest.length + 1
decreasing_by
  · simp only [List.length_cons]
    omega
  · exact measure_lt _ 3 (by simp only [List.length_cons]; omega)

end

theorem spans_statements (c : Cursor) : (statements c).Spans fun ts ns rest =>
    rest = [] ∧ ∃ isOpen, Derives true .statements isOpen ts ns := by
  obtain ⟨last, rest⟩ := c
  cases rest with
  | nil =>
    rw [statements]
    exact spans_give ⟨rfl, false, .nil⟩
  | cons token tokens =>
    rw [statements]
    refine ((spans_statement last token tokens).cons (spans_statements _) ?_).behind
    rintro ts n us ns _ ⟨_, hd, -⟩ ⟨hr, isOpen, hds⟩
    exact ⟨hr, isOpen, .cons hd hds⟩
termination_by c.rest.length
decreasing_by exact Nat.lt_succ_of_le (length_le _)

/-- A program that is parsed without an error is derived with the tree that is built. -/
theorem derives_of_program {tokens : List Token} (h : (program tokens).2 = []) :
    Program true tokens (program tokens).1 := by
  obtain ⟨ts, hts, hr, isOpen, hds⟩ := spans_statements ⟨none, tokens⟩ h
  rw [hr, List.append_nil] at hts
  cases hts
  exact .intro hds

end BlockLang.Parse
