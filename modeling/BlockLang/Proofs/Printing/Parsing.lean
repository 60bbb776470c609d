import BlockLang.Proofs.Grammar.Statements
import BlockLang.Proofs.Printing.Operands

/-! # Parsing undoes printing

Every statement is read back from the tokens that it is printed to. Since bodies are printed
in braces, none of them is open and each `else` stands at its own `if`.
-/
namespace BlockLang.Grammar
open Lexeme Node

variable {line : Nat} {ts : List Token} {lexemes others : List (TokenKind × String)}
  {word : TokenKind} {text : String} {e stmt item : Node} {stmts items : List Node}

/-! ## Parts of statements -/

theorem condition_of_prints (h : e.IsCondition) (hl : e.OnLine line)
    (hp : Prints line ts e.print) : Condition ts e := by
  cases h with
  | plain he => exact .plain ((readsBack_of_isExpression he hl).expression hp)
  | @comparison text _ left right ht hleft hright =>
    obtain rfl := hl.line_eq
    have hl₁ := readsBack_of_isExpression hleft (hl.child List.mem_cons_self)
    have hl₂ := readsBack_of_isExpression hright
      (hl.child (List.mem_cons_of_mem _ List.mem_cons_self))
    simp only [print_comparison, prints_append, prints_cons] at hp
    obtain ⟨us, _, rfl, hus, o, vs, rfl, ⟨ho, hol⟩, hvs⟩ := hp
    have hk : o.kind.isComparison := by
      rw [kind_of_lexeme ho]
      simp only [List.mem_cons, List.not_mem_nil, or_false] at ht
      obtain rfl | rfl | rfl | rfl := ht <;> rfl
    have hc := Condition.comparison (hl₁.expression hus) hk (hl₂.expression hvs)
    rwa [text_of_lexeme ho, hol] at hc

theorem name_of_prints {name : String} {suffix : List Node}
    (h : IsExpression ⟨.identifier, name, line, suffix⟩)
    (hl : OnLine line ⟨.identifier, name, line, suffix⟩)
    (hp : Prints line ts (print ⟨.identifier, name, line, suffix⟩)) :
    Operand .name ts ⟨.identifier, name, line, suffix⟩ := by
  cases h with
  | scalar => exact name_plain hp
  | cell _ hi =>
    have hsub := hl.child List.mem_cons_self
    obtain rfl := hsub.line_eq
    have hindex := readsBack_of_isExpression hi (hsub.child List.mem_cons_self)
    exact name_subscripted hindex hp

theorem target_of_prints (h : e.IsTarget) (hl : e.OnLine line) (hp : Prints line ts e.print) :
    Operand .name ts e := by
  obtain ⟨h⟩ := h
  obtain rfl := hl.line_eq
  exact name_of_prints h hl hp

theorem assignment_of_prints (h : e.IsAssignment) (hl : e.OnLine line)
    (hp : Prints line ts e.print) : Assignment ts e := by
  obtain ⟨ht, hs⟩ := h
  obtain rfl := hl.line_eq
  have htl := hl.child List.mem_cons_self
  have hsl := hl.child (List.mem_cons_of_mem _ List.mem_cons_self)
  simp only [print_assignment, prints_append, prints_cons] at hp
  obtain ⟨us, _, rfl, hus, o, vs, rfl, ⟨ho, -⟩, hvs⟩ := hp
  have ha := Assignment.intro (target_of_prints ht htl hus) (kind_of_lexeme ho)
    (condition_of_prints hs hsl hvs)
  rwa [htl.line_eq] at ha

theorem isExpression_of_subscript {name : String} {subscript : Option Node}
    (hn : Spells .identifier name)
    (hs : ∀ n ∈ subscript, Wraps .subscript "[]" IsExpression n) :
    IsExpression ⟨.identifier, name, line, subscript.toList⟩ := by
  cases subscript with
  | none => exact .scalar hn
  | some n =>
    obtain ⟨_, _, rfl, hi⟩ := hs n rfl
    exact .cell hn hi

theorem declarator_of_prints (h : item.IsDeclarator) (hl : item.OnLine line)
    (hp : Prints line ts item.print) : Declarator ts item := by
  obtain ⟨subscript, initializer, hname, hs, hi⟩ := h
  obtain ⟨rfl, hchildren⟩ := onLine_iff.1 hl
  obtain ⟨hsl, hil⟩ := List.forall_mem_append.1 hchildren
  rw [print_declarator, prints_append] at hp
  obtain ⟨us, vs, rfl, hus, hvs⟩ := hp
  have hn := name_of_prints (isExpression_of_subscript hname hs) (onLine_iff.2 ⟨rfl, hsl⟩) hus
  cases initializer with
  | none =>
    simp only [Option.toList_none, List.flatMap_nil, prints_nil] at hvs
    subst hvs
    simpa using Declarator.plain hn
  | some n =>
    obtain ⟨l, value, rfl, hv⟩ := hi n rfl
    have hnl := hil _ (Option.mem_toList.2 rfl)
    obtain rfl := hnl.line_eq
    simp only [Option.toList_some, List.flatMap_cons, List.flatMap_nil, List.append_nil,
      print_initializer, prints_cons] at hvs
    obtain ⟨sign, ws, rfl, ⟨hsign, -⟩, hws⟩ := hvs
    have hc := condition_of_prints hv (hnl.child List.mem_cons_self) hws
    have hd := Declarator.initialized hn (kind_of_lexeme hsign) hc
    rwa [firstLine_of_prints hws hc.ne_nil] at hd

theorem declarators_of_prints (h : ∀ item ∈ items, item.IsDeclarator) (hne : items ≠ [])
    (hl : ∀ item ∈ items, item.OnLine line)
    (hp : Prints line ts ([spelled .comma].intercalate (items.map print))) :
    Declarators ts items := by
  induction items generalizing ts with
  | nil => exact absurd rfl hne
  | cons item items ih =>
    obtain ⟨hitem, hitems⟩ := List.forall_mem_cons.1 h
    obtain ⟨hil, hisl⟩ := List.forall_mem_cons.1 hl
    cases items with
    | nil =>
      rw [List.map_cons, List.map_nil, List.intercalate_singleton] at hp
      exact .one (declarator_of_prints hitem hil hp)
    | cons next items =>
      rw [List.map_cons, List.map_cons, List.intercalate_cons_cons, ← List.map_cons,
        List.append_assoc, List.singleton_append, prints_append] at hp
      obtain ⟨us, _, rfl, hus, hp⟩ := hp
      obtain ⟨comma, vs, rfl, ⟨hcomma, -⟩, hvs⟩ := prints_cons.1 hp
      exact .more (declarator_of_prints hitem hil hus) (kind_of_lexeme hcomma)
        (ih hitems (List.cons_ne_nil _ _) hisl hvs)

/-! ## Statements -/

/-- A word with something in parentheses behind it, and what follows. -/
theorem prints_header
    (hp : Prints line ts (spelled word :: grouped true lexemes ++ others)) :
    ∃ first opening us closing vs, ts = first :: opening :: us ++ closing :: vs ∧
      first.lexeme = spelled word ∧ first.line = line ∧ opening.kind = .leftParen ∧
      closing.kind = .rightParen ∧ Prints line us lexemes ∧ Prints line vs others := by
  simp only [grouped, if_true, List.cons_append, List.append_assoc, List.nil_append, prints_cons,
    prints_append] at hp
  obtain ⟨first, _, rfl, ⟨hf, hfl⟩, opening, _, rfl, ⟨ho, -⟩, us, _, rfl, hus, closing, vs, rfl,
    ⟨hc, -⟩, hvs⟩ := hp
  exact ⟨first, opening, us, closing, vs, rfl, hf, hfl, kind_of_lexeme ho, kind_of_lexeme hc, hus,
    hvs⟩

/-- Whatever tokens a statement is printed to on the line, they are derived as this statement. -/
def Restored (line : Nat) (stmt : Node) : Prop :=
  ∀ ts, Prints line ts (stmt.ended stmt.print) →
    ∃ isOpen, Derives true .statement isOpen ts [stmt]

theorem restored_of_print (hk : stmt.kind ≠ .assignment)
    (h : ∀ ts, Prints line ts stmt.print → ∃ isOpen, Derives true .statement isOpen ts [stmt]) :
    Restored line stmt := by
  intro ts hp
  rw [ended, if_neg hk] at hp
  exact h ts hp

theorem derives_statements (h : ∀ stmt ∈ stmts, Restored line stmt)
    (hp : Prints line ts (stmts.flatMap fun stmt => stmt.ended stmt.print)) :
    ∃ isOpen, Derives true .statements isOpen ts stmts := by
  induction stmts generalizing ts with
  | nil =>
    obtain rfl := prints_nil.1 hp
    exact ⟨_, .nil⟩
  | cons stmt stmts ih =>
    obtain ⟨hstmt, hstmts⟩ := List.forall_mem_cons.1 h
    rw [List.flatMap_cons, prints_append] at hp
    obtain ⟨us, vs, rfl, hus, hvs⟩ := hp
    obtain ⟨_, hd⟩ := hstmt us hus
    obtain ⟨_, hds⟩ := ih hstmts hvs
    exact ⟨_, .cons hd hds⟩

/-- A body is read back; nothing can be added to it, since it stands in braces. -/
def Braced (line : Nat) (body : Node) : Prop :=
  ∀ ts, Prints line ts body.print → Derives true .block false ts [body]

theorem braced_block {bodyLine : Nat} (hl : OnLine line ⟨.block, "", bodyLine, stmts⟩)
    (h : ∀ stmt ∈ stmts, stmt.OnLine line → Restored line stmt) :
    Braced line ⟨.block, "", bodyLine, stmts⟩ := by
  intro ts hp
  obtain ⟨rfl, hstmts⟩ := onLine_iff.1 hl
  simp only [print_block, prints_append, prints_cons, prints_nil] at hp
  obtain ⟨_, _, rfl, ⟨o, us, rfl, ⟨ho, hol⟩, hus⟩, c, _, rfl, ⟨hc, -⟩, rfl⟩ := hp
  obtain ⟨_, hds⟩ := derives_statements (fun stmt hm => h stmt hm (hstmts stmt hm)) hus
  have hd := Derives.braces (kind_of_lexeme ho) hds (kind_of_lexeme hc)
  rwa [hol] at hd

/-- What a part of a header wraps is read back. -/
theorem wraps_of_prints {kind : NodeKind} {P D : Node → Prop} (h : Wraps kind "" P e)
    (hk : kind = .init ∨ kind = .step ∨ kind = .condition) (hl : e.OnLine line)
    (hp : Prints line ts e.print)
    (hd : ∀ inner, P inner → inner.OnLine line → Prints line ts inner.print → D inner)
    (hne : ∀ inner, D inner → ts ≠ []) :
    ∃ inner, e = ⟨kind, "", firstLine ts, [inner]⟩ ∧ D inner := by
  obtain ⟨first, inner, rfl, hi⟩ := h
  obtain ⟨rfl, hchildren⟩ := onLine_iff.1 hl
  rw [print_part hk] at hp
  have hread := hd inner hi (hchildren inner List.mem_cons_self) hp
  exact ⟨inner, by rw [firstLine_of_prints hp (hne inner hread)], hread⟩

theorem test_of_prints (h : Wraps .condition "" IsCondition e) (hl : e.OnLine line)
    (hp : Prints line ts e.print) :
    ∃ inner, e = ⟨.condition, "", firstLine ts, [inner]⟩ ∧ Condition ts inner :=
  wraps_of_prints h (.inr (.inr rfl)) hl hp (fun _ => condition_of_prints) fun _ => Condition.ne_nil

theorem header_of_prints {kind : NodeKind} (hk : kind = .init ∨ kind = .step)
    (h : Wraps kind "" IsAssignment e) (hl : e.OnLine line) (hp : Prints line ts e.print) :
    ∃ inner, e = ⟨kind, "", firstLine ts, [inner]⟩ ∧ Assignment ts inner :=
  wraps_of_prints h (hk.imp_right .inl) hl hp (fun _ => assignment_of_prints)
    fun _ => Assignment.ne_nil

theorem restored_declaration {kind : Kind} (hne : items ≠ [])
    (hitems : ∀ item ∈ items, item.IsDeclarator) (hl : ∀ item ∈ items, item.OnLine line) :
    Restored line ⟨.declaration, kind.name, line, items⟩ := by
  refine restored_of_print nofun fun ts hp => ?_
  rw [print_declaration] at hp
  simp only [prints_append, prints_cons, prints_nil] at hp
  obtain ⟨_, _, rfl, ⟨first, us, rfl, ⟨hf, hfl⟩, hus⟩, closing, _, rfl, ⟨hc, -⟩, rfl⟩ := hp
  have hk : first.kind.isTypeWord := by
    rw [kind_of_lexeme hf]
    cases kind <;> rfl
  have hd : Derives true .statement false (first :: us ++ [closing])
      [⟨.declaration, first.text, first.line, items⟩] :=
    .declaration hk (declarators_of_prints hitems hne hl hus) (kind_of_lexeme hc)
  rw [text_of_lexeme hf, hfl] at hd
  exact ⟨_, hd⟩

theorem restored_assignment (h : stmt.IsAssignment) (hl : stmt.OnLine line) :
    Restored line stmt := by
  intro ts hp
  rw [ended, if_pos h.kind_eq, prints_append] at hp
  obtain ⟨us, _, rfl, hus, hend⟩ := hp
  simp only [prints_cons, prints_nil] at hend
  obtain ⟨closing, _, rfl, ⟨hc, -⟩, rfl⟩ := hend
  exact ⟨_, .assignment (assignment_of_prints h hl hus) (kind_of_lexeme hc)⟩

theorem restored_read {target : Node} (h : target.IsTarget) (hl : target.OnLine line) :
    Restored line ⟨.read, "read", line, [target]⟩ := by
  refine restored_of_print nofun fun ts hp => ?_
  rw [print_read] at hp
  obtain ⟨first, _, us, _, vs, rfl, hf, hfl, ho, hc, hus, hvs⟩ := prints_header hp
  simp only [prints_cons, prints_nil] at hvs
  obtain ⟨_, _, rfl, ⟨hend, -⟩, rfl⟩ := hvs
  have hd : Derives true .statement _ _ _ :=
    .read (kind_of_lexeme hf) ho (target_of_prints h hl hus) hc (kind_of_lexeme hend)
  rw [text_of_lexeme hf, hfl] at hd
  exact ⟨_, hd⟩

theorem restored_write {value : Node} (h : value.IsExpression) (hl : value.OnLine line) :
    Restored line ⟨.write, "write", line, [value]⟩ := by
  refine restored_of_print nofun fun ts hp => ?_
  rw [print_write] at hp
  obtain ⟨first, _, us, _, vs, rfl, hf, hfl, ho, hc, hus, hvs⟩ := prints_header hp
  simp only [prints_cons, prints_nil] at hvs
  obtain ⟨_, _, rfl, ⟨hend, -⟩, rfl⟩ := hvs
  have hvalue : Operand .expression us value := (readsBack_of_isExpression h hl).expression hus
  have hd : Derives true .statement _ _ _ :=
    .write (kind_of_lexeme hf) ho hvalue hc (kind_of_lexeme hend)
  rw [text_of_lexeme hf, hfl] at hd
  exact ⟨_, hd⟩

theorem restored_conditional {test body : Node} (ht : Wraps .condition "" IsCondition test)
    (hl : test.OnLine line) (hb : Braced line body) :
    Restored line ⟨.conditional, "if", line, [test, body]⟩ := by
  refine restored_of_print nofun fun ts hp => ?_
  rw [print_conditional, List.flatMap_singleton] at hp
  obtain ⟨first, _, us, _, vs, rfl, hf, hfl, ho, hc, hus, hvs⟩ := prints_header hp
  obtain ⟨inner, rfl, htest⟩ := test_of_prints ht hl hus
  have hd := Derives.conditional (kind_of_lexeme hf) ho htest hc (hb vs hvs)
  rw [text_of_lexeme hf, hfl] at hd
  exact ⟨_, hd⟩

theorem restored_alternative {test body otherwise : Node}
    (ht : Wraps .condition "" IsCondition test) (hl : test.OnLine line)
    (hb : Braced line body) (he : Braced line otherwise) :
    Restored line ⟨.conditional, "if", line,
      [test, body, ⟨.alternative, "else", line, [otherwise]⟩]⟩ := by
  refine restored_of_print nofun fun ts hp => ?_
  rw [print_conditional, List.flatMap_cons, List.flatMap_singleton, print_alternative] at hp
  obtain ⟨first, _, us, _, _, rfl, hf, hfl, ho, hc, hus, hrest⟩ := prints_header hp
  obtain ⟨vs, _, rfl, hvs, helse⟩ := prints_append.1 hrest
  obtain ⟨other, ws, rfl, ⟨hother, hol⟩, hws⟩ := prints_cons.1 helse
  obtain ⟨inner, rfl, htest⟩ := test_of_prints ht hl hus
  have hd := Derives.alternative (kind_of_lexeme hf) ho htest hc (hb vs hvs) (fun _ => rfl)
    (kind_of_lexeme hother) (he ws hws)
  rw [text_of_lexeme hf, hfl, text_of_lexeme hother, hol] at hd
  exact ⟨_, by simpa [spelled, TokenKind.spelling?] using hd⟩

theorem restored_whileLoop {test body : Node} (ht : Wraps .condition "" IsCondition test)
    (hl : test.OnLine line) (hb : Braced line body) :
    Restored line ⟨.whileLoop, "while", line, [test, body]⟩ := by
  refine restored_of_print nofun fun ts hp => ?_
  rw [print_whileLoop] at hp
  obtain ⟨first, _, us, _, vs, rfl, hf, hfl, ho, hc, hus, hvs⟩ := prints_header hp
  obtain ⟨inner, rfl, htest⟩ := test_of_prints ht hl hus
  have hd := Derives.whileLoop (kind_of_lexeme hf) ho htest hc (hb vs hvs)
  rw [text_of_lexeme hf, hfl] at hd
  exact ⟨_, hd⟩

theorem restored_forLoop {init test step body : Node} (hi : Wraps .init "" IsAssignment init)
    (hil : init.OnLine line) (ht : Wraps .condition "" IsCondition test)
    (htl : test.OnLine line) (hs : Wraps .step "" IsAssignment step) (hsl : step.OnLine line)
    (hb : Braced line body) :
    Restored line ⟨.forLoop, "for", line, [init, test, step, body]⟩ := by
  refine restored_of_print nofun fun ts hp => ?_
  rw [print_forLoop] at hp
  obtain ⟨first, _, _, _, xs, rfl, hf, hfl, ho, hc, hheader, hxs⟩ := prints_header hp
  simp only [prints_append, prints_cons] at hheader
  obtain ⟨_, _, rfl, ⟨us, _, rfl, hus, s₁, vs, rfl, ⟨hs₁, -⟩, hvs⟩, s₂, ws, rfl, ⟨hs₂, -⟩, hws⟩ :=
    hheader
  obtain ⟨first', rfl, hinit⟩ := header_of_prints (.inl rfl) hi hil hus
  obtain ⟨inner, rfl, htest⟩ := test_of_prints ht htl hvs
  obtain ⟨next, rfl, hstep⟩ := header_of_prints (.inr rfl) hs hsl hws
  have hd := Derives.forLoop (kind_of_lexeme hf) ho hinit (kind_of_lexeme hs₁) htest
    (kind_of_lexeme hs₂) hstep hc (hb xs hxs)
  rw [text_of_lexeme hf, hfl] at hd
  exact ⟨_, by simpa [spelled, TokenKind.spelling?] using hd⟩

/-- The statements of a tree on one line are read back. -/
theorem restored_of_isStatement (h : stmt.IsStatement) (hl : stmt.OnLine line) :
    Restored line stmt := by
  induction h with
  | declaration hne hitems =>
    obtain ⟨rfl, hl⟩ := onLine_iff.1 hl
    exact restored_declaration hne hitems hl
  | assignment ha => exact restored_assignment ha hl
  | read ht =>
    obtain ⟨rfl, hl⟩ := onLine_iff.1 hl
    exact restored_read ht (hl _ List.mem_cons_self)
  | write hv =>
    obtain ⟨rfl, hl⟩ := onLine_iff.1 hl
    exact restored_write hv (hl _ List.mem_cons_self)
  | conditional ht _ ih =>
    obtain ⟨rfl, hl⟩ := onLine_iff.1 hl
    simp only [List.forall_mem_cons] at hl
    obtain ⟨htl, hbl, -⟩ := hl
    exact restored_conditional ht htl (braced_block hbl ih)
  | alternative ht _ _ ihb ihe =>
    obtain ⟨rfl, hl⟩ := onLine_iff.1 hl
    simp only [List.forall_mem_cons] at hl
    obtain ⟨htl, hbl, hal, -⟩ := hl
    obtain ⟨rfl, hel⟩ := onLine_iff.1 hal
    exact restored_alternative ht htl (braced_block hbl ihb)
      (braced_block (hel _ List.mem_cons_self) ihe)
  | whileLoop ht _ ih =>
    obtain ⟨rfl, hl⟩ := onLine_iff.1 hl
    simp only [List.forall_mem_cons] at hl
    obtain ⟨htl, hbl, -⟩ := hl
    exact restored_whileLoop ht htl (braced_block hbl ih)
  | forLoop hi ht hs _ ih =>
    obtain ⟨rfl, hl⟩ := onLine_iff.1 hl
    simp only [List.forall_mem_cons] at hl
    obtain ⟨hil, htl, hsl, hbl, -⟩ := hl
    exact restored_forLoop hi hil ht htl hs hsl (braced_block hbl ih)

/-- A program of well-formed statements that is printed to tokens on the first line is parsed
without errors, to the very tree it was. -/
theorem parsing_undoes_printing {stmts : List Node} {tokens : List Token}
    (hstmts : ∀ stmt ∈ stmts, stmt.IsStatement)
    (hlines : OnLine 1 ⟨.program, "", 1, stmts⟩)
    (hlexemes : tokens.map Token.lexeme = print ⟨.program, "", 1, stmts⟩)
    (htokens : ∀ token ∈ tokens, token.line = 1) :
    Parse.program tokens = (⟨.program, "", 1, stmts⟩, []) := by
  have hrestored : ∀ stmt ∈ stmts, Restored 1 stmt := fun stmt hm =>
    restored_of_isStatement (hstmts stmt hm) (hlines.child hm)
  have hp : Prints 1 tokens (stmts.flatMap fun stmt => stmt.ended stmt.print) :=
    ⟨hlexemes.trans (print_program stmts), htokens⟩
  obtain ⟨_, hds⟩ := derives_statements hrestored hp
  exact Parse.program_of_derives (.intro hds)

/-- Parentheses stay where the tree needs them. -/
theorem grouped_operands_restored :
    let name (text : String) : Node := .leaf .identifier text 1
    let apply (op : Operator) (left right : Node) : Node :=
      ⟨.arithmetic, op.spelling, 1, [left, right]⟩
    let value := apply .subtract (name "a")
      (apply .multiply (apply .subtract (name "b") (name "c"))
        (apply .divide (name "a") (apply .multiply (name "b") (name "c"))))
    let stmt : Node := ⟨.conditional, "if", 1, [
      ⟨.condition, "", 1, [⟨.comparison, "<", 1, [value, .leaf .intLiteral "1" 1]⟩]⟩,
      ⟨.block, "", 1, [⟨.assignment, "=", 1, [name "a", value]⟩]⟩,
      ⟨.alternative, "else", 1, [⟨.block, "", 1, []⟩]⟩]⟩
    let tokens := (Scan.ofText ("if (a - (b - c) * (a / (b * c)) < 1) \x7b " ++
      "a = a - (b - c) * (a / (b * c)); \x7d else \x7b \x7d")).1
    Parse.program tokens = (⟨.program, "", 1, [stmt]⟩, []) := by
  intro name apply value stmt tokens
  have ha : Spells .identifier "a" := ⟨.inl ⟨'a', rfl, rfl⟩, by decide⟩
  have hb : Spells .identifier "b" := ⟨.inl ⟨'b', rfl, rfl⟩, by decide⟩
  have hc : Spells .identifier "c" := ⟨.inl ⟨'c', rfl, rfl⟩, by decide⟩
  have hvalue : IsExpression value :=
    .arithmetic (.scalar ha) (.arithmetic (.arithmetic (.scalar hb) (.scalar hc))
      (.arithmetic (.scalar ha) (.arithmetic (.scalar hb) (.scalar hc))))
  have hdigit : IsNatural ['1'] := .inr ⟨'1', [], rfl, rfl, by decide, List.forall_mem_nil _⟩
  have hone : IsExpression (.leaf .intLiteral "1" 1) :=
    .int ⟨⟨[], ['1'], rfl, .inl rfl, hdigit⟩, by decide, by decide⟩
  have hassign : IsStatement ⟨.assignment, "=", 1, [name "a", value]⟩ :=
    .assignment (.intro (.intro (.scalar ha)) (.plain hvalue))
  have hstmt : IsStatement stmt :=
    .alternative ⟨_, _, rfl, .comparison (by decide) hvalue hone⟩
      (List.forall_mem_singleton.2 hassign) (List.forall_mem_nil _)
  have hlines : OnLine 1 ⟨.program, "", 1, [stmt]⟩ := by
    simp [stmt, value, apply, name, leaf, onLine_iff]
  refine parsing_undoes_printing (List.forall_mem_singleton.2 hstmt) hlines ?_ ?_
  · decide +kernel
  · decide +kernel

end BlockLang.Grammar
