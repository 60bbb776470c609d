import BlockLang.Proofs.Grammar.SilentStatements
import BlockLang.Proofs.Lexeme.Validity
import BlockLang.Proofs.Shape
import BlockLang.Proofs.Tree.ErrorLeaves

/-! # Derived trees have their shapes

The grammar says which children a node has, and the scanner which text a token has.
Hence each statement of a scanned and parsed text that has no error leaf has the
shape of a statement.
-/
namespace BlockLang.Grammar
open Lexeme Node

def Spelled (tokens : List Token) : Prop :=
  ∀ token ∈ tokens, Spells token.kind token.text

@[simp] theorem spelled_cons {token : Token} {tokens : List Token} :
    Spelled (token :: tokens) ↔ Spells token.kind token.text ∧ Spelled tokens :=
  List.forall_mem_cons

@[simp] theorem spelled_append {ts us : List Token} :
    Spelled (ts ++ us) ↔ Spelled ts ∧ Spelled us :=
  List.forall_mem_append

/-- The text of a token whose kind has one spelling. -/
theorem text_eq {token : Token} {text : String} (h : Spells token.kind token.text)
    (hk : token.kind.spelling? = some text) : token.text = text := by
  have hs : token.kind.spelling? = some token.text := by
    revert h hk
    cases token.kind <;> first | exact fun h _ => h | exact fun _ hk => nomatch hk
  exact Option.some.inj (hs.symm.trans hk)

theorem Operand.isExpression {rank : Rank} {ts : List Token} {n : Node} (h : Operand rank ts n)
    (hs : Spelled ts) : n.IsExpression := by
  induction h with
  | plain hk =>
    rw [spelled_cons, hk] at hs
    exact .scalar hs.1
  | subscripted hk _ _ _ ih =>
    simp only [List.cons_append, spelled_cons, spelled_append, hk] at hs
    exact .cell hs.1 (ih hs.2.2.1)
  | ofName _ ih => exact ih hs
  | int hk =>
    rw [spelled_cons, hk] at hs
    exact .int hs.1
  | real hk =>
    rw [spelled_cons, hk] at hs
    exact .real hs.1
  | bool hk =>
    rw [spelled_cons] at hs
    refine .bool ?_
    obtain hk | hk := hk
    · exact .inl (text_eq hs.1 (by rw [hk]; rfl))
    · exact .inr (text_eq hs.1 (by rw [hk]; rfl))
  | string _ hk _ =>
    simp only [spelled_cons, hk] at hs
    exact .string hs.2.1
  | group _ _ _ ih =>
    simp only [List.cons_append, spelled_cons, spelled_append] at hs
    exact ih hs.2.1
  | ofFactor _ ih => exact ih hs
  | product _ hop _ ihl ihr =>
    rw [spelled_append, spelled_cons] at hs
    have hl := ihl hs.1
    have hr := ihr hs.2.2
    obtain hk | hk := hop
    · rw [text_eq hs.2.1 (by rw [hk]; rfl : _ = some Operator.multiply.spelling)]
      exact .arithmetic hl hr
    · rw [text_eq hs.2.1 (by rw [hk]; rfl : _ = some Operator.divide.spelling)]
      exact .arithmetic hl hr
  | ofTerm _ ih => exact ih hs
  | sum _ hop _ ihl ihr =>
    rw [spelled_append, spelled_cons] at hs
    have hl := ihl hs.1
    have hr := ihr hs.2.2
    obtain hk | hk := hop
    · rw [text_eq hs.2.1 (by rw [hk]; rfl : _ = some Operator.add.spelling)]
      exact .arithmetic hl hr
    · rw [text_eq hs.2.1 (by rw [hk]; rfl : _ = some Operator.subtract.spelling)]
      exact .arithmetic hl hr

theorem comparison_spelling {kind : TokenKind} (h : kind.isComparison) :
    ∃ text ∈ ["==", "<>", "<", ">"], kind.spelling? = some text := by
  revert h
  cases kind <;> decide

theorem typeWord_spelling {kind : TokenKind} (h : kind.isTypeWord) :
    ∃ of : Kind, kind.spelling? = some of.name := by
  cases kind with
  | intWord => exact ⟨.int, rfl⟩
  | realWord => exact ⟨.real, rfl⟩
  | boolWord => exact ⟨.bool, rfl⟩
  | stringWord => exact ⟨.text, rfl⟩
  | _ => cases h

theorem Condition.isCondition {ts : List Token} {n : Node} (h : Condition ts n)
    (hs : Spelled ts) : n.IsCondition := by
  cases h with
  | plain he => exact .plain (he.isExpression hs)
  | comparison hl hop hr =>
    rw [spelled_append, spelled_cons] at hs
    obtain ⟨text, hm, ht⟩ := comparison_spelling hop
    rw [text_eq hs.2.1 ht]
    exact .comparison hm (hl.isExpression hs.1) (hr.isExpression hs.2.2)

theorem Operand.isTarget {ts : List Token} {n : Node} (h : Operand .name ts n)
    (hs : Spelled ts) : n.IsTarget := by
  have he := h.isExpression hs
  cases h with
  | plain => exact .intro he
  | subscripted => exact .intro he

/-- A name is an identifier and perhaps a subscript. -/
theorem Operand.exists_suffix {ts : List Token} {name : String} {line : Nat}
    {suffix : List Node} (h : Operand .name ts ⟨.identifier, name, line, suffix⟩)
    (hs : Spelled ts) : Spells .identifier name ∧ ∃ subscript : Option Node,
      suffix = subscript.toList ∧ ∀ n ∈ subscript, Wraps .subscript "[]" IsExpression n := by
  cases h with
  | plain hk =>
    rw [spelled_cons, hk] at hs
    exact ⟨hs.1, none, rfl, nofun⟩
  | subscripted hk _ hi _ =>
    simp only [List.cons_append, spelled_cons, spelled_append, hk] at hs
    refine ⟨hs.1, some _, rfl, ?_⟩
    rintro _ ⟨⟩
    exact ⟨_, _, rfl, hi.isExpression hs.2.2.1⟩

theorem Declarator.isDeclarator {ts : List Token} {n : Node} (h : Declarator ts n)
    (hs : Spelled ts) : n.IsDeclarator := by
  cases h with
  | plain hn =>
    obtain ⟨hname, subscript, rfl, hsub⟩ := hn.exists_suffix hs
    simpa using IsDeclarator.intro subscript none hname hsub nofun
  | initialized hn _ hc =>
    rw [spelled_append, spelled_cons] at hs
    obtain ⟨hname, subscript, rfl, hsub⟩ := hn.exists_suffix hs.1
    refine .intro subscript (some _) hname hsub ?_
    rintro _ ⟨⟩
    exact ⟨_, _, rfl, hc.isCondition hs.2.2⟩

theorem Declarators.isDeclarator {ts : List Token} {ns : List Node} (h : Declarators ts ns)
    (hs : Spelled ts) : ns ≠ [] ∧ ∀ n ∈ ns, n.IsDeclarator := by
  induction h with
  | one hd => exact ⟨by simp, by simpa using hd.isDeclarator hs⟩
  | more hd _ _ ih =>
    rw [spelled_append, spelled_cons] at hs
    exact ⟨by simp, List.forall_mem_cons.2 ⟨hd.isDeclarator hs.1, (ih hs.2.2).2⟩⟩

theorem Assignment.isAssignment {ts : List Token} {n : Node} (h : Assignment ts n)
    (hs : Spelled ts) : n.IsAssignment := by
  obtain ⟨ht, _, hc⟩ := h
  rw [spelled_append, spelled_cons] at hs
  exact .intro (ht.isTarget hs.1) (hc.isCondition hs.2.2)

def Part.Shapes : Part → Node → Prop
  | .block => IsBlock
  | .statement | .statements => IsStatement

theorem Derives.shapes {nearest isOpen : Bool} {part : Part} {ts : List Token} {ns : List Node}
    (h : Derives nearest part isOpen ts ns) (hs : Spelled ts) : ∀ n ∈ ns, part.Shapes n := by
  induction h with
  | declaration hw hds _ =>
    simp only [List.cons_append, spelled_cons, spelled_append] at hs
    obtain ⟨kind, hk⟩ := typeWord_spelling hw
    obtain ⟨hne, hitems⟩ := hds.isDeclarator hs.2.1
    rw [List.forall_mem_singleton, text_eq hs.1 hk]
    exact .declaration hne hitems
  | assignment ha _ =>
    rw [spelled_append] at hs
    rw [List.forall_mem_singleton]
    exact .assignment (ha.isAssignment hs.1)
  | read hw _ hn _ _ =>
    simp only [List.cons_append, spelled_cons, spelled_append] at hs
    rw [List.forall_mem_singleton, text_eq hs.1 (by rw [hw]; rfl : _ = some "read")]
    exact .read (hn.isTarget hs.2.2.1)
  | write hw _ hv _ _ =>
    simp only [List.cons_append, spelled_cons, spelled_append] at hs
    rw [List.forall_mem_singleton, text_eq hs.1 (by rw [hw]; rfl : _ = some "write")]
    exact .write (hv.isExpression hs.2.2.1)
  | conditional hw _ ht _ _ ih =>
    simp only [List.cons_append, spelled_cons, spelled_append] at hs
    obtain ⟨hw', -, ht', -, hb'⟩ := hs
    obtain ⟨hb⟩ : IsBlock _ := ih hb' _ (List.mem_singleton_self _)
    rw [List.forall_mem_singleton, text_eq hw' (by rw [hw]; rfl : _ = some "if")]
    exact .conditional ⟨_, _, rfl, ht.isCondition ht'⟩ hb
  | alternative hw _ ht _ _ _ hother _ ihb ihe =>
    simp only [List.cons_append, spelled_cons, spelled_append] at hs
    obtain ⟨hw', -, ⟨ht', -, hb'⟩, hother', he'⟩ := hs
    obtain ⟨hb⟩ : IsBlock _ := ihb hb' _ (List.mem_singleton_self _)
    obtain ⟨he⟩ : IsBlock _ := ihe he' _ (List.mem_singleton_self _)
    rw [List.forall_mem_singleton, text_eq hw' (by rw [hw]; rfl : _ = some "if"),
      text_eq hother' (by rw [hother]; rfl : _ = some "else")]
    exact .alternative ⟨_, _, rfl, ht.isCondition ht'⟩ hb he
  | whileLoop hw _ ht _ _ ih =>
    simp only [List.cons_append, spelled_cons, spelled_append] at hs
    obtain ⟨hw', -, ht', -, hb'⟩ := hs
    obtain ⟨hb⟩ : IsBlock _ := ih hb' _ (List.mem_singleton_self _)
    rw [List.forall_mem_singleton, text_eq hw' (by rw [hw]; rfl : _ = some "while")]
    exact .whileLoop ⟨_, _, rfl, ht.isCondition ht'⟩ hb
  | forLoop hw _ hi _ ht _ hstep _ _ ih =>
    simp only [List.cons_append, spelled_cons, spelled_append] at hs
    obtain ⟨hw', -, ⟨⟨hi', -, ht'⟩, -, hstep'⟩, -, hb'⟩ := hs
    obtain ⟨hb⟩ : IsBlock _ := ih hb' _ (List.mem_singleton_self _)
    rw [List.forall_mem_singleton, text_eq hw' (by rw [hw]; rfl : _ = some "for")]
    exact .forLoop ⟨_, _, rfl, hi.isAssignment hi'⟩ ⟨_, _, rfl, ht.isCondition ht'⟩
      ⟨_, _, rfl, hstep.isAssignment hstep'⟩ hb
  | braces _ _ _ ih =>
    simp only [List.cons_append, spelled_cons, spelled_append] at hs
    rw [List.forall_mem_singleton]
    exact .intro (ih hs.2.1)
  | bare _ ih =>
    rw [List.forall_mem_singleton]
    exact .intro (ih hs)
  | nil => exact List.forall_mem_nil _
  | cons _ _ ih ihs =>
    rw [spelled_append] at hs
    exact List.forall_mem_cons.2 ⟨ih hs.1 _ (List.mem_singleton_self _), ihs hs.2⟩

end BlockLang.Grammar

namespace BlockLang.Parse
open Grammar Node

/-- A statement without error leaves is parsed without errors. -/
theorem errors_eq_nil_of_statement {last : Option Token} {token : Token} {tokens : List Token}
    (h : (statement last token tokens).value.hasError = false) :
    (statement last token tokens).errors = [] := by
  have hs := inStep_statement last token tokens
  refine Classical.byContradiction fun hne => ?_
  have hl : (statement last token tokens).value.errorLeaves ≠ [] := by
    simpa [errorLeavesOf] using hs.leaves_ne_nil hne
  rw [← hasError_iff, h] at hl
  cases hl

theorem shapes_statements : (c : Cursor) → Spelled c.rest →
    ∀ stmt ∈ (statements c).value, stmt.hasError = false → stmt.IsStatement
  | ⟨last, []⟩, _ => by
    rw [statements]
    exact List.forall_mem_nil _
  | ⟨last, token :: tokens⟩, hs => by
    rw [statements]
    obtain ⟨read, hr, -⟩ := (statement last token tokens).reaches
    rw [spelled_cons] at hs
    have hrest : Spelled (statement last token tokens).next.rest := by
      rw [show tokens = _ from hr] at hs
      exact (spelled_append.1 hs.2).2
    refine List.forall_mem_cons.2 ⟨fun h => ?_, shapes_statements _ hrest⟩
    obtain ⟨ts, hts, isOpen, hd, -⟩ :=
      spans_statement last token tokens (errors_eq_nil_of_statement h)
    have hspelled : Spelled (token :: ts) := by
      rw [show tokens = _ from hts] at hs
      exact spelled_cons.2 ⟨hs.1, (spelled_append.1 hs.2).1⟩
    exact hd.shapes hspelled _ (List.mem_singleton_self _)
termination_by c => c.rest.length
decreasing_by exact Nat.lt_succ_of_le (statement last token tokens).length_le

def ofText (text : String) : Node :=
  (program (Scan.ofText text).1).1

/-- Whatever errors a text has, its statements without error leaves have the shape of one. -/
theorem shapes_ofText (text : String) :
    ∀ stmt ∈ (ofText text).children, stmt.hasError = false → stmt.IsStatement :=
  shapes_statements ⟨none, (Scan.ofText text).1⟩ (Scan.spells_ofText text)

end BlockLang.Parse
