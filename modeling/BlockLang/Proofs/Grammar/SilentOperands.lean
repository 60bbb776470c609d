import BlockLang.Proofs.Grammar
import BlockLang.Proofs.Grammar.Reading
import BlockLang.Tree.Parse

/-! # Conditions that are parsed in silence

If a condition is parsed and no error is recorded, then the grammar derives the
tokens that have been read with the tree that has been built.
-/
namespace BlockLang.Parse

open Grammar Parsed

theorem spans_stringContents {opening : Token} (tokens : List Token) (hk : opening.kind = .quote) :
    (stringContents ⟨some opening, tokens⟩).Spans fun ts n _ =>
      Operand .factor (opening :: ts) n := by
  cases tokens with
  | nil => exact spans_fail _
  | cons content tokens =>
    rw [stringContents]
    split
    · rename_i hc
      refine (Spans.node ?_).behind
      refine Spans.delimit (P := fun ts ns _ => ts = [] ∧ ns = []) (spans_give ⟨rfl, rfl⟩) ?_
      rintro _ closing _ _ hq ⟨rfl, rfl⟩
      exact .string hk hc hq
    · exact spans_fail _

mutual

theorem spans_factor (c : Cursor) : (factor c).Spans fun ts n _ => Operand .factor ts n := by
  obtain ⟨last, rest⟩ := c
  cases rest with
  | nil =>
    rw [factor]
    exact spans_fail _
  | cons token tokens =>
    rw [factor]
    dsimp only
    split
    · rename_i hk
      exact (spans_give (.int hk)).behind
    · rename_i hk
      exact (spans_give (.real hk)).behind
    · rename_i hk
      exact (spans_give (.bool (.inl hk))).behind
    · rename_i hk
      exact (spans_give (.bool (.inr hk))).behind
    · rename_i hk
      exact ((spans_identifier token tokens hk).mono fun _ _ _ h => .ofName h).behind
    · rename_i hk
      refine Spans.behind ?_
      have hi := spans_expression ⟨some token, tokens⟩
      obtain ⟨closing, rest, hr, hc, ha, -⟩ | ⟨-, ha⟩ :=
        accept?_cases .rightParen (expression ⟨some token, tokens⟩)
      · rw [ha]
        refine (hi.skip hr).mono ?_
        rintro _ n _ ⟨us, rfl, hn⟩
        exact .group hk hn hc
      · rw [ha]
        exact spans_andThen_fail _ _
    · rename_i hk
      exact (spans_stringContents tokens hk).behind
    · exact spans_fail _
    · exact spans_of_errors (List.cons_ne_nil _ _)
termination_by 4 * c.rest.length
decreasing_by all_goals simp only [List.length_cons]; omega

theorem spans_identifier (name : Token) (tokens : List Token) (hk : name.kind = .identifier) :
    (identifier name tokens).Spans fun ts n _ => Operand .name (name :: ts) n := by
  cases tokens with
  | nil =>
    rw [identifier]
    exact spans_give (.plain hk)
  | cons bracket tokens =>
    rw [identifier]
    split
    · rename_i ho
      refine (Spans.map ?_).behind
      refine (spans_subscript bracket tokens).mono ?_
      rintro _ n _ ⟨ts, closing, index, rfl, hc, rfl, hi⟩
      exact .subscripted hk ho hi hc
    · exact spans_give (.plain hk)
termination_by 4 * tokens.length + 1
decreasing_by simp only [List.length_cons]; omega

theorem spans_subscript (bracket : Token) (tokens : List Token) :
    (subscript bracket tokens).Spans fun us n _ => ∃ ts closing index, us = ts ++ [closing] ∧
      closing.kind = .rightBracket ∧ n = ⟨.subscript, "[]", bracket.line, [index]⟩ ∧
      Operand .expression ts index := by
  rw [subscript]
  have hi := spans_expression ⟨some bracket, tokens⟩
  refine Spans.require (P := fun ts ns _ => ∃ index, ns = [index] ∧ Operand .expression ts index)
    (Spans.map (hi.mono fun ts n _ hn => ⟨n, rfl, hn⟩)) fun later hl => ?_
  refine Spans.node (hl.mono ?_)
  rintro _ ns _ ⟨ts, closing, rfl, hc, index, rfl, hn⟩
  exact ⟨ts, closing, index, rfl, hc, rfl, hn⟩
termination_by 4 * tokens.length + 4
decreasing_by omega

theorem spans_term (c : Cursor) : (term c).Spans fun ts n _ => Operand .term ts n := by
  rw [term]
  exact (spans_factor c).andThen fun ts h => spans_termFrom ts (factor c).value (.ofFactor h) _
termination_by 4 * c.rest.length + 2
decreasing_by
  · omega
  · exact measure_lt _ 4 (by omega)

theorem spans_termFrom (ts : List Token) (left : Node) (h : Operand .term ts left) (c : Cursor) :
    (termFrom left c).Spans fun us n _ => Operand .term (ts ++ us) n := by
  obtain ⟨last, rest⟩ := c
  cases rest with
  | nil =>
    rw [termFrom]
    exact spans_give (by simpa using h)
  | cons op tokens =>
    rw [termFrom]
    split
    · rename_i hop
      refine Spans.behind ?_
      refine (spans_factor ⟨some op, tokens⟩).andThen fun us hr => ?_
      have hp := Operand.product h hop hr
      refine (spans_termFrom _ _ hp _).mono fun vs n _ hn => ?_
      simpa using hn
    · exact spans_give (by simpa using h)
termination_by 4 * c.rest.length + 1
decreasing_by
  · simp only [List.length_cons]
    omega
  · exact measure_lt _ 4 (by simp only [List.length_cons]; omega)

theorem spans_expression (c : Cursor) :
    (expression c).Spans fun ts n _ => Operand .expression ts n := by
  rw [expression]
  exact (spans_term c).andThen fun ts h =>
    spans_expressionFrom ts (term c).value (.ofTerm h) _
termination_by 4 * c.rest.length + 3
decreasing_by
  · omega
  · exact measure_lt _ 4 (by omega)

theorem spans_expressionFrom (ts : List Token) (left : Node) (h : Operand .expression ts left)
    (c : Cursor) :
    (expressionFrom left c).Spans fun us n _ => Operand .expression (ts ++ us) n := by
  obtain ⟨last, rest⟩ := c
  cases rest with
  | nil =>
    rw [expressionFrom]
    exact spans_give (by simpa using h)
  | cons op tokens =>
    rw [expressionFrom]
    split
    · rename_i hop
      refine Spans.behind ?_
      refine (spans_term ⟨some op, tokens⟩).andThen fun us hr => ?_
      have hs := Operand.sum h hop hr
      refine (spans_expressionFrom _ _ hs _).mono fun vs n _ hn => ?_
      simpa using hn
    · exact spans_give (by simpa using h)
termination_by 4 * c.rest.length + 2
decreasing_by
  · simp only [List.length_cons]
    omega
  · exact measure_lt _ 4 (by simp only [List.length_cons]; omega)

end

theorem spans_condition (c : Cursor) : (condition c).Spans fun ts n _ => Condition ts n := by
  refine (spans_expression c).andThen fun ts hl => ?_
  generalize (expression c).next = between
  obtain ⟨last, rest⟩ := between
  cases rest with
  | nil =>
    rw [comparisonFrom]
    exact spans_give (by simpa using Condition.plain hl)
  | cons op tokens =>
    rw [comparisonFrom]
    split
    · rename_i hop
      exact (Spans.map ((spans_expression _).mono fun us n _ hr => .comparison hl hop hr)).behind
    · exact spans_give (by simpa using Condition.plain hl)

theorem spans_within {kind : NodeKind} {text : String} {parse : (c : Cursor) → Parsed Node c}
    {c : Cursor} {P : List Token → Node → Prop} (hp : (parse c).Spans fun ts n _ => P ts n)
    (hne : ∀ ts n, P ts n → ts ≠ []) : (within kind text parse c).Spans fun ts n _ =>
      ∃ inner, P ts inner ∧ n = ⟨kind, text, firstLine ts, [inner]⟩ := by
  intro he
  obtain ⟨ts, hc, h⟩ := hp he
  obtain ⟨first, others, rfl⟩ := List.exists_cons_of_ne_nil (hne _ _ h)
  refine ⟨_, hc, _, h, ?_⟩
  simp [within, Parsed.map, firstLine, Cursor.line, hc]

end BlockLang.Parse
