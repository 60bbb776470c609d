import BlockLang.Proofs.Grammar
import BlockLang.Proofs.Grammar.Reading
import BlockLang.Tree.Parse

/-! # Derived conditions are read

Where the grammar derives an operand or a condition, parsing reads its tree
without an error and leaves what stands behind it, unless a token behind it would
continue it.
-/
namespace BlockLang.Parse

open Grammar Parsed

def continuing : Rank → List TokenKind
  | .name | .factor | .term => [.leftBracket]
  | .expression => [.leftBracket, .star, .slash]

def afterExpression : List TokenKind :=
  [.leftBracket, .star, .slash, .plus, .minus]

def afterCondition : List TokenKind :=
  [.leftBracket, .star, .slash, .plus, .minus, .equal, .notEqual, .less, .greater]

theorem reads_termFrom_end {n : Node} {last : Option Token} {rest : List Token}
    (h : NotNext [.star, .slash] rest) : (termFrom n ⟨last, rest⟩).Reads n rest := by
  cases rest with
  | nil =>
    rw [termFrom]
    exact reads_give _
  | cons op tokens =>
    rw [notNext_cons] at h
    rw [termFrom, if_neg (by simpa using h)]
    exact reads_give _

theorem reads_termFrom_cons {left value : Node} {last : Option Token} {op : Token}
    {tokens between rest : List Token} {right : Node} (hop : op.kind = .star ∨ op.kind = .slash)
    (hr : (factor ⟨some op, tokens⟩).Reads right between)
    (hn : ∀ last, (termFrom ⟨.arithmetic, op.text, op.line, [left, right]⟩
      ⟨last, between⟩).Reads value rest) :
    (termFrom left ⟨last, op :: tokens⟩).Reads value rest := by
  rw [termFrom, if_pos hop]
  exact (hr.followed (fun n => termFrom ⟨.arithmetic, op.text, op.line, [left, n]⟩) hn).behind

theorem reads_expressionFrom_end {n : Node} {last : Option Token} {rest : List Token}
    (h : NotNext [.plus, .minus] rest) : (expressionFrom n ⟨last, rest⟩).Reads n rest := by
  cases rest with
  | nil =>
    rw [expressionFrom]
    exact reads_give _
  | cons op tokens =>
    rw [notNext_cons] at h
    rw [expressionFrom, if_neg (by simpa using h)]
    exact reads_give _

theorem reads_expressionFrom_cons {left value : Node} {last : Option Token} {op : Token}
    {tokens between rest : List Token} {right : Node} (hop : op.kind = .plus ∨ op.kind = .minus)
    (hr : (term ⟨some op, tokens⟩).Reads right between)
    (hn : ∀ last, (expressionFrom ⟨.arithmetic, op.text, op.line, [left, right]⟩
      ⟨last, between⟩).Reads value rest) :
    (expressionFrom left ⟨last, op :: tokens⟩).Reads value rest := by
  rw [expressionFrom, if_pos hop]
  exact (hr.followed (fun n => expressionFrom ⟨.arithmetic, op.text, op.line, [left, n]⟩)
    hn).behind

/-- How an operand of each rank is read in front of `rest`. A chain of operators is read as its
left part and then what `termFrom` or `expressionFrom` makes of it. -/
def ReadsOperand : Rank → List Token → Node → List Token → Prop
  | .name, ts, n, rest => ∃ name tokens, ts = name :: tokens ∧ name.kind = .identifier ∧
      (identifier name (tokens ++ rest)).Reads n rest
  | .factor, ts, n, rest => ∀ last, (factor ⟨last, ts ++ rest⟩).Reads n rest
  | .term, ts, n, rest => ∀ value later,
      (∀ last, (termFrom n ⟨last, rest⟩).Reads value later) →
        ∀ last, (term ⟨last, ts ++ rest⟩).Reads value later
  | .expression, ts, n, rest => ∀ value later,
      (∀ last, (expressionFrom n ⟨last, rest⟩).Reads value later) →
        ∀ last, (expression ⟨last, ts ++ rest⟩).Reads value later

theorem ReadsOperand.expression {ts : List Token} {n : Node} {rest : List Token}
    (h : ReadsOperand .expression ts n rest) (hr : NotNext afterExpression rest)
    (last : Option Token) : (expression ⟨last, ts ++ rest⟩).Reads n rest :=
  h n rest (fun _ => reads_expressionFrom_end (hr.mono (by simp [afterExpression]))) last

theorem readsOperand {rank : Rank} {ts : List Token} {n : Node} (h : Operand rank ts n)
    (rest : List Token) (hr : NotNext (continuing rank) rest) :
    ReadsOperand rank ts n rest := by
  induction h generalizing rest with
  | @plain name hk =>
    refine ⟨name, [], rfl, hk, ?_⟩
    cases rest with
    | nil =>
      rw [List.append_nil, identifier]
      exact reads_give _
    | cons token tokens =>
      rw [List.nil_append, identifier, if_neg (by simpa [continuing] using hr)]
      exact reads_give _
  | @subscripted name opening closing ts index hk ho _ hc ih =>
    refine ⟨name, _, rfl, hk, ?_⟩
    change (identifier name ((opening :: ts ++ [closing]) ++ rest)).Reads _ rest
    rw [enclosed_append, identifier, if_pos ho]
    refine Reads.behind (Reads.map _ ?_)
    have hi := (ih (closing :: rest) (by simp [continuing, hc])).expression
      (by simp [afterExpression, hc]) (some opening)
    rw [subscript]
    exact (hi.map _).require hc _ fun later hl => hl.node _ _ _
  | ofName _ ih =>
    obtain ⟨name, tokens, rfl, hk, hi⟩ := ih rest hr
    intro last
    rw [List.cons_append, factor]
    simp only [hk]
    exact hi.behind
  | int hk =>
    intro last
    rw [List.cons_append, factor]
    simp only [hk]
    exact (reads_give _).behind
  | real hk =>
    intro last
    rw [List.cons_append, factor]
    simp only [hk]
    exact (reads_give _).behind
  | bool hk =>
    intro last
    rw [List.cons_append, factor]
    obtain hk | hk := hk <;>
    · simp only [hk]
      exact (reads_give _).behind
  | @string opening content closing ho hc hq =>
    intro last
    rw [List.cons_append, factor]
    simp only [ho]
    refine Reads.behind ?_
    rw [List.cons_append, stringContents, if_pos hc]
    exact (((reads_give []).delimit hq _).node _ _ _).behind
  | @group opening closing ts n ho _ hc ih =>
    intro last
    rw [enclosed_append, factor]
    simp only [ho]
    have hi := (ih (closing :: rest) (by simp [continuing, hc])).expression
      (by simp [afterExpression, hc]) (some opening)
    refine Reads.behind ?_
    rw [accept?_eq_some hi.rest_eq hc]
    exact hi.skip
  | ofFactor _ ih =>
    intro value later hl last
    rw [term]
    exact (ih rest hr last).followed termFrom hl
  | @product ts us op left right _ hop _ ihl ihr =>
    intro value later hl last
    rw [List.append_assoc]
    refine ihl _ (by obtain h | h := hop <;> simp [continuing, h]) value later (fun _ => ?_) last
    exact reads_termFrom_cons hop (ihr rest hr _) hl
  | ofTerm _ ih =>
    intro value later hl last
    have ht := ih rest (hr.mono (by simp [continuing])) _ _
      (fun _ => reads_termFrom_end (hr.mono (by simp [continuing]))) last
    rw [Parse.expression]
    exact ht.followed expressionFrom hl
  | @sum ts us op left right _ hop _ ihl ihr =>
    intro value later hl last
    rw [List.append_assoc]
    refine ihl _ (by obtain h | h := hop <;> simp [continuing, h]) value later (fun _ => ?_) last
    have ht := ihr rest (hr.mono (by simp [continuing])) _ _
      (fun _ => reads_termFrom_end (hr.mono (by simp [continuing]))) (some op)
    exact reads_expressionFrom_cons hop ht hl

theorem reads_expression {ts : List Token} {n : Node} (h : Operand .expression ts n)
    {rest : List Token} (hr : NotNext afterExpression rest) (last : Option Token) :
    (expression ⟨last, ts ++ rest⟩).Reads n rest :=
  (readsOperand h rest (hr.mono (by simp [continuing, afterExpression]))).expression hr last

theorem not_mem_afterExpression {kind : TokenKind} (h : kind.isComparison) :
    kind ∉ afterExpression := by
  cases kind <;> simp_all [afterExpression, TokenKind.isComparison]

theorem reads_condition {ts : List Token} {n : Node} (h : Condition ts n) {rest : List Token}
    (hr : NotNext afterCondition rest) (last : Option Token) :
    (condition ⟨last, ts ++ rest⟩).Reads n rest := by
  have hsub : afterExpression ⊆ afterCondition := by simp [afterExpression, afterCondition]
  cases h with
  | plain he =>
    refine (reads_expression he (hr.mono hsub) last).followed comparisonFrom fun between => ?_
    cases rest with
    | nil => exact reads_give _
    | cons token tokens =>
      have hk : ¬ token.kind.isComparison := by
        rw [notNext_cons] at hr
        cases hk : token.kind <;> simp_all [afterCondition, TokenKind.isComparison]
      rw [comparisonFrom, if_neg hk]
      exact reads_give _
  | @comparison ts us op left right hl hop he =>
    rw [List.append_assoc, List.cons_append]
    have hop' : NotNext afterExpression (op :: (us ++ rest)) := by
      simpa using not_mem_afterExpression hop
    refine (reads_expression hl hop' last).followed comparisonFrom fun between => ?_
    rw [comparisonFrom, if_pos hop]
    exact ((reads_expression he (hr.mono hsub) _).map _).behind

theorem reads_within {kind : NodeKind} {text : String} {ts rest : List Token} {n : Node}
    {parse : (c : Cursor) → Parsed Node c} {last : Option Token} (hts : ts ≠ [])
    (h : (parse ⟨last, ts ++ rest⟩).Reads n rest) :
    (within kind text parse ⟨last, ts ++ rest⟩).Reads ⟨kind, text, firstLine ts, [n]⟩ rest := by
  obtain ⟨first, others, rfl⟩ := List.exists_cons_of_ne_nil hts
  exact h.map _

end BlockLang.Parse
