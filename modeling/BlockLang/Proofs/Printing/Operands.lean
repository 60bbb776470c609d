import BlockLang.Proofs.Grammar
import BlockLang.Proofs.Printing

/-! # Reading back operands

Tokens that an expression is printed to are an operand of the rank that it has without
parentheses. The parentheses around it bring it down to the rank that its place demands.
-/
namespace BlockLang.Grammar
open Lexeme Node

def Prints (line : Nat) (tokens : List Token) (lexemes : List (TokenKind × String)) : Prop :=
  tokens.map Token.lexeme = lexemes ∧ ∀ token ∈ tokens, token.line = line

variable {line : Nat} {ts : List Token} {lexeme : TokenKind × String}
  {lexemes others : List (TokenKind × String)} {e : Node}

theorem prints_nil : Prints line ts [] ↔ ts = [] := by
  rw [Prints, List.map_eq_nil_iff]
  exact ⟨And.left, by rintro rfl; exact ⟨rfl, List.forall_mem_nil _⟩⟩

theorem prints_cons : Prints line ts (lexeme :: lexemes) ↔
    ∃ t us, ts = t :: us ∧ (t.lexeme = lexeme ∧ t.line = line) ∧ Prints line us lexemes := by
  constructor
  · rintro ⟨hmap, hline⟩
    obtain ⟨t, us, rfl, ht, hus⟩ := List.map_eq_cons_iff.1 hmap
    obtain ⟨htl, husl⟩ := List.forall_mem_cons.1 hline
    exact ⟨t, us, rfl, ⟨ht, htl⟩, hus, husl⟩
  · rintro ⟨t, us, rfl, ⟨rfl, htl⟩, rfl, husl⟩
    exact ⟨rfl, List.forall_mem_cons.2 ⟨htl, husl⟩⟩

theorem prints_append : Prints line ts (lexemes ++ others) ↔
    ∃ us vs, ts = us ++ vs ∧ Prints line us lexemes ∧ Prints line vs others := by
  constructor
  · rintro ⟨hmap, hline⟩
    obtain ⟨us, vs, rfl, hus, hvs⟩ := List.map_eq_append_iff.1 hmap
    obtain ⟨husl, hvsl⟩ := List.forall_mem_append.1 hline
    exact ⟨us, vs, rfl, ⟨hus, husl⟩, hvs, hvsl⟩
  · rintro ⟨us, vs, rfl, ⟨rfl, husl⟩, rfl, hvsl⟩
    exact ⟨List.map_append, List.forall_mem_append.2 ⟨husl, hvsl⟩⟩

theorem firstLine_of_prints (h : Prints line ts lexemes) (hne : ts ≠ []) : firstLine ts = line := by
  cases ts with
  | nil => exact absurd rfl hne
  | cons t ts => exact h.2 t List.mem_cons_self

theorem kind_of_lexeme {t : Token} (h : t.lexeme = lexeme) : t.kind = lexeme.1 :=
  congrArg Prod.fst h

theorem text_of_lexeme {t : Token} (h : t.lexeme = lexeme) : t.text = lexeme.2 :=
  congrArg Prod.snd h

/-- How tightly an expression binds as it is printed. -/
def rank (e : Node) : Rank :=
  if e.isSum then .expression else if e.isArithmetic then .term else .factor

/-- Whatever tokens an expression is printed to on the line, they are read as this expression. -/
def ReadsBack (line : Nat) (e : Node) : Prop :=
  ∀ ts, Prints line ts e.print → Operand (rank e) ts e

theorem ReadsBack.expression (h : ReadsBack line e) (hp : Prints line ts e.print) :
    Operand .expression ts e := by
  have ho := h ts hp
  unfold rank at ho
  split at ho
  · exact ho
  · split at ho
    · exact .ofTerm ho
    · exact .ofTerm (.ofFactor ho)

theorem ReadsBack.group (h : ReadsBack line e) (hp : Prints line ts (grouped true e.print)) :
    Operand .factor ts e := by
  simp only [grouped, if_true, prints_append, prints_cons, prints_nil] at hp
  obtain ⟨_, _, rfl, ⟨_, _, rfl, ⟨hopen, -⟩, he⟩, _, _, rfl, ⟨hclose, -⟩, rfl⟩ := hp
  exact .group (kind_of_lexeme hopen) (h.expression he) (kind_of_lexeme hclose)

theorem ReadsBack.term (h : ReadsBack line e) (hp : Prints line ts (grouped e.isSum e.print)) :
    Operand .term ts e := by
  cases hs : e.isSum with
  | true =>
    rw [hs] at hp
    exact .ofFactor (h.group hp)
  | false =>
    rw [hs, grouped, if_neg Bool.false_ne_true] at hp
    have ho := h ts hp
    rw [rank, hs, if_neg Bool.false_ne_true] at ho
    split at ho
    · exact ho
    · exact .ofFactor ho

theorem ReadsBack.factor (h : ReadsBack line e)
    (hp : Prints line ts (grouped e.isArithmetic e.print)) : Operand .factor ts e := by
  cases ha : e.isArithmetic with
  | true =>
    rw [ha] at hp
    exact h.group hp
  | false =>
    rw [ha, grouped, if_neg Bool.false_ne_true] at hp
    have ho := h ts hp
    have hs : e.isSum = false := by
      rw [isSum, ha, Bool.false_and]
    rwa [rank, hs, ha, if_neg Bool.false_ne_true, if_neg Bool.false_ne_true] at ho

theorem name_plain {name : String} (hp : Prints line ts (print ⟨.identifier, name, line, []⟩)) :
    Operand .name ts ⟨.identifier, name, line, []⟩ := by
  simp only [print_identifier, List.flatMap_nil, prints_cons, prints_nil] at hp
  obtain ⟨t, _, rfl, ⟨ht, hl⟩, rfl⟩ := hp
  have ho := Operand.plain (kind_of_lexeme ht)
  rwa [text_of_lexeme ht, hl] at ho

theorem name_subscripted {name : String} {index : Node} (hi : ReadsBack line index)
    (hp : Prints line ts
      (print ⟨.identifier, name, line, [⟨.subscript, "[]", line, [index]⟩]⟩)) :
    Operand .name ts ⟨.identifier, name, line, [⟨.subscript, "[]", line, [index]⟩]⟩ := by
  simp only [print_identifier, print_subscript, List.flatMap_cons, List.flatMap_nil,
    List.append_nil, prints_append, prints_cons, prints_nil] at hp
  obtain ⟨t, _, rfl, ⟨ht, hl⟩, _, _, rfl, ⟨_, _, rfl, ⟨hopen, hol⟩, he⟩, _, _, rfl,
    ⟨hclose, -⟩, rfl⟩ := hp
  have ho := Operand.subscripted (kind_of_lexeme ht) (kind_of_lexeme hopen) (hi.expression he)
    (kind_of_lexeme hclose)
  rwa [text_of_lexeme ht, hl, hol] at ho

theorem factor_int {text : String} (hp : Prints line ts (print (.leaf .intLiteral text line))) :
    Operand .factor ts (.leaf .intLiteral text line) := by
  simp only [print_intLiteral, prints_cons, prints_nil] at hp
  obtain ⟨t, _, rfl, ⟨ht, hl⟩, rfl⟩ := hp
  have ho := Operand.int (kind_of_lexeme ht)
  rwa [text_of_lexeme ht, hl] at ho

theorem factor_real {text : String} (hp : Prints line ts (print (.leaf .realLiteral text line))) :
    Operand .factor ts (.leaf .realLiteral text line) := by
  simp only [print_realLiteral, prints_cons, prints_nil] at hp
  obtain ⟨t, _, rfl, ⟨ht, hl⟩, rfl⟩ := hp
  have ho := Operand.real (kind_of_lexeme ht)
  rwa [text_of_lexeme ht, hl] at ho

theorem factor_bool {text : String} (h : text = "true" ∨ text = "false")
    (hp : Prints line ts (print (.leaf .boolLiteral text line))) :
    Operand .factor ts (.leaf .boolLiteral text line) := by
  simp only [print_boolLiteral, prints_cons, prints_nil] at hp
  obtain ⟨t, _, rfl, ⟨ht, hl⟩, rfl⟩ := hp
  have hk : t.kind = .trueWord ∨ t.kind = .falseWord := by
    rw [kind_of_lexeme ht]
    obtain rfl | rfl := h
    · exact .inl rfl
    · exact .inr rfl
  have ho := Operand.bool hk
  rwa [text_of_lexeme ht, hl] at ho

theorem factor_string {text : String}
    (hp : Prints line ts (print (.leaf .stringLiteral text line))) :
    Operand .factor ts (.leaf .stringLiteral text line) := by
  simp only [print_stringLiteral, prints_cons, prints_nil] at hp
  obtain ⟨_, _, rfl, ⟨hopen, -⟩, t, _, rfl, ⟨ht, hl⟩, _, _, rfl, ⟨hclose, -⟩, rfl⟩ := hp
  have ho := Operand.string (kind_of_lexeme hopen) (kind_of_lexeme ht) (kind_of_lexeme hclose)
  rwa [text_of_lexeme ht, hl] at ho

theorem rank_arithmetic (op : Operator) (nodes : List Node) :
    rank ⟨.arithmetic, op.spelling, line, nodes⟩ =
      if op = .add ∨ op = .subtract then .expression else .term := by
  cases op <;> rfl

theorem operator_arithmetic {op : Operator} {left right : Node} (hleft : ReadsBack line left)
    (hright : ReadsBack line right)
    (hp : Prints line ts (print ⟨.arithmetic, op.spelling, line, [left, right]⟩)) :
    Operand (if op = .add ∨ op = .subtract then .expression else .term) ts
      ⟨.arithmetic, op.spelling, line, [left, right]⟩ := by
  have hsum : (op.spelling = "+" ∨ op.spelling = "-") ↔ (op = .add ∨ op = .subtract) := by
    cases op <;> decide
  rw [print_arithmetic] at hp
  simp only [hsum] at hp
  split at hp
  · rename_i hop
    rw [if_pos hop]
    simp only [prints_append, prints_cons] at hp
    obtain ⟨us, _, rfl, hl, o, vs, rfl, ⟨ho, hol⟩, hr⟩ := hp
    have hk : o.kind = .plus ∨ o.kind = .minus := by
      rw [kind_of_lexeme ho]
      obtain rfl | rfl := hop
      · exact .inl rfl
      · exact .inr rfl
    have hsum := Operand.sum (hleft.expression hl) hk (hright.term hr)
    rwa [text_of_lexeme ho, hol] at hsum
  · rename_i hop
    rw [if_neg hop]
    simp only [prints_append, prints_cons] at hp
    obtain ⟨us, _, rfl, hl, o, vs, rfl, ⟨ho, hol⟩, hr⟩ := hp
    have hk : o.kind = .star ∨ o.kind = .slash := by
      rw [kind_of_lexeme ho]
      cases op with
      | add => exact absurd (.inl rfl) hop
      | subtract => exact absurd (.inr rfl) hop
      | multiply => exact .inl rfl
      | divide => exact .inr rfl
    have hproduct := Operand.product (hleft.term hl) hk (hright.factor hr)
    rwa [text_of_lexeme ho, hol] at hproduct

/-- The expressions of a tree on one line are read back. -/
theorem readsBack_of_isExpression (h : e.IsExpression) (hl : e.OnLine line) :
    ReadsBack line e := by
  induction h with
  | int =>
    obtain rfl := hl.line_eq
    exact fun ts hp => factor_int hp
  | real =>
    obtain rfl := hl.line_eq
    exact fun ts hp => factor_real hp
  | bool ht =>
    obtain rfl := hl.line_eq
    exact fun ts hp => factor_bool ht hp
  | string =>
    obtain rfl := hl.line_eq
    exact fun ts hp => factor_string hp
  | scalar =>
    obtain rfl := hl.line_eq
    exact fun ts hp => .ofName (name_plain hp)
  | cell _ _ ih =>
    obtain rfl := hl.line_eq
    have hsub := hl.child List.mem_cons_self
    obtain rfl := hsub.line_eq
    exact fun ts hp => .ofName (name_subscripted (ih (hsub.child List.mem_cons_self)) hp)
  | @arithmetic op _ left right _ _ ihl ihr =>
    obtain rfl := hl.line_eq
    have hleft := ihl (hl.child List.mem_cons_self)
    have hright := ihr (hl.child (List.mem_cons_of_mem _ List.mem_cons_self))
    intro ts hp
    rw [rank_arithmetic]
    exact operator_arithmetic hleft hright hp

end BlockLang.Grammar
