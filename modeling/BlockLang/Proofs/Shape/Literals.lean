import BlockLang.Proofs.Shape.Evaluation
import BlockLang.Proofs.Tree.Occurrence

/-! # Operands of shaped statements

Wherever a literal or a name stands in a statement of the right shape, it is an expression, and
a literal has a value.
-/
namespace BlockLang.Node

def literalKinds : List NodeKind :=
  [.intLiteral, .realLiteral, .boolLiteral, .stringLiteral]

def operandKinds : List NodeKind :=
  .identifier :: literalKinds

variable {n : Node}

/-- An operand in a tree of another kind stands in one of its children. -/
theorem OccursIn.among {kind : NodeKind} {text : String} {line : Nat} {children : List Node}
    (h : n.OccursIn ⟨kind, text, line, children⟩) (hn : n.kind ∈ operandKinds)
    (hk : kind ∉ operandKinds) : n.OccursAmong children := by
  cases h with
  | here => exact absurd hn hk
  | inside hm ho => exact ⟨_, hm, ho⟩

/-- An operand in a node with one child stands in that child. -/
theorem OccursIn.only {kind : NodeKind} {text : String} {line : Nat} {inner : Node}
    (h : n.OccursIn ⟨kind, text, line, [inner]⟩) (hn : n.kind ∈ operandKinds)
    (hk : kind ∉ operandKinds) : n.OccursIn inner := by
  simpa using h.among hn hk

theorem IsExpression.operand {e : Node} (h : e.IsExpression) (hn : n.kind ∈ operandKinds)
    (ho : n.OccursIn e) : n.IsExpression := by
  induction h with
  | int ht | real ht | bool ht | string ht | scalar ht =>
    cases ho with
    | here => constructor; exact ht
    | inside hm => cases hm
  | cell ht hi ih =>
    cases ho with
    | here => exact .cell ht hi
    | inside hm ho =>
      rw [List.mem_singleton] at hm
      subst hm
      exact ih (ho.only hn (by decide))
  | arithmetic _ _ ihl ihr =>
    have hc := ho.among hn (by decide)
    simp only [occursAmong_cons, occursAmong_nil, or_false] at hc
    obtain hc | hc := hc
    · exact ihl hc
    · exact ihr hc

theorem IsCondition.operand {e : Node} (h : e.IsCondition) (hn : n.kind ∈ operandKinds)
    (ho : n.OccursIn e) : n.IsExpression := by
  cases h with
  | plain he => exact he.operand hn ho
  | comparison _ hl hr =>
    have hc := ho.among hn (by decide)
    simp only [occursAmong_cons, occursAmong_nil, or_false] at hc
    obtain hc | hc := hc
    · exact hl.operand hn hc
    · exact hr.operand hn hc

theorem Wraps.operand {kind : NodeKind} {text : String} {P : Node → Prop} {e : Node}
    (h : Wraps kind text P e) (hk : kind ∉ operandKinds)
    (hp : ∀ inner, P inner → n.OccursIn inner → n.IsExpression) (hn : n.kind ∈ operandKinds)
    (ho : n.OccursIn e) : n.IsExpression := by
  obtain ⟨_, inner, rfl, hi⟩ := h
  exact hp inner hi (ho.only hn hk)

theorem IsTarget.operand {e : Node} (h : e.IsTarget) (hn : n.kind ∈ operandKinds)
    (ho : n.OccursIn e) : n.IsExpression := by
  obtain ⟨h⟩ := h
  exact h.operand hn ho

theorem IsAssignment.operand {e : Node} (h : e.IsAssignment) (hn : n.kind ∈ operandKinds)
    (ho : n.OccursIn e) : n.IsExpression := by
  obtain ⟨ht, hs⟩ := h
  have hc := ho.among hn (by decide)
  simp only [occursAmong_cons, occursAmong_nil, or_false] at hc
  obtain hc | hc := hc
  · exact ht.operand hn hc
  · exact hs.operand hn hc

theorem IsDeclarator.operand {e : Node} (h : e.IsDeclarator) (hn : n.kind ∈ operandKinds)
    (ho : n.OccursIn e) : n.IsExpression := by
  obtain ⟨subscript, initializer, -, hs, hi⟩ := h
  obtain ⟨m, hm, ho⟩ := ho.among hn (by decide)
  rw [List.mem_append, Option.mem_toList, Option.mem_toList] at hm
  obtain hm | hm := hm
  · exact (hs m hm).operand (by decide) (fun _ he => he.operand hn) hn ho
  · exact (hi m hm).operand (by decide) (fun _ hc => hc.operand hn) hn ho

theorem IsStatement.operand {stmt : Node} (h : stmt.IsStatement) (hn : n.kind ∈ operandKinds)
    (ho : n.OccursIn stmt) : n.IsExpression := by
  have block {line : Nat} {stmts : List Node}
      (ih : ∀ stmt ∈ stmts, n.OccursIn stmt → n.IsExpression)
      (ho : n.OccursIn ⟨.block, "", line, stmts⟩) : n.IsExpression := by
    obtain ⟨m, hm, ho⟩ := ho.among hn (by decide)
    exact ih m hm ho
  have test {condition : Node} (ht : Wraps .condition "" IsCondition condition)
      (ho : n.OccursIn condition) : n.IsExpression :=
    ht.operand (by decide) (fun _ hc => hc.operand hn) hn ho
  induction h with
  | declaration _ hitems =>
    obtain ⟨m, hm, ho⟩ := ho.among hn (by decide)
    exact (hitems m hm).operand hn ho
  | assignment ha => exact ha.operand hn ho
  | read ht => exact ht.operand hn (ho.only hn (by decide))
  | write hv => exact hv.operand hn (ho.only hn (by decide))
  | conditional ht _ ihb =>
    have hc := ho.among hn (by decide)
    simp only [occursAmong_cons, occursAmong_nil, or_false] at hc
    obtain hc | hc := hc
    · exact test ht hc
    · exact block ihb hc
  | alternative ht _ _ ihb ihe =>
    have hc := ho.among hn (by decide)
    simp only [occursAmong_cons, occursAmong_nil, or_false] at hc
    obtain hc | hc | hc := hc
    · exact test ht hc
    · exact block ihb hc
    · exact block ihe (hc.only hn (by decide))
  | whileLoop ht _ ihb =>
    have hc := ho.among hn (by decide)
    simp only [occursAmong_cons, occursAmong_nil, or_false] at hc
    obtain hc | hc := hc
    · exact test ht hc
    · exact block ihb hc
  | forLoop hi ht hs _ ihb =>
    have hc := ho.among hn (by decide)
    simp only [occursAmong_cons, occursAmong_nil, or_false] at hc
    obtain hc | hc | hc | hc := hc
    · exact hi.operand (by decide) (fun _ ha => ha.operand hn) hn hc
    · exact test ht hc
    · exact hs.operand (by decide) (fun _ ha => ha.operand hn) hn hc
    · exact block ihb hc

theorem IsStatement.literal {stmt : Node} (h : stmt.IsStatement) (hn : n.kind ∈ literalKinds)
    (ho : n.OccursIn stmt) : n.IsExpression :=
  h.operand (List.mem_cons_of_mem _ hn) ho

theorem IsStatement.identifier {stmt : Node} (h : stmt.IsStatement) (hn : n.kind = .identifier)
    (ho : n.OccursIn stmt) : n.IsExpression :=
  h.operand (List.mem_cons.2 (.inl hn)) ho

/-- A literal has a value, whatever the store. -/
theorem IsExpression.exists_value (h : n.IsExpression) (hn : n.kind ∈ literalKinds)
    (store : Store) (level : Nat) : ∃ value, store.evaluate level n = .ok value := by
  cases h with
  | int ht =>
    obtain ⟨value, hv⟩ := Option.isSome_iff_exists.1 (integer?_isSome_of_spells ht)
    simp only [leaf, Store.evaluate, hv]
    exact ⟨_, rfl⟩
  | real ht =>
    obtain ⟨value, hv⟩ := Option.isSome_iff_exists.1 (ofText?_isSome_of_spells ht)
    simp only [leaf, Store.evaluate, hv]
    exact ⟨_, rfl⟩
  | bool =>
    rw [leaf, Store.evaluate]
    exact ⟨_, rfl⟩
  | string =>
    rw [leaf, Store.evaluate]
    exact ⟨_, rfl⟩
  | scalar => simp [leaf, literalKinds] at hn
  | cell => simp [literalKinds] at hn
  | arithmetic => simp [literalKinds] at hn

end BlockLang.Node
