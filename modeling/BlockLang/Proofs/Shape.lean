import BlockLang.Arithmetic
import BlockLang.Proofs.Lexeme
import BlockLang.Tree
import BlockLang.Value

/-! # Shapes of trees

The trees that statements without errors have. Each node has the children that its
kind demands and a text that some token of its kind has; lines are arbitrary.
-/
namespace BlockLang.Node
open Lexeme

def Wraps (kind : NodeKind) (text : String) (P : Node → Prop) (n : Node) : Prop :=
  ∃ line inner, n = ⟨kind, text, line, [inner]⟩ ∧ P inner

theorem Wraps.mono {kind : NodeKind} {text : String} {P Q : Node → Prop} {n : Node}
    (h : Wraps kind text P n) (hpq : ∀ n, P n → Q n) : Wraps kind text Q n := by
  obtain ⟨line, inner, rfl, hi⟩ := h
  exact ⟨line, inner, rfl, hpq _ hi⟩

theorem content?_of_wraps {kind : NodeKind} {text : String} {P : Node → Prop} {n : Node}
    (h : Wraps kind text P n) (hp : ∀ inner, P inner → inner.isError = false) :
    ∃ inner, n.content? = some inner ∧ P inner := by
  obtain ⟨_, inner, rfl, hi⟩ := h
  exact ⟨inner, by simp [content?, hp inner hi], hi⟩

inductive IsExpression : Node → Prop
  | int {text : String} {line : Nat} :
    Spells .intLiteral text → IsExpression (.leaf .intLiteral text line)
  | real {text : String} {line : Nat} :
    Spells .realLiteral text → IsExpression (.leaf .realLiteral text line)
  | bool {text : String} {line : Nat} :
    text = "true" ∨ text = "false" → IsExpression (.leaf .boolLiteral text line)
  | string {text : String} {line : Nat} :
    Spells .stringLiteral text → IsExpression (.leaf .stringLiteral text line)
  | scalar {name : String} {line : Nat} :
    Spells .identifier name → IsExpression (.leaf .identifier name line)
  | cell {name : String} {line subscriptLine : Nat} {index : Node} :
    Spells .identifier name → IsExpression index →
    IsExpression ⟨.identifier, name, line, [⟨.subscript, "[]", subscriptLine, [index]⟩]⟩
  | arithmetic {op : Operator} {line : Nat} {left right : Node} :
    IsExpression left → IsExpression right →
    IsExpression ⟨.arithmetic, op.spelling, line, [left, right]⟩

inductive IsCondition : Node → Prop
  | plain {n : Node} : IsExpression n → IsCondition n
  | comparison {text : String} {line : Nat} {left right : Node} :
    text ∈ ["==", "<>", "<", ">"] → IsExpression left → IsExpression right →
    IsCondition ⟨.comparison, text, line, [left, right]⟩

inductive IsTarget : Node → Prop
  | intro {name : String} {line : Nat} {suffix : List Node} :
    IsExpression ⟨.identifier, name, line, suffix⟩ → IsTarget ⟨.identifier, name, line, suffix⟩

inductive IsDeclarator : Node → Prop
  | intro {name : String} {line : Nat} (subscript initializer : Option Node) :
    Spells .identifier name → (∀ n ∈ subscript, Wraps .subscript "[]" IsExpression n) →
    (∀ n ∈ initializer, Wraps .initializer "=" IsCondition n) →
    IsDeclarator ⟨.declarator, name, line, subscript.toList ++ initializer.toList⟩

inductive IsAssignment : Node → Prop
  | intro {line : Nat} {target source : Node} : IsTarget target → IsCondition source →
    IsAssignment ⟨.assignment, "=", line, [target, source]⟩

inductive IsStatement : Node → Prop
  | declaration {kind : Kind} {line : Nat} {items : List Node} : items ≠ [] →
    (∀ item ∈ items, IsDeclarator item) → IsStatement ⟨.declaration, kind.name, line, items⟩
  | assignment {n : Node} : IsAssignment n → IsStatement n
  | read {line : Nat} {target : Node} :
    IsTarget target → IsStatement ⟨.read, "read", line, [target]⟩
  | write {line : Nat} {value : Node} :
    IsExpression value → IsStatement ⟨.write, "write", line, [value]⟩
  | conditional {line bodyLine : Nat} {test : Node} {body : List Node} :
    Wraps .condition "" IsCondition test → (∀ stmt ∈ body, IsStatement stmt) →
    IsStatement ⟨.conditional, "if", line, [test, ⟨.block, "", bodyLine, body⟩]⟩
  | alternative {line bodyLine elseLine otherLine : Nat} {test : Node}
    {body otherwise : List Node} :
    Wraps .condition "" IsCondition test → (∀ stmt ∈ body, IsStatement stmt) →
    (∀ stmt ∈ otherwise, IsStatement stmt) →
    IsStatement ⟨.conditional, "if", line, [test, ⟨.block, "", bodyLine, body⟩,
      ⟨.alternative, "else", elseLine, [⟨.block, "", otherLine, otherwise⟩]⟩]⟩
  | whileLoop {line bodyLine : Nat} {test : Node} {body : List Node} :
    Wraps .condition "" IsCondition test → (∀ stmt ∈ body, IsStatement stmt) →
    IsStatement ⟨.whileLoop, "while", line, [test, ⟨.block, "", bodyLine, body⟩]⟩
  | forLoop {line bodyLine : Nat} {init test step : Node} {body : List Node} :
    Wraps .init "" IsAssignment init → Wraps .condition "" IsCondition test →
    Wraps .step "" IsAssignment step → (∀ stmt ∈ body, IsStatement stmt) →
    IsStatement ⟨.forLoop, "for", line, [init, test, step, ⟨.block, "", bodyLine, body⟩]⟩

inductive IsBlock : Node → Prop
  | intro {line : Nat} {stmts : List Node} :
    (∀ stmt ∈ stmts, IsStatement stmt) → IsBlock ⟨.block, "", line, stmts⟩

theorem IsDeclarator.kind_eq {n : Node} (h : n.IsDeclarator) : n.kind = .declarator := by
  cases h
  rfl

theorem IsAssignment.kind_eq {n : Node} (h : n.IsAssignment) : n.kind = .assignment := by
  cases h
  rfl

theorem IsBlock.kind_eq {n : Node} (h : n.IsBlock) : n.kind = .block := by
  cases h
  rfl

theorem isError_of_isAssignment (stmt : Node) (h : stmt.IsAssignment) : stmt.isError = false := by
  cases h
  rfl

theorem IsStatement.isAssignment {n : Node} (h : n.IsStatement) (hk : n.kind = .assignment) :
    n.IsAssignment := by
  cases h with
  | assignment ha => exact ha
  | _ => cases hk

theorem IsStatement.exists_target {n : Node} (h : n.IsStatement) (hk : n.kind = .read) :
    ∃ target, n.content? = some target ∧ target.IsTarget := by
  cases h with
  | read ht =>
    obtain ⟨he⟩ := ht
    exact ⟨_, rfl, .intro he⟩
  | assignment ha =>
    cases ha
    cases hk
  | _ => cases hk

theorem IsStatement.isTarget {n : Node} (h : n.IsStatement) (hk : n.kind = .read) :
    ∀ target ∈ n.content?, target.IsTarget := by
  obtain ⟨target, hc, ht⟩ := h.exists_target hk
  rintro _ hm
  cases hc.symm.trans hm
  exact ht

theorem IsStatement.isAssignment_init {n : Node} (h : n.IsStatement) (hk : n.kind = .forLoop) :
    ∀ init ∈ n.part? .init, ∀ stmt ∈ init.content?, stmt.IsAssignment := by
  cases h with
  | forLoop hi =>
    intro init hinit stmt hstmt
    obtain ⟨first, hfirst, ha⟩ := content?_of_wraps hi isError_of_isAssignment
    obtain ⟨_, _, rfl, -⟩ := hi
    cases hinit
    cases hfirst.symm.trans hstmt
    exact ha
  | assignment ha =>
    cases ha
    cases hk
  | _ => cases hk

/-- The parts of a declarator. -/
theorem declarator_parts {name : String} {line : Nat} {subscript initializer : Option Node}
    (hs : ∀ n ∈ subscript, Wraps .subscript "[]" IsExpression n)
    (hi : ∀ n ∈ initializer, Wraps .initializer "=" IsCondition n) :
    let item : Node := ⟨.declarator, name, line, subscript.toList ++ initializer.toList⟩
    item.part? .subscript = subscript ∧ item.part? .initializer = initializer := by
  cases subscript with
  | none =>
    cases initializer with
    | none => exact ⟨rfl, rfl⟩
    | some i =>
      obtain ⟨_, _, rfl, -⟩ := hi i rfl
      exact ⟨rfl, rfl⟩
  | some s =>
    obtain ⟨_, _, rfl, -⟩ := hs s rfl
    cases initializer with
    | none => exact ⟨rfl, rfl⟩
    | some i =>
      obtain ⟨_, _, rfl, -⟩ := hi i rfl
      exact ⟨rfl, rfl⟩

/-- The nodes that a `for` works with: its first assignment, its condition, the assignment of its
step and its body. -/
structure ForParts (stmt first condition next body : Node) : Prop where
  kind : stmt.kind = .forLoop
  init : (stmt.part? .init).bind content? = some first
  condition : stmt.part? .condition = some condition
  step : (stmt.part? .step).bind content? = some next
  body : stmt.part? .block = some body

theorem IsStatement.exists_forParts {n : Node} (h : n.IsStatement) (hk : n.kind = .forLoop) :
    ∃ first condition next body, n.ForParts first condition next body ∧ first.IsAssignment ∧
      Wraps .condition "" IsCondition condition ∧ next.IsAssignment ∧ body.IsBlock := by
  cases h with
  | forLoop hi ht hs hb =>
    obtain ⟨first, hfirst, ha⟩ := content?_of_wraps hi isError_of_isAssignment
    obtain ⟨next, hnext, hstep⟩ := content?_of_wraps hs isError_of_isAssignment
    obtain ⟨_, _, rfl, -⟩ := hi
    obtain ⟨_, _, rfl, ht⟩ := ht
    obtain ⟨_, _, rfl, -⟩ := hs
    exact ⟨first, _, next, _, ⟨rfl, hfirst, rfl, hnext, rfl⟩, ha, ⟨_, _, rfl, ht⟩, hstep,
      .intro hb⟩
  | assignment ha =>
    cases ha
    cases hk
  | _ => cases hk

theorem ForParts.shapes {n first condition next body : Node}
    (h : n.ForParts first condition next body) (hn : n.IsStatement) :
    first.IsAssignment ∧ Wraps .condition "" IsCondition condition ∧ next.IsAssignment ∧
      body.IsBlock := by
  obtain ⟨_, _, _, _, hparts, hshapes⟩ := hn.exists_forParts h.kind
  obtain rfl := Option.some.inj (hparts.init.symm.trans h.init)
  obtain rfl := Option.some.inj (hparts.condition.symm.trans h.condition)
  obtain rfl := Option.some.inj (hparts.step.symm.trans h.step)
  obtain rfl := Option.some.inj (hparts.body.symm.trans h.body)
  exact hshapes

/-! ## Inherited properties -/

/-- A node other than a declarator has the property if all its children have it. -/
def Inherited (P : Node → Prop) : Prop :=
  ∀ ⦃kind : NodeKind⦄ ⦃text : String⦄ ⦃line : Nat⦄ ⦃children : List Node⦄, kind ≠ .declarator →
    (kind = .identifier → Spells .identifier text) → (∀ n ∈ children, P n) →
      P ⟨kind, text, line, children⟩

section
variable {P : Node → Prop} {n : Node}

theorem IsExpression.inherits (hp : Inherited P) (h : n.IsExpression) : P n := by
  induction h with
  | int | real | bool | string => exact hp (by decide) (by simp) (List.forall_mem_nil _)
  | scalar hs => exact hp (by decide) (fun _ => hs) (List.forall_mem_nil _)
  | cell hs _ ih =>
    apply hp (by decide) (fun _ => hs)
    rw [List.forall_mem_singleton]
    exact hp (by decide) (by simp) (List.forall_mem_singleton.2 ih)
  | arithmetic _ _ ihl ihr =>
    apply hp (by decide) (by simp)
    exact List.forall_mem_cons.2 ⟨ihl, List.forall_mem_singleton.2 ihr⟩

theorem IsCondition.inherits (hp : Inherited P) (h : n.IsCondition) : P n := by
  cases h with
  | plain he => exact he.inherits hp
  | comparison _ hl hr =>
    apply hp (by decide) (by simp)
    exact List.forall_mem_cons.2 ⟨hl.inherits hp, List.forall_mem_singleton.2 (hr.inherits hp)⟩

theorem IsTarget.inherits (hp : Inherited P) (h : n.IsTarget) : P n := by
  obtain ⟨he⟩ := h
  exact he.inherits hp

theorem IsAssignment.inherits (hp : Inherited P) (h : n.IsAssignment) : P n := by
  obtain ⟨ht, hs⟩ := h
  apply hp (by decide) (by simp)
  exact List.forall_mem_cons.2 ⟨ht.inherits hp, List.forall_mem_singleton.2 (hs.inherits hp)⟩

theorem Wraps.inherits {kind : NodeKind} {text : String} {Q : Node → Prop} (hp : Inherited P)
    (h : Wraps kind text Q n) (hk : kind ∉ [.declarator, .identifier]) (hq : ∀ n, Q n → P n) :
    P n := by
  obtain ⟨line, inner, rfl, hi⟩ := h
  simp only [List.mem_cons, not_or] at hk
  exact hp hk.1 (fun h => absurd h hk.2.1) (List.forall_mem_singleton.2 (hq inner hi))

/-- What stands in a declarator has the property, whether or not the declarator has it. -/
theorem IsDeclarator.inherits (hp : Inherited P) (h : n.IsDeclarator) : ∀ m ∈ n.children, P m := by
  obtain ⟨subscript, initializer, -, hs, hi⟩ := h
  rw [List.forall_mem_append]
  constructor
  · intro m hm
    exact (hs m (Option.mem_toList.1 hm)).inherits hp (by decide) fun _ he => he.inherits hp
  · intro m hm
    exact (hi m (Option.mem_toList.1 hm)).inherits hp (by decide) fun _ hc => hc.inherits hp

end
end BlockLang.Node
