import BlockLang.Proofs.Shape
import Mathlib.Data.List.Basic

/-! # Checks of names

A check goes through a tree with a list of names for each place. It starts a new list at
each statement list, and what a declarator adds is in the list for all that follows it
there, and in its own initializer.
-/
namespace BlockLang.Scope
open Node

/-- How a tree is checked. -/
structure Check where
  /-- Whether a node may stand at a place with some names. -/
  admits : List String → Node → Bool
  /-- The names that a declarator adds. -/
  names : Node → List String
  /-- The names at the beginning of a nested statement list. -/
  inner : List String → List String

namespace Check

variable (check : Check)

def own (n : Node) : List String :=
  if n.kind = .declarator then check.names n else []

/-- The names that a statement or a declarator adds for those that follow it. -/
def added (n : Node) : List String :=
  if n.kind = .declaration then n.children.flatMap check.own else check.own n

def within (names : List String) (n : Node) : List String :=
  if n.kind = .program ∨ n.kind = .block then check.inner names else names ++ check.own n

mutual

def passes (names : List String) : Node → Bool
  | ⟨kind, text, line, children⟩ =>
    check.admits names ⟨kind, text, line, children⟩ &&
      passInOrder (check.within names ⟨kind, text, line, children⟩) children

def passInOrder (names : List String) : List Node → Bool
  | [] => true
  | node :: nodes => passes names node && passInOrder (names ++ check.added node) nodes

end

variable {check} {names : List String} {n : Node} {nodes : List Node}

theorem passInOrder_of_passes (h : check.passes names n) :
    check.passInOrder (check.within names n) n.children := by
  obtain ⟨kind, text, line, children⟩ := n
  rw [passes, Bool.and_eq_true] at h
  exact h.2

theorem admits_of_passes (h : check.passes names n) : check.admits names n := by
  obtain ⟨kind, text, line, children⟩ := n
  rw [passes, Bool.and_eq_true] at h
  exact h.1

@[simp] theorem passInOrder_nil : check.passInOrder names [] = true := by
  rw [passInOrder]

@[simp] theorem passInOrder_cons : check.passInOrder names (n :: nodes) =
    (check.passes names n && check.passInOrder (names ++ check.added n) nodes) := by
  rw [passInOrder]

theorem added_of_isDeclarator (h : n.IsDeclarator) : check.added n = check.names n := by
  cases h
  simp [added, own]

theorem flatMap_added (h : ∀ n ∈ nodes, n.IsDeclarator) :
    nodes.flatMap check.added = nodes.flatMap check.own := by
  apply List.flatMap_congr
  intro n hn
  rw [added, if_neg]
  cases h n hn
  nofun

/-- A node of another kind adds nothing. -/
theorem added_of_kind (h : n.kind ≠ .declaration) (hd : n.kind ≠ .declarator) :
    check.added n = [] := by
  rw [added, if_neg h, own, if_neg hd]

/-- The children of a node have its names if neither it nor they add any. -/
theorem passes_of_mem (h : check.passes names n) (hw : check.within names n = names)
    (hc : ∀ m ∈ n.children, check.added m = []) :
    ∀ m ∈ n.children, check.passes names m := by
  have hall (nodes : List Node) (hp : check.passInOrder names nodes)
      (hc : ∀ m ∈ nodes, check.added m = []) : ∀ m ∈ nodes, check.passes names m := by
    induction nodes with
    | nil => exact List.forall_mem_nil _
    | cons node nodes ih =>
      rw [List.forall_mem_cons] at hc ⊢
      rw [passInOrder_cons, hc.1, List.append_nil, Bool.and_eq_true] at hp
      exact ⟨hp.1, ih hp.2 hc.2⟩
  exact hall n.children (hw ▸ passInOrder_of_passes h) hc

theorem added_of_isExpression (h : n.IsExpression) : check.added n = [] := by
  cases h <;> rfl

theorem added_of_isCondition (h : n.IsCondition) : check.added n = [] := by
  cases h with
  | plain he => exact added_of_isExpression he
  | comparison => rfl

theorem added_of_isTarget (h : n.IsTarget) : check.added n = [] := by
  cases h
  rfl

theorem added_of_isAssignment (h : n.IsAssignment) : check.added n = [] := by
  cases h
  rfl

theorem added_of_wraps {kind : NodeKind} {text : String} {P : Node → Prop}
    (h : Wraps kind text P n) (hk : kind ≠ .declaration) (hd : kind ≠ .declarator) :
    check.added n = [] := by
  obtain ⟨line, inner, rfl, -⟩ := h
  exact added_of_kind hk hd

theorem passes_wrapped {kind : NodeKind} {text : String} {line : Nat}
    (h : check.passes names ⟨kind, text, line, [n]⟩)
    (hk : kind ∉ [.program, .block, .declarator]) (hn : check.added n = []) :
    check.passes names n := by
  simp only [List.mem_cons, not_or] at hk
  refine passes_of_mem h ?_ (List.forall_mem_singleton.2 hn) n List.mem_cons_self
  simp [within, own, hk]

/-- What stands in a declarator has the name that is declared. -/
theorem passes_declared {text : String} {line : Nat}
    (h : check.passes names ⟨.declarator, text, line, [n]⟩) :
    check.passes (names ++ check.names ⟨.declarator, text, line, [n]⟩) n := by
  have hc := passInOrder_of_passes h
  rw [passInOrder_cons, Bool.and_eq_true] at hc
  simpa [within, own] using hc.1

theorem added_of_isStatement (h : n.IsStatement) (hk : n.kind ≠ .declaration) :
    check.added n = [] := by
  cases h with
  | declaration => exact absurd rfl hk
  | assignment ha => exact added_of_isAssignment ha
  | _ => rfl

/-- The children of a statement have its names, unless they are declarators. -/
theorem passes_children (hs : n.IsStatement) (hk : n.kind ≠ .declaration)
    (h : check.passes names n) : ∀ m ∈ n.children, check.passes names m := by
  refine passes_of_mem h ?_ ?_
  · cases hs with
    | assignment ha =>
      cases ha
      simp [within, own]
    | _ => simp [within, own]
  · have test {condition : Node} (ht : Wraps .condition "" IsCondition condition) :
        check.added condition = [] := added_of_wraps ht (by decide) (by decide)
    cases hs with
    | declaration => exact absurd rfl hk
    | assignment ha =>
      obtain ⟨ht, hs⟩ := ha
      simp [added_of_isTarget ht, added_of_isCondition hs]
    | read ht => simp [added_of_isTarget ht]
    | write hv => simp [added_of_isExpression hv]
    | conditional ht | whileLoop ht =>
      rw [List.forall_mem_cons, List.forall_mem_singleton]
      exact ⟨test ht, rfl⟩
    | alternative ht =>
      rw [List.forall_mem_cons, List.forall_mem_cons, List.forall_mem_singleton]
      exact ⟨test ht, rfl, rfl⟩
    | forLoop hi ht hs =>
      rw [List.forall_mem_cons, List.forall_mem_cons, List.forall_mem_cons,
        List.forall_mem_singleton]
      exact ⟨added_of_wraps hi (by decide) (by decide), test ht,
        added_of_wraps hs (by decide) (by decide), rfl⟩

end Check

end BlockLang.Scope
