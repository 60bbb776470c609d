import BlockLang.Proofs.Tree.Procedures

/-! # Error leaves and recorded errors

An error is recorded where an error leaf is put into the tree, with the same wording
and on the same line. A leaf can be lost with the construct around it, but then a later
one stands for the construct. Hence the leaves of a tree are in step with the errors.
-/
namespace BlockLang

namespace Node

mutual

/-- The wordings and lines of the error leaves of a tree, from left to right. -/
def errorLeaves : Node → List (String × Nat)
  | ⟨kind, text, line, children⟩ =>
    (if kind = .error then [(text, line)] else []) ++ errorLeavesOf children

def errorLeavesOf : List Node → List (String × Nat)
  | [] => []
  | node :: nodes => node.errorLeaves ++ errorLeavesOf nodes

end

theorem errorLeavesOf_append (nodes others : List Node) :
    errorLeavesOf (nodes ++ others) = errorLeavesOf nodes ++ errorLeavesOf others := by
  induction nodes with
  | nil => rfl
  | cons node nodes ih =>
    rw [List.cons_append, errorLeavesOf, errorLeavesOf, ih, List.append_assoc]

mutual

theorem hasError_iff : (node : Node) → (node.hasError ↔ node.errorLeaves ≠ [])
  | ⟨kind, text, line, children⟩ => by
    rw [hasError, errorLeaves, Bool.or_eq_true, beq_iff_eq, anyHasError_iff children]
    by_cases h : kind = .error <;> simp [h]

theorem anyHasError_iff : (nodes : List Node) → (anyHasError nodes ↔ errorLeavesOf nodes ≠ [])
  | [] => by simp [anyHasError, errorLeavesOf]
  | node :: nodes => by
    rw [anyHasError, errorLeavesOf, Bool.or_eq_true, hasError_iff node, anyHasError_iff nodes,
      ne_eq, ne_eq, ne_eq, List.append_eq_nil_iff, Classical.not_and_iff_not_or_not]

end

theorem hasError_of_errorLeavesOf {nodes : List Node} (h : errorLeavesOf nodes = []) :
    ∀ n ∈ nodes, n.hasError = false := by
  induction nodes with
  | nil => exact List.forall_mem_nil _
  | cons node nodes ih =>
    rw [errorLeavesOf, List.append_eq_nil_iff] at h
    refine List.forall_mem_cons.2 ⟨?_, ih h.2⟩
    rw [← Bool.not_eq_true, hasError_iff]
    exact fun hne => hne h.1

end Node

/-- Error leaves among some nodes, and errors that were recorded for them. -/
structure InStep (nodes : List Node) (errors : List SyntaxError) : Prop where
  sublist : (Node.errorLeavesOf nodes).Sublist
    (errors.map fun error => (error.cause.message, error.place.line))
  leaves_ne_nil : errors ≠ [] → Node.errorLeavesOf nodes ≠ []
  childless : ∀ n : Node, n.OccursAmong nodes → n.kind = .error → n.children = []

namespace InStep

variable {nodes others : List Node} {errors faults : List SyntaxError}

theorem nil : InStep [] [] :=
  ⟨.slnil, fun h => absurd rfl h, fun _ h => absurd h Node.occursAmong_nil⟩

theorem append (h : InStep nodes errors) (ho : InStep others faults) :
    InStep (nodes ++ others) (errors ++ faults) := by
  constructor
  · rw [Node.errorLeavesOf_append, List.map_append]
    exact h.sublist.append ho.sublist
  · rw [Node.errorLeavesOf_append]
    intro hne
    rw [ne_eq, List.append_eq_nil_iff, Classical.not_and_iff_not_or_not] at hne ⊢
    exact hne.imp h.leaves_ne_nil ho.leaves_ne_nil
  · intro n hn
    rcases Node.occursAmong_append.1 hn with hn | hn
    · exact h.childless n hn
    · exact ho.childless n hn

theorem hasError_of_mem (h : InStep nodes errors) (he : errors = []) :
    ∀ n ∈ nodes, n.hasError = false := by
  have hleaves := h.sublist
  rw [he] at hleaves
  exact Node.hasError_of_errorLeavesOf (List.sublist_nil.1 hleaves)

/-- Making nodes the children of another one does not change their error leaves. -/
theorem node {kind : NodeKind} {text : String} {line : Nat} (hk : kind ≠ .error)
    (h : InStep nodes errors) : InStep [⟨kind, text, line, nodes⟩] errors := by
  have hl : Node.errorLeavesOf [⟨kind, text, line, nodes⟩] = Node.errorLeavesOf nodes := by
    simp [Node.errorLeavesOf, Node.errorLeaves, hk]
  refine ⟨hl ▸ h.sublist, hl ▸ h.leaves_ne_nil, fun n hn he => ?_⟩
  rw [Node.occursAmong_cons, Node.occursIn_iff] at hn
  rcases hn with (rfl | hn) | hn
  · exact absurd he hk
  · exact h.childless n hn he
  · exact absurd hn Node.occursAmong_nil

/-- A failure is in step also if it replaces what has been built before. -/
theorem failure (cause : SyntaxError.Cause) (place : Place) (errors : List SyntaxError) :
    InStep [.leaf .error cause.message place.line] (errors ++ [⟨cause, place⟩]) := by
  constructor
  · simp [Node.leaf, Node.errorLeavesOf, Node.errorLeaves]
  · simp [Node.leaf, Node.errorLeavesOf, Node.errorLeaves]
  · simp [Node.leaf, Node.occursIn_iff]

end InStep

theorem Labels.kind_ne_error {tokens : List Token} {kind : NodeKind} {text : String}
    (h : Labels tokens kind text) : kind ≠ .error := by
  rintro rfl
  cases h with
  | fixed h => cases h
  | token _ h => cases h

theorem Built.inStep {tokens : List Token} {s t : Stretch} (h : Built tokens s t) :
    InStep s.nodes s.errors := by
  induction h with
  | quiet => exact .nil
  | append _ _ ih iho => exact ih.append iho
  | node hl _ ih => exact ih.node hl.kind_ne_error
  | failure => exact .failure _ _ _

namespace Parse

theorem inStep_statement (last : Option Token) (token : Token) (tokens : List Token) :
    InStep [(statement last token tokens).value] (statement last token tokens).errors := by
  cases Cursor.twins_self last (token :: tokens) with
  | cons hl hs => exact (built_statement hl hs).inStep

theorem inStep_statements (tokens : List Token) :
    InStep (statements ⟨none, tokens⟩).value (statements ⟨none, tokens⟩).errors :=
  (built_statements (Cursor.twins_start (Token.alike_self tokens))).inStep

/-- There are errors just if the tree has an error leaf. Nodes of this kind are leaves indeed, and
from left to right their wordings and lines are those of some of the errors, in the order in which
these were recorded. -/
theorem error_leaves_in_step (tokens : List Token) :
    let tree := (program tokens).1
    let errors := (program tokens).2
    (errors = [] ↔ tree.hasError = false) ∧
      (∀ n : Node, n.OccursIn tree → n.kind = .error → n.children = []) ∧
      tree.errorLeaves.Sublist
        (errors.map fun error => (error.cause.message, error.place.line)) := by
  intro tree errors
  have h : InStep [tree] errors := (built_program (Token.alike_self tokens)).inStep
  have hleaves : Node.errorLeavesOf [tree] = tree.errorLeaves := by
    rw [Node.errorLeavesOf, Node.errorLeavesOf, List.append_nil]
  have hsublist := h.sublist
  have hne := h.leaves_ne_nil
  rw [hleaves] at hsublist hne
  refine ⟨⟨fun he => ?_, fun hf => ?_⟩,
    fun n hn => h.childless n (Node.occursAmong_cons.2 (.inl hn)), hsublist⟩
  · have hnil : tree.errorLeaves = [] := by
      rw [he] at hsublist
      exact List.sublist_nil.1 hsublist
    rw [← Bool.not_eq_true, Node.hasError_iff]
    exact fun hn => hn hnil
  · apply Classical.byContradiction
    intro he
    have ht : tree.hasError = true := (Node.hasError_iff tree).2 (hne he)
    rw [hf] at ht
    cases ht

end Parse
end BlockLang
