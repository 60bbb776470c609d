import BlockLang.Execution.Error
import BlockLang.Proofs.Scope.View
import Mathlib.Data.List.Forall2

/-! # Matchings

Two programs of one form are run side by side. A matching says which names and which lines
of the two correspond; names that are told apart in one of them are told apart in the
other. Trees match if they differ in corresponding names and lines only, and errors match
if their causes differ in a corresponding name at most.
-/
namespace BlockLang
open Scope RuntimeError

/-- Which names and which lines of two programs correspond. -/
structure Matching where
  names : String → String → Prop
  lines : Nat → Nat → Prop
  /-- Variables, arrays and cells are kept apart in both programs alike. -/
  key_eq_iff {name twin other mate : String} (index place : Option Nat) :
    names name twin → names other mate →
      (key name index = key other place ↔ key twin index = key mate place)

def NodeKind.isNaming : NodeKind → Bool
  | .declarator | .identifier => true
  | _ => false

namespace Matching

variable {c : Matching} {α β γ δ : Type}

/-! ## Trees -/

def Texts (c : Matching) (kind : NodeKind) (text twin : String) : Prop :=
  if kind.isNaming then c.names text twin else text = twin

/-- Two trees of one form. -/
inductive Nodes (c : Matching) : Node → Node → Prop
  | intro {kind : NodeKind} {text twin : String} {line place : Nat} {children others : List Node} :
    c.Texts kind text twin → c.lines line place → List.Forall₂ (Nodes c) children others →
    Nodes c ⟨kind, text, line, children⟩ ⟨kind, twin, place, others⟩

theorem Nodes.induct {P : Node → Node → Prop}
    (step : ∀ {kind text twin line place children others}, c.Texts kind text twin →
      c.lines line place → List.Forall₂ P children others →
      P ⟨kind, text, line, children⟩ ⟨kind, twin, place, others⟩)
    {n m : Node} (h : c.Nodes n m) : P n m :=
  @Nodes.rec c (fun n m _ => P n m) (fun ns ms _ => List.Forall₂ P ns ms)
    (fun ht hl _ hc => step ht hl hc) .nil (fun _ _ hp hc => .cons hp hc) n m h

variable {n m : Node} {ns ms : List Node}

theorem Nodes.kind_eq (h : c.Nodes n m) : n.kind = m.kind := by
  cases h
  rfl

theorem Nodes.line (h : c.Nodes n m) : c.lines n.line m.line := by
  cases h
  assumption

theorem Nodes.children (h : c.Nodes n m) : List.Forall₂ c.Nodes n.children m.children := by
  cases h
  assumption

theorem Nodes.isError_eq (h : c.Nodes n m) : n.isError = m.isError := by
  rw [Node.isError, Node.isError, h.kind_eq]

theorem Nodes.name (h : c.Nodes n m) (hk : n.kind.isNaming) : c.names n.text m.text := by
  cases h with
  | intro ht => exact (if_pos hk).mp ht

theorem Nodes.text_eq (h : c.Nodes n m) (hk : n.kind.isNaming = false) : n.text = m.text := by
  cases h with
  | intro ht => exact (if_neg (by simpa using hk)).mp ht

theorem rel_cases {R : α → β → Prop} {x : Option α} {y : Option β} (h : Option.Rel R x y) :
    (x = none ∧ y = none) ∨ ∃ a b, x = some a ∧ y = some b ∧ R a b := by
  cases h with
  | none => exact .inl ⟨rfl, rfl⟩
  | some hab => exact .inr ⟨_, _, rfl, rfl, hab⟩

theorem rel_map_eq {R : α → β → Prop} {f : α → γ} {g : β → γ} {l : List α} {k : List β}
    (h : List.Forall₂ R l k) (hf : ∀ a b, R a b → f a = g b) : l.map f = k.map g := by
  rw [← List.forall₂_eq_eq_eq, List.forall₂_map_left_iff, List.forall₂_map_right_iff]
  exact h.imp hf

/-- The first nodes for which something holds that does not depend on names or lines. -/
theorem rel_find {R : α → β → Prop} {p : α → Bool} {q : β → Bool} {l : List α} {k : List β}
    (h : List.Forall₂ R l k) (hp : ∀ a b, R a b → p a = q b) :
    Option.Rel R (l.find? p) (k.find? q) := by
  induction h with
  | nil => exact .none
  | @cons a b _ _ hab _ ih =>
    have hb := hp a b hab
    cases ha : p a with
    | true =>
      rw [List.find?_cons_of_pos ha, List.find?_cons_of_pos (hb ▸ ha)]
      exact .some hab
    | false =>
      rw [List.find?_cons_of_neg (by simp [ha]), List.find?_cons_of_neg (by simp [← hb, ha])]
      exact ih

theorem Nodes.part (h : c.Nodes n m) (kind : NodeKind) :
    Option.Rel c.Nodes (n.part? kind) (m.part? kind) :=
  rel_find h.children fun _ _ hc => by rw [hc.kind_eq]

theorem Nodes.content (h : c.Nodes n m) : Option.Rel c.Nodes n.content? m.content? :=
  rel_find h.children fun _ _ hc => by rw [hc.isError_eq]

theorem anyHasError_eq (h : List.Forall₂ (fun n m => n.hasError = m.hasError) ns ms) :
    Node.anyHasError ns = Node.anyHasError ms := by
  induction h with
  | nil => rfl
  | cons hn _ ih => rw [Node.anyHasError, Node.anyHasError, hn, ih]

theorem Nodes.hasError_eq (h : c.Nodes n m) : n.hasError = m.hasError := by
  apply Nodes.induct (P := fun n m => n.hasError = m.hasError) ?_ h
  intro kind text twin line place children others _ _ hc
  rw [Node.hasError, Node.hasError, anyHasError_eq hc]

/-! ## Errors -/

/-- Two causes that differ in one name at most. -/
inductive Causes (c : Matching) : Cause → Cause → Prop
  | same (cause : Cause) : Causes c cause cause
  | named (make : String → Cause) {name twin : String} (index : Option Nat) :
    (∀ name twin, (make name).kind = (make twin).kind) → c.names name twin →
    Causes c (make (key name index)) (make (key twin index))

theorem Causes.kind_eq {cause twin : Cause} (h : c.Causes cause twin) :
    cause.kind = twin.kind := by
  cases h with
  | same => rfl
  | named make index hk _ => exact hk _ _

structure Errors (c : Matching) (error twin : RuntimeError) : Prop where
  causes : c.Causes error.cause twin.cause
  lines : c.lines error.line twin.line

variable {line place : Nat}

theorem errors_same (cause : Cause) (h : c.lines line place) :
    c.Errors ⟨cause, line⟩ ⟨cause, place⟩ :=
  ⟨.same cause, h⟩

theorem errors_unexpected (h : c.Nodes n m) : c.Errors (.unexpected n) (.unexpected m) := by
  rw [unexpected, unexpected, h.kind_eq]
  exact errors_same _ h.line

/-- An error that mentions a name. -/
theorem errors_named (make : String → Cause) (hk : ∀ name twin, (make name).kind = (make twin).kind)
    {name twin : String} (hn : c.names name twin) (h : c.lines line place) :
    c.Errors ⟨make name, line⟩ ⟨make twin, place⟩ :=
  ⟨.named make none hk hn, h⟩

/-! ## Results -/

/-- Both computations succeed or both fail, with results or errors that correspond. -/
inductive Results (c : Matching) (R : α → β → Prop) :
    Except RuntimeError α → Except RuntimeError β → Prop
  | ok {a : α} {b : β} : R a b → Results c R (.ok a) (.ok b)
  | error {error twin : RuntimeError} :
    c.Errors error twin → Results c R (.error error) (.error twin)

theorem Results.cases {R : α → β → Prop} {x : Except RuntimeError α} {y : Except RuntimeError β}
    (h : c.Results R x y) :
    (∃ error twin, x = .error error ∧ y = .error twin ∧ c.Errors error twin) ∨
      ∃ a b, x = .ok a ∧ y = .ok b ∧ R a b := by
  cases h with
  | error he => exact .inl ⟨_, _, rfl, rfl, he⟩
  | ok hab => exact .inr ⟨_, _, rfl, rfl, hab⟩

theorem Results.bind {R : α → β → Prop} {S : γ → δ → Prop} {x : Except RuntimeError α}
    {y : Except RuntimeError β} {f : α → Except RuntimeError γ} {g : β → Except RuntimeError δ}
    (h : c.Results R x y) (hf : ∀ a b, R a b → c.Results S (f a) (g b)) :
    c.Results S (x >>= f) (y >>= g) := by
  cases h with
  | ok hab => exact hf _ _ hab
  | error he => exact .error he

theorem Results.bind_same {S : γ → δ → Prop} {x y : Except RuntimeError α}
    {f : α → Except RuntimeError γ} {g : α → Except RuntimeError δ} (h : c.Results (· = ·) x y)
    (hf : ∀ a, c.Results S (f a) (g a)) : c.Results S (x >>= f) (y >>= g) :=
  h.bind fun a _ he => he ▸ hf a

theorem results_getD {R : α → β → Prop} {x : Option (Except RuntimeError α)}
    {y : Option (Except RuntimeError β)} (h : Option.Rel (c.Results R) x y)
    {error twin : RuntimeError} (he : c.Errors error twin) :
    c.Results R (x.getD (.error error)) (y.getD (.error twin)) := by
  cases h with
  | none => exact .error he
  | some hr => exact hr

end Matching
end BlockLang
