import BlockLang.Tree

/-! # Occurrences in trees

A node occurs in a tree if it is the root or occurs below one of the root's children. What
is claimed of all nodes of a kind in a tree is claimed of all occurrences.
-/
namespace BlockLang.Node

inductive OccursIn (n : Node) : Node → Prop
  | here : OccursIn n n
  | inside {kind : NodeKind} {text : String} {line : Nat} {children : List Node} {m : Node} :
    m ∈ children → OccursIn n m → OccursIn n ⟨kind, text, line, children⟩

def OccursAmong (n : Node) (nodes : List Node) : Prop :=
  ∃ m ∈ nodes, n.OccursIn m

variable {n m : Node} {nodes others : List Node}

theorem occursIn_iff {kind : NodeKind} {text : String} {line : Nat} :
    n.OccursIn ⟨kind, text, line, nodes⟩ ↔
      n = ⟨kind, text, line, nodes⟩ ∨ n.OccursAmong nodes := by
  constructor
  · intro h
    cases h with
    | here => exact .inl rfl
    | inside hm ho => exact .inr ⟨_, hm, ho⟩
  · rintro (rfl | ⟨m, hm, ho⟩)
    · exact .here
    · exact .inside hm ho

@[simp] theorem occursAmong_nil : ¬n.OccursAmong [] := by
  simp [OccursAmong]

@[simp] theorem occursAmong_cons :
    n.OccursAmong (m :: nodes) ↔ n.OccursIn m ∨ n.OccursAmong nodes := by
  simp [OccursAmong]

@[simp] theorem occursAmong_append :
    n.OccursAmong (nodes ++ others) ↔ n.OccursAmong nodes ∨ n.OccursAmong others := by
  simp [OccursAmong, or_and_right, exists_or]

theorem OccursIn.trans {root : Node} (h : n.OccursIn m) (hr : m.OccursIn root) :
    n.OccursIn root := by
  induction hr with
  | here => exact h
  | inside hm _ ih => exact .inside hm ih

/-! ## Deciding occurrences -/

mutual

def decEq : (n m : Node) → Decidable (n = m)
  | ⟨kind, text, line, children⟩, ⟨kind', text', line', children'⟩ =>
    match decEqOf children children' with
    | isTrue h => decidable_of_iff (kind = kind' ∧ text = text' ∧ line = line') (by simp [h])
    | isFalse h => isFalse fun he => h (Node.mk.inj he).2.2.2

def decEqOf : (nodes others : List Node) → Decidable (nodes = others)
  | [], [] => isTrue rfl
  | [], _ :: _ => isFalse nofun
  | _ :: _, [] => isFalse nofun
  | n :: nodes, m :: others =>
    match decEq n m, decEqOf nodes others with
    | isTrue hn, isTrue hs => isTrue (by rw [hn, hs])
    | isFalse hn, _ => isFalse fun he => hn (List.cons.inj he).1
    | _, isFalse hs => isFalse fun he => hs (List.cons.inj he).2

end

instance : DecidableEq Node :=
  decEq

mutual

def decOccursIn (n : Node) : (m : Node) → Decidable (n.OccursIn m)
  | ⟨kind, text, line, children⟩ =>
    match decOccursAmong n children with
    | isTrue h => isTrue (occursIn_iff.2 (.inr h))
    | isFalse h => decidable_of_iff (n = ⟨kind, text, line, children⟩) (by simp [occursIn_iff, h])

def decOccursAmong (n : Node) : (nodes : List Node) → Decidable (n.OccursAmong nodes)
  | [] => isFalse occursAmong_nil
  | m :: nodes =>
    match decOccursIn n m, decOccursAmong n nodes with
    | isTrue hm, _ => isTrue (occursAmong_cons.2 (.inl hm))
    | _, isTrue hs => isTrue (occursAmong_cons.2 (.inr hs))
    | isFalse hm, isFalse hs => isFalse (by simp [hm, hs])

end

instance (n m : Node) : Decidable (n.OccursIn m) :=
  decOccursIn n m

end BlockLang.Node
