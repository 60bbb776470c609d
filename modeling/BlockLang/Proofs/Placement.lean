import BlockLang.Proofs.Matching
import BlockLang.Proofs.Tree.Construction

/-! # Trees on other lines

Two trees are alike if they differ in lines only. So are those that are built of tokens which differ
in places only, since places go into the lines of nodes and into the places of errors and nowhere
else.
-/
namespace BlockLang

namespace Node

mutual

def withoutLines : Node → Node
  | ⟨kind, text, _, children⟩ => ⟨kind, text, 0, withoutLinesAll children⟩

def withoutLinesAll : List Node → List Node
  | [] => []
  | node :: nodes => node.withoutLines :: withoutLinesAll nodes

end

theorem withoutLinesAll_eq_map (nodes : List Node) :
    withoutLinesAll nodes = nodes.map withoutLines := by
  induction nodes with
  | nil => rfl
  | cons node nodes ih => rw [withoutLinesAll, ih, List.map_cons]

end Node

namespace Matching

def ofPlaces : Matching where
  names name twin := name = twin
  lines _ _ := True
  key_eq_iff := by
    rintro _ _ _ _ index place rfl rfl
    rfl

end Matching

namespace Node
open Matching

/-- Two trees that differ in lines at most. -/
abbrev Alike : Node → Node → Prop :=
  ofPlaces.Nodes

variable {n m : Node} {ns ms : List Node}

theorem alike_intro (kind : NodeKind) (text : String) (line place : Nat)
    (h : List.Forall₂ Alike ns ms) : Alike ⟨kind, text, line, ns⟩ ⟨kind, text, place, ms⟩ :=
  .intro (by rw [Texts]; split <;> rfl) trivial h

/-- Trees that are alike are the same up to their lines. -/
theorem Alike.withoutLines_eq (h : Alike n m) : n.withoutLines = m.withoutLines := by
  apply Nodes.induct (P := fun n m => n.withoutLines = m.withoutLines) ?_ h
  intro kind text twin line place children others ht _ hc
  have htext : text = twin := by
    rw [Texts] at ht
    split at ht <;> exact ht
  have hchildren : children.map withoutLines = others.map withoutLines :=
    rel_map_eq hc fun _ _ hw => hw
  rw [withoutLines, withoutLines, withoutLinesAll_eq_map, withoutLinesAll_eq_map, htext,
    hchildren]

end Node

/-- What is built in step is the same up to lines. -/
theorem Built.alike {tokens : List Token} {s t : Stretch} (h : Built tokens s t) :
    List.Forall₂ Node.Alike s.nodes t.nodes := by
  induction h with
  | quiet => exact .nil
  | append _ _ ih iho => exact List.rel_append ih iho
  | node _ _ ih => exact .cons (Node.alike_intro _ _ _ _ ih) .nil
  | failure => exact .cons (Node.alike_intro _ _ _ _ .nil) .nil

end BlockLang
