import BlockLang.Tree

/-! # Outlines

An outline has one line per node, in pre-order, indented four spaces per level.
-/
namespace BlockLang.Node

/-- The line of one node: its kind, and its text in brackets unless it is empty. -/
def heading (node : Node) : String :=
  if node.text.isEmpty then node.kind.name else node.kind.name ++ " [" ++ node.text ++ "]"

def indent (depth : Nat) : String :=
  String.ofList (List.replicate (4 * depth) ' ')

mutual

def outlineAt (depth : Nat) : Node → String
  | ⟨kind, text, line, children⟩ =>
    indent depth ++ heading ⟨kind, text, line, children⟩ ++ "\n" ++
      outlinesAt (depth + 1) children

def outlinesAt (depth : Nat) : List Node → String
  | [] => ""
  | node :: nodes => node.outlineAt depth ++ outlinesAt depth nodes

end

def outline (node : Node) : String :=
  node.outlineAt 0

end BlockLang.Node
