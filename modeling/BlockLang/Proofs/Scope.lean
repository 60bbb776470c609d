import BlockLang.Execution.Expression
import Mathlib.Logic.Function.Basic

/-! # Frames

Lexical scoping as the language describes it. Every open block has a frame of its own,
which says what the names that are declared in it stand for: a variable, or an array
with all its cells. A name stands for what the innermost frame that has it says.
-/
namespace BlockLang.Scope

inductive Entity where
  | scalar (kind : Kind) (value : Option Value)
  | array (kind : Kind) (cells : List (Option Value))

namespace Entity

def value? : Entity → Option Nat → Option Value
  | .scalar _ value, none => value
  | .array _ cells, some index => cells[index]?.join
  | _, _ => none

def put (value : Value) : Option Nat → Entity → Entity
  | none, .scalar kind _ => .scalar kind (some value)
  | some index, .array kind cells => .array kind (cells.set index (some value))
  | _, entity => entity

end Entity

abbrev Frame := String → Option Entity

/-- The frames of the open blocks, innermost first. -/
abbrev Frames := List Frame

structure Spot where
  name : String
  index : Option Nat
  kind : Kind

def Spot.wording (spot : Spot) : String :=
  match spot.index with
  | none => spot.name
  | some index => cellName spot.name index

namespace Frames

/-- What a name stands for in the innermost frame that has it. -/
def lookup? (frames : Frames) (name : String) : Option Entity :=
  frames.findSome? fun frame => frame name

def declares (frames : Frames) (name : String) : Bool :=
  frames.head?.any fun frame => (frame name).isSome

def declare (name : String) (entity : Entity) : Frames → Frames
  | [] => []
  | frame :: frames => Function.update frame name (some entity) :: frames

def modify (name : String) (change : Entity → Entity) : Frames → Frames
  | [] => []
  | frame :: frames =>
    match frame name with
    | some entity => Function.update frame name (some (change entity)) :: frames
    | none => frame :: modify name change frames

def enter (frames : Frames) : Frames :=
  (fun _ => none) :: frames

/-- Drops the innermost frame; the outermost one stays. -/
def leave : Frames → Frames
  | _ :: frame :: frames => frame :: frames
  | frames => frames

def put (frames : Frames) (spot : Spot) (value : Value) : Frames :=
  frames.modify spot.name (Entity.put value spot.index)

def fetch (frames : Frames) (line : Nat) (spot : Spot) : Except RuntimeError Value :=
  match (frames.lookup? spot.name).bind (·.value? spot.index) with
  | some value => .ok value
  | none => .error ⟨.uninitialized spot.name, line⟩

mutual

def evaluate (frames : Frames) : Node → Except RuntimeError Value
  | ⟨kind, text, line, children⟩ =>
    match kind, children with
    | .intLiteral, _ =>
      match Numeral.integer? text.toList with
      | some n => .ok (.int n)
      | none => .error ⟨.literalRange text, line⟩
    | .realLiteral, _ =>
      match Binary64.ofText? text.toList with
      | some x => .ok (.real x)
      | none => .error ⟨.unexpected .realLiteral, line⟩
    | .boolLiteral, _ => .ok (.bool (text == "true"))
    | .stringLiteral, _ => .ok (.text text)
    | .identifier, children => do
      let spot ← spotIn frames text line children
      frames.fetch line spot
    | .arithmetic, [left, right] =>
      match Operator.ofSpelling? text with
      | some op => do
        let l ← evaluate frames left
        let r ← evaluate frames right
        Value.arithmetic op line left.line right.line l r
      | none => .error ⟨.unexpected .arithmetic, line⟩
    | .comparison, [left, right] => do
      let l ← (← evaluate frames left).decimal left.line
      let r ← (← evaluate frames right).decimal right.line
      match Value.compare? text l r with
      | some holds => .ok (.bool holds)
      | none => .error ⟨.unexpected .comparison, line⟩
    | kind, _ => .error ⟨.unexpected kind, line⟩

/-- What the name `name` on `line` denotes if its node has the given children. -/
def spotIn (frames : Frames) (name : String) (line : Nat) :
    List Node → Except RuntimeError Spot
  | [] =>
    match frames.lookup? name with
    | none => .error ⟨.undeclared name, line⟩
    | some (.scalar kind _) => .ok ⟨name, none, kind⟩
    | some (.array ..) => .error ⟨.unindexed name, line⟩
  | ⟨.subscript, _, subscriptLine, [index]⟩ :: _ =>
    match frames.lookup? name with
    | none => .error ⟨.undeclared name, line⟩
    | some (.scalar ..) => .error ⟨.notAnArray name, line⟩
    | some (.array kind cells) => do
      let value ← evaluate frames index
      let number ← value.checkIndex name cells.length subscriptLine
      .ok ⟨name, some number, kind⟩
  | node :: _ => .error (.unexpected node)

end

def spotOf (frames : Frames) (node : Node) : Except RuntimeError Spot :=
  frames.spotIn node.text node.line node.children

def evaluateWithin (frames : Frames) (node : Node) : Except RuntimeError Value :=
  match node.content? with
  | some content => frames.evaluate content
  | none => .error (.unexpected node)

end Frames
end BlockLang.Scope
