import BlockLang.Execution.Expression
import BlockLang.Input

/-! # States

A state holds the store, the level of the innermost open block, what has been
printed and reported so far, and the supply of input. A simple
statement that fails reports one error and leaves the store as it was; a
declaration reports one for each declarator that fails.
-/
namespace BlockLang

structure State where
  store : Store
  level : Nat
  output : Array String
  errors : Array RuntimeError
  supply : Supply

namespace State

def start (supply : Supply) : State :=
  ⟨.empty, 0, #[], #[], supply⟩

/-- Forgets all bindings, and nothing else. -/
def restart (state : State) : State :=
  { state with store := .empty, level := 0 }

def lookup? (state : State) (name : String) : Option Binding :=
  state.store.visible? name state.level

def report (state : State) (error : RuntimeError) : State :=
  { state with errors := state.errors.push error }

def print (state : State) (value : Value) : State :=
  { state with output := state.output.push value.print }

def enter (state : State) : State :=
  { state with level := state.level + 1 }

/-- Closes the innermost block and forgets its bindings. -/
def leave (state : State) : State :=
  { state with
    level := state.level - 1
    store := state.store.upTo (state.level - 1) }

def slotOf (state : State) (node : Node) : Except RuntimeError Slot :=
  state.store.slotOf state.level node

def evaluate (state : State) (node : Node) : Except RuntimeError Value :=
  state.store.evaluate state.level node

def evaluateWithin (state : State) (node : Node) : Except RuntimeError Value :=
  state.store.evaluateWithin state.level node

def put (state : State) (slot : Slot) (value : Value) : State :=
  { state with store := state.store.assign slot.name state.level (some value) }

/-- Puts a value into a slot of a kind that takes it over. -/
def putAdapted (state : State) (slot : Slot) (line : Nat) (value : Value) :
    Except RuntimeError State :=
  match value.adapt? slot.kind with
  | some adapted => .ok (state.put slot adapted)
  | none => .error ⟨.unassignable value.kind slot.kind slot.name, line⟩

/-- The state after a step that may fail. -/
def settle (state : State) : Except RuntimeError State → State
  | .ok next => next
  | .error error => state.report error

/-- Carries out an assignment; its target is located before its source is evaluated. -/
def assign (state : State) (stmt : Node) : Except RuntimeError State :=
  match stmt.children with
  | [target, source] => do
    let slot ← state.slotOf target
    let value ← state.evaluate source
    state.putAdapted slot stmt.line value
  | _ => .error (.unexpected stmt)

def write (state : State) (stmt : Node) : State :=
  match state.evaluateWithin stmt with
  | .ok value => state.print value
  | .error error => state.report error

/-- Reads one input into a variable, once the variable has been located. -/
def read (state : State) (stmt : Node) : State :=
  match stmt.content? with
  | none => state.report (.unexpected stmt)
  | some target =>
    match state.slotOf target with
    | .error error => state.report error
    | .ok slot =>
      let (input, supply) := state.supply.next
      let fed : State := { state with supply }
      match Value.ofInput? slot.kind input with
      | some value => fed.put slot value
      | none => fed.report ⟨.invalidInput input slot.kind target.text, stmt.line⟩

/-- Declares the cells of an array whose own binding is `header`. -/
def declareCells (store : Store) (header : Binding) (count : Nat) : Store :=
  (List.range count).foldl (fun store index =>
    store.insert { header with name := cellName header.name index, size := none }) store

theorem declareCells_succ (store : Store) (header : Binding) (count : Nat) :
    declareCells store header (count + 1) =
      (declareCells store header count).insert
        { header with name := cellName header.name count, size := none } := by
  rw [declareCells, List.range_succ, List.foldl_append]
  rfl

/-- Declares an array; nothing is declared if its size is refused. -/
def declareArray (state : State) (kind : Kind) (item subscript : Node) :
    Except RuntimeError State := do
  let value ← state.evaluateWithin subscript
  let size ← value.checkSize subscript.line
  let header : Binding := ⟨item.text, kind, item.line, state.level, none, some size⟩
  .ok { state with store := declareCells (state.store.insert header) header size }

def declareScalar (state : State) (kind : Kind) (item : Node) : State :=
  { state with store := state.store.insert ⟨item.text, kind, item.line, state.level, none, none⟩ }

def putInitial (state : State) (kind : Kind) (item initializer : Node) :
    Except RuntimeError State := do
  let value ← state.evaluateWithin initializer
  state.putAdapted ⟨item.text, kind⟩ item.line value

/-- Carries out one declarator. A variable whose initializer fails stays declared. -/
def declare (state : State) (kind : Kind) (item : Node) : State :=
  if (state.store.atLevel? item.text state.level).isSome then
    state.report ⟨.redeclared item.text, item.line⟩
  else
    match item.part? .subscript, item.part? .initializer with
    | some _, some _ => state.report ⟨.arrayInitializer item.text, item.line⟩
    | some subscript, none => state.settle (state.declareArray kind item subscript)
    | none, none => state.declareScalar kind item
    | none, some initializer =>
      let declared := state.declareScalar kind item
      declared.settle (declared.putInitial kind item initializer)

/-- Tests a condition; one that cannot be evaluated is reported and does not hold. -/
def test (state : State) (condition : Node) : Bool × State :=
  match state.evaluateWithin condition with
  | .ok (.bool holds) => (holds, state)
  | .ok value => (false, state.report ⟨.conditionKind value.kind, condition.line⟩)
  | .error error => (false, state.report error)

end State
end BlockLang
