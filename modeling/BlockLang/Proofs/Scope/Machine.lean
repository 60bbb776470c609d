import BlockLang.Execution.Machine
import BlockLang.Proofs.Scope

/-! # Running on frames

A program is run on frames. Each body has a frame of its own while it runs, from its
first statement to its last, and so has the header of a `for` around all runs of its
body. Tasks are those of the store, and what they do is said again for frames.
-/
namespace BlockLang.Scope

structure State where
  frames : Frames
  output : Array String
  errors : Array RuntimeError
  supply : Supply

namespace State

def start (output : Array String) (errors : Array RuntimeError) (supply : Supply) : State :=
  ⟨Frames.enter [], output, errors, supply⟩

def report (state : State) (error : RuntimeError) : State :=
  { state with errors := state.errors.push error }

def print (state : State) (value : Value) : State :=
  { state with output := state.output.push value.print }

def enter (state : State) : State :=
  { state with frames := state.frames.enter }

def leave (state : State) : State :=
  { state with frames := state.frames.leave }

def bind (state : State) (name : String) (entity : Entity) : State :=
  { state with frames := state.frames.declare name entity }

def put (state : State) (spot : Spot) (value : Value) : State :=
  { state with frames := state.frames.put spot value }

def putAdapted (state : State) (spot : Spot) (line : Nat) (value : Value) :
    Except RuntimeError State :=
  match value.adapt? spot.kind with
  | some adapted => .ok (state.put spot adapted)
  | none => .error ⟨.unassignable value.kind spot.kind spot.wording, line⟩

def settle (state : State) : Except RuntimeError State → State
  | .ok next => next
  | .error error => state.report error

def assign (state : State) : Node → Except RuntimeError State
  | ⟨_, _, line, [target, source]⟩ => do
    let spot ← state.frames.spotOf target
    let value ← state.frames.evaluate source
    state.putAdapted spot line value
  | stmt => .error (.unexpected stmt)

def write (state : State) (stmt : Node) : State :=
  match state.frames.evaluateWithin stmt with
  | .ok value => state.print value
  | .error error => state.report error

def read (state : State) (stmt : Node) : State :=
  match stmt.content? with
  | none => state.report (.unexpected stmt)
  | some target =>
    match state.frames.spotOf target with
    | .error error => state.report error
    | .ok spot =>
      let (input, supply) := state.supply.next
      let fed : State := { state with supply }
      match Value.ofInput? spot.kind input with
      | some value => fed.put spot value
      | none => fed.report ⟨.invalidInput input spot.kind target.text, stmt.line⟩

def declareArray (state : State) (kind : Kind) (item subscript : Node) :
    Except RuntimeError State := do
  let value ← state.frames.evaluateWithin subscript
  let size ← value.checkSize subscript.line
  .ok (state.bind item.text (.array kind (List.replicate size none)))

/-- The variable is in scope in its own initializer, without a value. -/
def declareInitialized (state : State) (kind : Kind) (item initializer : Node) : State :=
  let declared := state.bind item.text (.scalar kind none)
  declared.settle do
    let value ← declared.frames.evaluateWithin initializer
    declared.putAdapted ⟨item.text, none, kind⟩ item.line value

def declare (state : State) (kind : Kind) (item : Node) : State :=
  if state.frames.declares item.text then
    state.report ⟨.redeclared item.text, item.line⟩
  else
    match item.part? .subscript, item.part? .initializer with
    | some _, some _ => state.report ⟨.arrayInitializer item.text, item.line⟩
    | some subscript, none => state.settle (state.declareArray kind item subscript)
    | none, none => state.bind item.text (.scalar kind none)
    | none, some initializer => state.declareInitialized kind item initializer

def test (state : State) (condition : Node) : Bool × State :=
  match state.frames.evaluateWithin condition with
  | .ok (.bool holds) => (holds, state)
  | .ok value => (false, state.report ⟨.conditionKind value.kind, condition.line⟩)
  | .error error => (false, state.report error)

def runBody (state : State) (body : Node) (tasks : List Task) : State × List Task :=
  (state.enter, Task.body body ++ tasks)

def branch (state : State) : Option Node → State × List Task
  | some body => state.runBody body []
  | none => (state, [])

def loop (state : State) (condition body : Node) (again : Task) : State × List Task :=
  match state.test condition with
  | (true, tested) => tested.runBody body [again]
  | (false, tested) => (tested, [])

def conditional (state : State) (stmt : Node) : State × List Task :=
  match stmt.part? .condition with
  | none => (state.report (.unexpected stmt), [])
  | some condition =>
    let (holds, tested) := state.test condition
    tested.branch
      (if holds then stmt.part? .block else (stmt.part? .alternative).bind (·.part? .block))

def whileLoop (state : State) (stmt : Node) : State × List Task :=
  match stmt.part? .condition, stmt.part? .block with
  | some condition, some body => (state, [.whileLoop condition body])
  | _, _ => (state.report (.unexpected stmt), [])

/-- Carries out the initial assignment of a `for`, which decides whether there is a loop. -/
def beginFor (state : State) (init condition step body : Node) : State × List Task :=
  match init.content?, step.content? with
  | some first, some next =>
    match state.assign first with
    | .ok begun => (begun, [.forLoop condition next body])
    | .error error => (state.report error, [])
  | _, _ => (state.report (.unexpected init), [])

def forLoop (state : State) (stmt : Node) : State × List Task :=
  match stmt.part? .init, stmt.part? .condition, stmt.part? .step, stmt.part? .block with
  | some init, some condition, some step, some body =>
    let (begun, tasks) := state.enter.beginFor init condition step body
    (begun, tasks ++ [.leave])
  | _, _, _, _ => (state.report (.unexpected stmt), [])

def execute (state : State) (stmt : Node) : State × List Task :=
  match stmt.kind with
  | .declaration =>
    match Kind.ofName? stmt.text with
    | none => (state.report (.unexpected stmt), [])
    | some kind => (state, stmt.children.map (.declare kind))
  | .assignment => (state.settle (state.assign stmt), [])
  | .conditional => state.conditional stmt
  | .whileLoop => state.whileLoop stmt
  | .forLoop => state.forLoop stmt
  | .read => (state.read stmt, [])
  | .write => (state.write stmt, [])
  | _ => (state.report (.unexpected stmt), [])

def perform (state : State) : Task → State × List Task
  | .execute stmt => state.execute stmt
  | .skip stmt => (state.report ⟨.skipped, stmt.line⟩, [])
  | .declare kind item => (state.declare kind item, [])
  | .leave => (state.leave, [])
  | .whileLoop condition body => state.loop condition body (.whileLoop condition body)
  | .forLoop condition step body => state.loop condition body (.forStep condition step body)
  | .forStep condition step body =>
    match state.assign step with
    | .ok stepped => (stepped, [.forLoop condition step body])
    | .error error => (state.report error, [])

end State

structure Machine where
  state : State
  tasks : List Task

namespace Machine

def run : (count : Nat) → Machine → Machine
  | 0, machine => machine
  | _ + 1, ⟨state, []⟩ => ⟨state, []⟩
  | count + 1, ⟨state, task :: tasks⟩ =>
    let (state, next) := state.perform task
    run count ⟨state, next ++ tasks⟩

theorem run_cons (count : Nat) (state : State) (task : Task) (tasks : List Task) :
    run (count + 1) ⟨state, task :: tasks⟩ =
      run count ⟨(state.perform task).1, (state.perform task).2 ++ tasks⟩ :=
  rfl

def ofProgram (state : State) (program : Node) : Machine :=
  ⟨state, program.children.map fun stmt =>
    if stmt.hasError then .skip stmt else .execute stmt⟩

end Machine
end BlockLang.Scope
