import BlockLang.Execution.State

/-! # The machine

A machine is a state and a list of tasks that remain to be done. One step takes
the first task off the list, changes the state and puts the tasks that follow
from it in front of the others. A body runs one level deeper than its statement
and its bindings are forgotten each time it ends; the header of a `for` has a
level of its own around them.
-/
namespace BlockLang

inductive Task where
  | execute (stmt : Node)
  | skip (stmt : Node)
  | declare (kind : Kind) (item : Node)
  | leave
  | whileLoop (condition body : Node)
  | forLoop (condition step body : Node)
  | forStep (condition step body : Node)

namespace Task

def body (block : Node) : List Task :=
  block.children.map .execute ++ [.leave]

end Task

namespace State

def branch (state : State) : Option Node → State × List Task
  | some block => (state.enter, Task.body block)
  | none => (state, [])

def conditional (state : State) (stmt : Node) : State × List Task :=
  match stmt.part? .condition with
  | none => (state.report (.unexpected stmt), [])
  | some condition =>
    match state.test condition with
    | (true, tested) => tested.branch (stmt.part? .block)
    | (false, tested) => tested.branch ((stmt.part? .alternative).bind (·.part? .block))

def whileLoop (state : State) (stmt : Node) : State × List Task :=
  match stmt.part? .condition, stmt.part? .block with
  | some condition, some body => (state, [.whileLoop condition body])
  | _, _ => (state.report (.unexpected stmt), [])

/-- Begins a loop in the block of its header, which has been entered. -/
def beginFor (state : State) (init condition step body : Node) : State × List Task :=
  match init.content? with
  | none => (state.report (.unexpected init), [])
  | some first =>
    match state.assign first with
    | .error error => (state.report error, [])
    | .ok begun =>
      match step.content? with
      | none => (begun.report (.unexpected step), [])
      | some next => (begun, [.forLoop condition next body])

def forLoop (state : State) (stmt : Node) : State × List Task :=
  match stmt.part? .init, stmt.part? .condition, stmt.part? .step, stmt.part? .block with
  | some init, some condition, some step, some body =>
    let (begun, tasks) := state.enter.beginFor init condition step body
    (begun, tasks ++ [.leave])
  | _, _, _, _ => (state.report (.unexpected stmt), [])

def execute (state : State) (stmt : Node) : State × List Task :=
  match stmt.kind with
  | .declaration =>
    match Kind.ofName? stmt.text with
    | none => (state.report (.unexpected stmt), [])
    | some kind => (state, stmt.children.map (.declare kind))
  | .assignment => (state.settle (state.assign stmt), [])
  | .conditional => state.conditional stmt
  | .whileLoop => state.whileLoop stmt
  | .forLoop => state.forLoop stmt
  | .read => (state.read stmt, [])
  | .write => (state.write stmt, [])
  | _ => (state.report (.unexpected stmt), [])

/-- Performs one task, and says which tasks follow from it. -/
def perform (state : State) : Task → State × List Task
  | .execute stmt => state.execute stmt
  | .skip stmt => (state.report ⟨.skipped, stmt.line⟩, [])
  | .declare kind item =>
    if item.kind = .declarator then
      (state.declare kind item, [])
    else
      (state.report (.unexpected item), [])
  | .leave => (state.leave, [])
  | .whileLoop condition body =>
    match state.test condition with
    | (true, tested) => (tested.enter, Task.body body ++ [.whileLoop condition body])
    | (false, tested) => (tested, [])
  | .forLoop condition step body =>
    match state.test condition with
    | (true, tested) => (tested.enter, Task.body body ++ [.forStep condition step body])
    | (false, tested) => (tested, [])
  | .forStep condition step body =>
    match state.assign step with
    | .ok stepped => (stepped, [.forLoop condition step body])
    | .error error => (state.report error, [])

end State

structure Machine where
  state : State
  tasks : List Task

namespace Machine

def after (state : State) (task : Task) (tasks : List Task) : Machine :=
  let (state, next) := state.perform task
  ⟨state, next ++ tasks⟩

theorem after_eq (state : State) (task : Task) (tasks : List Task) :
    after state task tasks = ⟨(state.perform task).1, (state.perform task).2 ++ tasks⟩ :=
  rfl

/-- One step, unless nothing remains to be done. -/
def step? : Machine → Option Machine
  | ⟨_, []⟩ => none
  | ⟨state, task :: tasks⟩ => some (after state task tasks)

def run : (count : Nat) → Machine → Machine
  | 0, machine => machine
  | _ + 1, ⟨state, []⟩ => ⟨state, []⟩
  | count + 1, ⟨state, task :: tasks⟩ => run count (after state task tasks)

theorem run_succ_of_step? {machine next : Machine} (count : Nat)
    (h : machine.step? = some next) : run (count + 1) machine = run count next := by
  obtain ⟨state, tasks⟩ := machine
  cases tasks with
  | nil => cases h
  | cons task tasks =>
    cases h
    rfl

theorem run_of_step?_eq_none {machine : Machine} (count : Nat) (h : machine.step? = none) :
    run count machine = machine := by
  obtain ⟨state, tasks⟩ := machine
  cases tasks with
  | nil => cases count <;> rfl
  | cons task tasks => cases h

theorem run_add (machine : Machine) (first more : Nat) :
    machine.run (first + more) = (machine.run first).run more := by
  induction first generalizing machine with
  | zero => rw [Nat.zero_add, run]
  | succ first ih =>
    cases hstep : machine.step? with
    | none =>
      rw [run_of_step?_eq_none _ hstep, run_of_step?_eq_none _ hstep,
        run_of_step?_eq_none _ hstep]
    | some next =>
      rw [Nat.add_right_comm, run_succ_of_step? _ hstep, run_succ_of_step? _ hstep, ih]

/-- What each step preserves, a run preserves. -/
theorem run_induction {P : Machine → Prop} {machine : Machine}
    (hstep : ∀ state task tasks, P ⟨state, task :: tasks⟩ → P (after state task tasks))
    (count : Nat) (h : P machine) : P (machine.run count) := by
  induction count generalizing machine with
  | zero => exact h
  | succ count ih =>
    obtain ⟨state, tasks⟩ := machine
    cases tasks with
    | nil => exact h
    | cons task tasks => exact ih (hstep state task tasks h)

def ofStatement (state : State) (stmt : Node) : Machine :=
  ⟨state, [.execute stmt]⟩

/-- The machine that is about to run a program without any bindings. Statements of the program
that contain an error leaf are skipped. -/
def ofProgram (state : State) (program : Node) : Machine :=
  ⟨state.restart, program.children.map fun stmt =>
    if stmt.hasError then .skip stmt else .execute stmt⟩

/-- Whether the next step takes a value that the feeder does not have yet. -/
def awaitsInput (machine : Machine) : Bool :=
  match machine.tasks with
  | .execute stmt :: _ =>
    stmt.kind == .read && machine.state.supply.isExhausted &&
      stmt.content?.any fun target => (machine.state.slotOf target).isOk
  | _ => false

def offer (machine : Machine) (value : String) : Machine :=
  { machine with state := { machine.state with supply := machine.state.supply.offer value } }

/-- More steps than any machine takes that is waited for. -/
def patience : Nat :=
  0x4000000000000000

def finish (machine : Machine) : State :=
  (machine.run patience).state

end Machine
end BlockLang
