import BlockLang.Proofs.Shape.Skipping
import BlockLang.Proofs.Store.Slots
import Mathlib.Logic.Relation

/-! # Changes

A task that closes no block does two things to bindings only: it puts a value of the right
kind into what a node denotes, and it declares a name that has no binding in the block. It
does so in its own block, or else it enters one that the tasks that follow from it close
again.
-/
namespace BlockLang
open Node
open Scope (IsName key isName_of_spells)

namespace Node

theorem isName_of_isExpression {n : Node} (h : n.IsExpression) (hk : n.kind = .identifier) :
    IsName n.text := by
  cases h with
  | scalar hn => exact isName_of_spells hn
  | cell hn => exact isName_of_spells hn
  | _ => cases hk

theorem isName_of_isTarget {target : Node} (h : target.IsTarget) : IsName target.text := by
  obtain ⟨h⟩ := h
  exact isName_of_isExpression h rfl

end Node

namespace State

/-- One change of the bindings in the innermost block or outside of it. -/
inductive Change (declares : Bool) (state : State) : State → Prop
  | quiet {next : State} :
    next.store = state.store → next.level = state.level → Change declares state next
  | put {node : Node} {header : Binding} {index : Option Nat} {value : Value} :
    IsName node.text → state.store.Denotes state.level node header index →
    value.kind = header.kind →
    Change declares state (state.put ⟨key node.text index, header.kind⟩ value)
  | declare {header : Binding} :
    declares = true → IsName header.name → header.level = state.level → header.value = none →
    state.store.atLevel? header.name state.level = none →
    Change declares state { state with store := state.store.declare header }

def Changes (declares : Bool) : State → State → Prop :=
  Relation.ReflTransGen (Change declares)

variable {declares : Bool} {state next : State}

theorem Change.level_eq (h : state.Change declares next) : next.level = state.level := by
  cases h with
  | quiet _ hl => exact hl
  | put => rfl
  | declare => rfl

theorem Changes.level_eq (h : state.Changes declares next) : next.level = state.level := by
  induction h with
  | refl => rfl
  | tail _ hc ih => exact hc.level_eq.trans ih

theorem changes_quiet (hs : next.store = state.store) (hl : next.level = state.level) :
    state.Changes declares next :=
  .single (.quiet hs hl)

theorem changes_report (error : RuntimeError) : state.Changes declares (state.report error) :=
  changes_quiet rfl rfl

theorem changes_settle {result : Except RuntimeError State}
    (h : ∀ next, result = .ok next → state.Change declares next) :
    state.Changes declares (state.settle result) := by
  cases result with
  | ok next => exact .single (h next rfl)
  | error error => exact changes_report error

/-! ## Scoped stores -/

theorem fresh_of_atLevel? {name : String} {level : Nat}
    (h : state.store.atLevel? name level = none) (hs : state.store.Ordered) :
    ∀ other ∈ state.store, other.name = name → other.level ≠ level :=
  fun other ho hn => Store.atLevel?_eq_none.1 h other (hs.mem_bindingsOf.2 ⟨ho, hn⟩)

theorem Change.scoped (h : state.Change declares next) (hs : state.store.Scoped state.level) :
    next.store.Scoped next.level := by
  cases h with
  | quiet hstore hl => rwa [hstore, hl]
  | put => exact hs.assign _ _ _
  | declare _ hn hl hv hfresh =>
    refine hs.declare hn (Nat.le_of_eq hl) hv ?_
    rw [hl]
    exact fresh_of_atLevel? hfresh hs.ordered

theorem Changes.scoped (h : state.Changes declares next)
    (hs : state.store.Scoped state.level) : next.store.Scoped next.level := by
  induction h with
  | refl => exact hs
  | tail _ hc ih => exact hc.scoped ih

theorem scoped_leave (hs : state.store.Scoped state.level) :
    state.leave.store.Scoped state.leave.level :=
  hs.upTo _

/-! ## Simple statements -/

theorem change_put {target : Node} {slot : Slot} {value : Value} (ht : target.IsTarget)
    (hs : state.slotOf target = .ok slot) (hk : value.kind = slot.kind) :
    state.Change declares (state.put slot value) := by
  obtain ⟨header, index, hd, rfl⟩ := Store.slotOf_eq_ok hs
  exact .put (isName_of_isTarget ht) hd hk

theorem change_assign {stmt : Node} (h : stmt.IsAssignment) (hn : state.assign stmt = .ok next) :
    state.Change declares next := by
  obtain ⟨ht, -⟩ := h
  obtain ⟨slot, adapted, rfl, hk, target, source, hchildren, hslot⟩ := assign_eq_ok hn
  cases hchildren
  exact change_put ht hslot hk

theorem changes_write (stmt : Node) : state.Changes declares (state.write stmt) := by
  unfold write
  split
  · exact changes_quiet rfl rfl
  · exact changes_report _

theorem changes_read {line : Nat} {target : Node} (ht : target.IsTarget) :
    state.Changes declares (state.read ⟨.read, "read", line, [target]⟩) := by
  have hc : content? ⟨.read, "read", line, [target]⟩ = some target := by
    obtain ⟨_⟩ := ht
    rfl
  rw [State.read.eq_def, hc]
  dsimp only
  split
  · exact changes_report _
  · rename_i slot hslot
    let fed : State := { state with supply := state.supply.next.2 }
    have hfed : state.Changes declares fed := changes_quiet rfl rfl
    split
    · rename_i value hvalue
      have hput : fed.Change declares (fed.put slot value) :=
        change_put ht hslot (Value.kind_of_ofInput? hvalue)
      exact hfed.tail hput
    · exact hfed.trans (changes_report _)

theorem store_test (condition : Node) : (state.test condition).2.store = state.store := by
  unfold test
  split <;> rfl

theorem level_test (condition : Node) : (state.test condition).2.level = state.level := by
  unfold test
  split <;> rfl

/-! ## Declarations -/

theorem change_declareArray {kind : Kind} {item subscript : Node} (hname : IsName item.text)
    (hfresh : state.store.atLevel? item.text state.level = none)
    (hn : state.declareArray kind item subscript = .ok next) : state.Change true next := by
  obtain ⟨size, rfl⟩ := declareArray_eq_ok hn
  exact @Change.declare true state ⟨item.text, kind, item.line, state.level, none, some size⟩ rfl
    hname rfl rfl hfresh

theorem change_declareScalar {item : Node} (kind : Kind) (hname : IsName item.text)
    (hfresh : state.store.atLevel? item.text state.level = none) :
    state.Change true (state.declareScalar kind item) :=
  @Change.declare true state ⟨item.text, kind, item.line, state.level, none, none⟩ rfl hname rfl
    rfl hfresh

/-- What has just been declared is visible. -/
theorem visible?_declareScalar {item : Node} (kind : Kind) (hname : IsName item.text)
    (hs : state.store.Scoped state.level)
    (hfresh : state.store.atLevel? item.text state.level = none) :
    (state.declareScalar kind item).store.visible? item.text state.level =
      some ⟨item.text, kind, item.line, state.level, none, none⟩ := by
  have hscoped := (change_declareScalar kind hname hfresh).scoped hs
  refine hscoped.ordered.visible?_eq_some.2 ⟨Store.mem_insert.2 (.inl rfl), rfl, Nat.le_refl _, ?_⟩
  exact fun _ _ _ hl => hl

theorem change_putInitial {kind : Kind} {item initializer : Node} {header : Binding}
    (hname : IsName item.text)
    (hv : state.store.visible? item.text state.level = some header) (hs : header.size = none)
    (hk : header.kind = kind) (hn : state.putInitial kind item initializer = .ok next) :
    state.Change declares next := by
  subst hk
  obtain ⟨adapted, rfl, hkind⟩ := putInitial_eq_ok hn
  let target : Node := .leaf .identifier item.text item.line
  have hd : state.store.Denotes state.level target header none := .variable rfl hv hs
  exact @Change.put declares state target header none adapted hname hd hkind

theorem changes_declare {kind : Kind} {item : Node} (h : item.IsDeclarator)
    (hs : state.store.Scoped state.level) : state.Changes true (state.declare kind item) := by
  have hname : IsName item.text := by
    obtain ⟨_, _, hn, -⟩ := h
    exact isName_of_spells hn
  rw [declare]
  split
  · exact changes_report _
  · rename_i hnot
    have hfresh : state.store.atLevel? item.text state.level = none := by
      simpa using hnot
    have hscalar : state.Change true (state.declareScalar kind item) :=
      change_declareScalar kind hname hfresh
    split
    · exact changes_report _
    · exact changes_settle fun next hn => change_declareArray hname hfresh hn
    · exact .single hscalar
    · refine Relation.ReflTransGen.trans (.single hscalar) (changes_settle fun next hn => ?_)
      exact change_putInitial hname (visible?_declareScalar kind hname hs hfresh) rfl rfl hn

/-! ## Tasks -/

end State

namespace Task

/-- Whether a task may add bindings to the block in which it is performed. -/
def declares : Task → Bool
  | .execute stmt => stmt.kind == .declaration
  | .declare .. => true
  | _ => false

def closes : Task → Bool
  | .leave => true
  | _ => false

theorem eq_leave {task : Task} (h : task.closes = true) : task = .leave := by
  cases task with
  | leave => rfl
  | _ => cases h

end Task

namespace State

variable {state next : State} {declares : Bool}

/-- What a task that closes no block makes of a state, and which tasks follow. Either these
close no block and are performed in the same one, or a block has been entered that one of them
closes. -/
inductive Step (state : State) (declares : Bool) : State × List Task → Prop
  | stay {next : State} {tasks : List Task} : state.Changes declares next →
    (∀ task ∈ tasks, task.closes = false ∧ (task.declares = false ∨ declares = true)) →
    Step state declares (next, tasks)
  | enter {next : State} {inner tasks : List Task} : state.enter.Changes false next →
    (∀ task ∈ inner, task.closes = false) →
    (∀ task ∈ tasks, task.closes = false ∧ task.declares = false) →
    Step state declares (next, inner ++ .leave :: tasks)

theorem Step.nil (h : state.Changes declares next) : state.Step declares (next, []) :=
  .stay h (List.forall_mem_nil _)

theorem step_report (error : RuntimeError) : state.Step declares (state.report error, []) :=
  .nil (changes_report error)

/-- Tasks of a body that is entered, in front of tasks of the block around it. -/
theorem step_body (block : Node) {tasks : List Task} (hs : next.store = state.store)
    (hl : next.level = state.level)
    (ht : ∀ task ∈ tasks, task.closes = false ∧ task.declares = false) :
    state.Step declares (next.enter, Task.body block ++ tasks) := by
  rw [Task.body, List.append_assoc]
  exact .enter (changes_quiet hs (congrArg Nat.succ hl)) (List.forall_mem_map.2 fun _ _ => rfl) ht

theorem step_branch (branch : Option Node) (hs : next.store = state.store)
    (hl : next.level = state.level) : state.Step declares (next.branch branch) := by
  cases branch with
  | none => exact .nil (changes_quiet hs hl)
  | some block =>
    rw [branch, ← List.append_nil (Task.body block)]
    exact step_body block hs hl (List.forall_mem_nil _)

theorem step_conditional (stmt : Node) : state.Step declares (state.conditional stmt) := by
  cases hc : stmt.part? .condition with
  | none =>
    rw [conditional, hc]
    exact step_report _
  | some condition =>
    rw [conditional_eq hc]
    exact step_branch _ (store_test condition) (level_test condition)

theorem step_whileLoop (stmt : Node) : state.Step declares (state.whileLoop stmt) := by
  unfold whileLoop
  split
  · exact .stay .refl (List.forall_mem_singleton.2 ⟨rfl, .inl rfl⟩)
  · exact step_report _

theorem changes_beginFor {init condition step body : Node}
    (hi : Wraps .init "" IsAssignment init) :
    state.Changes declares (state.beginFor init condition step body).1 ∧
      ∀ task ∈ (state.beginFor init condition step body).2, task.closes = false := by
  obtain ⟨first, hfirst, hassign⟩ := content?_of_wraps hi isError_of_isAssignment
  rw [beginFor, hfirst]
  dsimp only
  split
  · exact ⟨changes_report _, List.forall_mem_nil _⟩
  · rename_i begun hbegun
    have hchange : state.Changes declares begun := .single (change_assign hassign hbegun)
    split
    · exact ⟨hchange.trans (changes_report _), List.forall_mem_nil _⟩
    · exact ⟨hchange, List.forall_mem_singleton.2 rfl⟩

theorem step_forLoop {stmt : Node}
    (hi : ∀ init ∈ stmt.part? .init, Wraps .init "" IsAssignment init) :
    state.Step declares (state.forLoop stmt) := by
  unfold forLoop
  split
  · rename_i init condition step body hinit _ _ _
    obtain ⟨hc, ht⟩ := changes_beginFor (hi init hinit)
    exact .enter hc ht (List.forall_mem_nil _)
  · exact step_report _

theorem step_execute {stmt : Node} (h : stmt.IsStatement) :
    state.Step (Task.execute stmt).declares (state.execute stmt) := by
  cases h with
  | @declaration kind line items _ _ =>
    simp only [execute, Kind.ofName?_name]
    exact .stay .refl (List.forall_mem_map.2 fun item _ => ⟨rfl, .inr rfl⟩)
  | assignment ha =>
    have hc : state.Changes false (state.settle (state.assign stmt)) :=
      changes_settle fun next hn => change_assign ha hn
    cases ha
    exact .nil hc
  | read ht => exact .nil (changes_read ht)
  | write hv => exact .nil (changes_write _)
  | conditional ht hb => exact step_conditional _
  | alternative ht hb he => exact step_conditional _
  | whileLoop ht hb => exact step_whileLoop _
  | forLoop hi ht hs hb =>
    refine step_forLoop fun init hinit => ?_
    obtain ⟨_, _, rfl, hi⟩ := hi
    cases hinit
    exact ⟨_, _, rfl, hi⟩

/-- A loop enters its body, or ends. -/
theorem step_test (condition body : Node) {again : Task} (hc : again.closes = false)
    (hd : again.declares = false) :
    state.Step declares (match state.test condition with
      | (true, tested) => (tested.enter, Task.body body ++ [again])
      | (false, tested) => (tested, [])) := by
  have hs : (state.test condition).2.store = state.store := store_test condition
  have hl : (state.test condition).2.level = state.level := level_test condition
  rcases htest : state.test condition with ⟨holds, tested⟩
  rw [htest] at hs hl
  cases holds with
  | false => exact .nil (changes_quiet hs hl)
  | true => exact step_body body hs hl (List.forall_mem_singleton.2 ⟨hc, hd⟩)

/-- Every task but the end of a block makes such a step. -/
theorem step_perform {task : Task} (h : (∃ stmt, task = .skip stmt) ∨ task.IsShaped)
    (hc : task.closes = false) (hs : state.store.Scoped state.level) :
    state.Step task.declares (state.perform task) := by
  obtain ⟨stmt, rfl⟩ | h := h
  · exact step_report _
  cases task with
  | execute stmt => exact step_execute h
  | skip stmt => exact h.elim
  | declare kind item =>
    rw [perform, if_pos (IsDeclarator.kind_eq h)]
    exact .nil (changes_declare h hs)
  | leave => cases hc
  | whileLoop condition body => exact step_test condition body rfl rfl
  | forLoop condition step body => exact step_test condition body rfl rfl
  | forStep condition step body =>
    rw [perform]
    split
    · rename_i stepped hstep
      exact .stay (.single (change_assign h.2.1 hstep))
        (List.forall_mem_singleton.2 ⟨rfl, .inl rfl⟩)
    · exact step_report _

end State
end BlockLang
