import BlockLang.Execution.Machine
import BlockLang.Proofs.Shape.Evaluation

/-! # Execution of shaped statements

A statement of the right shape is never blamed for its tree, and the tasks that follow
from it have the right shapes again. So along a run only the statements with an error
leaf are, and each of them once.
-/
namespace BlockLang
open Node

def Task.IsShaped : Task → Prop
  | .execute stmt => stmt.IsStatement
  | .skip _ => False
  | .declare _ item => item.IsDeclarator
  | .leave => True
  | .whileLoop condition body => Wraps .condition "" IsCondition condition ∧ body.IsBlock
  | .forLoop condition step body | .forStep condition step body =>
    Wraps .condition "" IsCondition condition ∧ step.IsAssignment ∧ body.IsBlock

theorem Except.bind_eq_ok {α β ε : Type} {x : Except ε α} {f : α → Except ε β} {b : β}
    (h : x >>= f = .ok b) : ∃ a, x = .ok a ∧ f a = .ok b := by
  cases x with
  | error e => cases h
  | ok a => exact ⟨a, rfl, h⟩

namespace State

variable {state next : State}

/-! ## What succeeds keeps the errors -/

theorem putAdapted_eq_ok {slot : Slot} {line : Nat} {value : Value}
    (h : state.putAdapted slot line value = .ok next) :
    ∃ adapted, value.adapt? slot.kind = some adapted ∧ next = state.put slot adapted := by
  unfold putAdapted at h
  split at h
  · rename_i adapted ha
    cases h
    exact ⟨adapted, ha, rfl⟩
  · cases h

theorem assign_eq_ok {stmt : Node} (h : state.assign stmt = .ok next) :
    ∃ slot adapted, next = state.put slot adapted ∧ adapted.kind = slot.kind ∧
      ∃ target source, stmt.children = [target, source] ∧ state.slotOf target = .ok slot := by
  unfold assign at h
  split at h
  · rename_i target source hchildren
    obtain ⟨slot, hslot, hvalue⟩ := Except.bind_eq_ok h
    obtain ⟨value, -, hput⟩ := Except.bind_eq_ok hvalue
    obtain ⟨adapted, ha, rfl⟩ := putAdapted_eq_ok hput
    exact ⟨slot, adapted, rfl, Value.kind_of_adapt? ha, target, source, hchildren, hslot⟩
  · cases h

theorem declareArray_eq_ok {kind : Kind} {item subscript : Node}
    (h : state.declareArray kind item subscript = .ok next) :
    ∃ size, let header : Binding := ⟨item.text, kind, item.line, state.level, none, some size⟩
      next = { state with store := declareCells (state.store.insert header) header size } := by
  obtain ⟨value, -, hsize⟩ := Except.bind_eq_ok h
  obtain ⟨size, -, hdone⟩ := Except.bind_eq_ok hsize
  cases hdone
  exact ⟨size, rfl⟩

theorem putInitial_eq_ok {kind : Kind} {item initializer : Node}
    (h : state.putInitial kind item initializer = .ok next) :
    ∃ adapted, next = state.put ⟨item.text, kind⟩ adapted ∧ adapted.kind = kind := by
  obtain ⟨value, -, hput⟩ := Except.bind_eq_ok h
  obtain ⟨adapted, ha, rfl⟩ := putAdapted_eq_ok hput
  exact ⟨adapted, rfl, Value.kind_of_adapt? ha⟩

/-! ## What fails, fails regularly -/

theorem regular_putAdapted (slot : Slot) (line : Nat) (value : Value) :
    Regular (state.putAdapted slot line value) := by
  unfold putAdapted
  split
  · exact regular_ok _
  · exact regular_error ⟨nofun, nofun⟩

theorem regular_assign {stmt : Node} (h : stmt.IsAssignment) : Regular (state.assign stmt) := by
  obtain ⟨ht, hs⟩ := h
  exact (Store.regular_slotOf ht).bind fun _ _ =>
    (Store.regular_evaluate_condition hs).bind fun _ _ => regular_putAdapted _ _ _

theorem regular_evaluateWithin {kind : NodeKind} {text : String} {n : Node}
    (h : Wraps kind text IsCondition n) : Regular (state.evaluateWithin n) := by
  obtain ⟨line, inner, rfl, hi⟩ := h
  rw [evaluateWithin, Store.evaluateWithin_eq (Store.isError_of_isCondition hi)]
  exact Store.regular_evaluate_condition hi

theorem regular_declareArray {kind : Kind} {item subscript : Node}
    (h : Wraps .subscript "[]" IsExpression subscript) :
    Regular (state.declareArray kind item subscript) :=
  (regular_evaluateWithin (h.mono fun _ => .plain)).bind fun _ _ =>
    (Value.fails_checkSize _ _).regular.bind fun _ _ => regular_ok _

theorem regular_putInitial {kind : Kind} {item initializer : Node}
    (h : Wraps .initializer "=" IsCondition initializer) :
    Regular (state.putInitial kind item initializer) :=
  (regular_evaluateWithin h).bind fun _ _ => regular_putAdapted _ _ _

/-! ## What is reported -/

def Continues (state next : State) : Prop :=
  ∃ errors, next.errors.toList = state.errors.toList ++ errors ∧ ∀ error ∈ errors, error.IsRegular

theorem Continues.of_errors_eq (h : next.errors = state.errors) : state.Continues next :=
  ⟨[], by rw [h, List.append_nil], List.forall_mem_nil _⟩

theorem continues_report {error : RuntimeError} (h : error.IsRegular) :
    state.Continues (state.report error) :=
  ⟨[error], Array.toList_push, List.forall_mem_singleton.2 h⟩

/-- What is left of a step that may fail. -/
theorem continues_settle {result : Except RuntimeError State} (hr : Regular result)
    (hk : ∀ next, result = .ok next → next.errors = state.errors) :
    state.Continues (state.settle result) := by
  cases result with
  | ok next => exact .of_errors_eq (hk next rfl)
  | error error => exact continues_report (hr error rfl)

theorem continues_declare {kind : Kind} {item : Node} (h : item.IsDeclarator) :
    state.Continues (state.declare kind item) := by
  obtain ⟨subscript, initializer, -, hs, hi⟩ := h
  obtain ⟨hsub, hinit⟩ := declarator_parts hs hi
  rw [declare]
  split
  · exact continues_report ⟨nofun, nofun⟩
  · rw [hsub, hinit]
    split
    · exact continues_report ⟨nofun, nofun⟩
    · refine continues_settle (regular_declareArray (hs _ rfl)) fun next hn => ?_
      obtain ⟨_, rfl⟩ := declareArray_eq_ok hn
      rfl
    · exact .of_errors_eq rfl
    · refine continues_settle (regular_putInitial (hi _ rfl)) fun next hn => ?_
      obtain ⟨_, rfl, -⟩ := putInitial_eq_ok hn
      rfl

theorem continues_write {line : Nat} {value : Node} (h : value.IsExpression) :
    state.Continues (state.write ⟨.write, "write", line, [value]⟩) := by
  have hr : Regular (state.evaluateWithin ⟨.write, "write", line, [value]⟩) :=
    regular_evaluateWithin ⟨_, _, rfl, .plain h⟩
  unfold write
  split
  · exact .of_errors_eq rfl
  · rename_i error he
    exact continues_report (hr error he)

theorem continues_read {line : Nat} {target : Node} (h : target.IsTarget) :
    state.Continues (state.read ⟨.read, "read", line, [target]⟩) := by
  have hc : content? ⟨.read, "read", line, [target]⟩ = some target := by
    obtain ⟨_⟩ := h
    rfl
  have hs : Regular (state.slotOf target) := Store.regular_slotOf h
  rw [State.read.eq_def, hc]
  dsimp only
  split
  · rename_i error he
    exact continues_report (hs error he)
  · split
    · exact .of_errors_eq rfl
    · exact ⟨[_], Array.toList_push, List.forall_mem_singleton.2 ⟨nofun, nofun⟩⟩

theorem continues_test {condition : Node} (h : Wraps .condition "" IsCondition condition) :
    state.Continues (state.test condition).2 := by
  have hr : Regular (state.evaluateWithin condition) := regular_evaluateWithin h
  unfold test
  split
  · exact .of_errors_eq rfl
  · exact continues_report ⟨nofun, nofun⟩
  · rename_i error he
    exact continues_report (hr error he)

/-! ## What follows -/

/-- A step of shaped tasks: only regular errors are reported, and the tasks that follow are
shaped. -/
def Follows (state : State) (step : State × List Task) : Prop :=
  state.Continues step.1 ∧ ∀ task ∈ step.2, task.IsShaped

theorem follows_nil (h : state.Continues next) : state.Follows (next, []) :=
  ⟨h, List.forall_mem_nil _⟩

theorem shaped_body {body : Node} (h : body.IsBlock) : ∀ task ∈ Task.body body, task.IsShaped := by
  obtain ⟨hb⟩ := h
  rw [Task.body, List.forall_mem_append, List.forall_mem_map, List.forall_mem_singleton]
  exact ⟨hb, trivial⟩

theorem follows_branch {branch : Option Node} (h : state.Continues next)
    (hb : ∀ block ∈ branch, block.IsBlock) : state.Follows (next.branch branch) := by
  cases branch with
  | none => exact follows_nil h
  | some block => exact ⟨h, shaped_body (hb block rfl)⟩

/-- A test that is performed decides which branch is entered. -/
theorem conditional_eq {stmt condition : Node} (h : stmt.part? .condition = some condition) :
    state.conditional stmt = (state.test condition).2.branch
      (if (state.test condition).1 then stmt.part? .block
        else (stmt.part? .alternative).bind (·.part? .block)) := by
  rw [conditional, h]
  dsimp only
  rcases state.test condition with ⟨holds, tested⟩
  cases holds <;> rfl

/-- A loop begins with its first assignment, in the block of its header. -/
theorem forLoop_eq {stmt first condition next body : Node}
    (h : stmt.ForParts first condition next body) :
    state.forLoop stmt = match state.enter.assign first with
      | .error error => (state.enter.report error, [.leave])
      | .ok begun => (begun, [.forLoop condition next body, .leave]) := by
  obtain ⟨init, hinit, hfirst⟩ := Option.bind_eq_some_iff.1 h.init
  obtain ⟨step, hstep, hnext⟩ := Option.bind_eq_some_iff.1 h.step
  rw [forLoop, hinit, h.condition, hstep, h.body]
  simp only [beginFor, hfirst, hnext]
  cases state.enter.assign first <;> rfl

theorem follows_conditional {stmt condition block : Node} (other : Option Node)
    (hc : stmt.part? .condition = some condition) (ht : Wraps .condition "" IsCondition condition)
    (hb : stmt.part? .block = some block) (hblock : block.IsBlock)
    (ho : (stmt.part? .alternative).bind (·.part? .block) = other)
    (hother : ∀ block ∈ other, block.IsBlock) : state.Follows (state.conditional stmt) := by
  rw [conditional_eq hc, hb, ho]
  refine follows_branch (continues_test ht) ?_
  split
  · rintro _ ⟨⟩
    exact hblock
  · exact hother

theorem continues_assign {stmt : Node} (h : stmt.IsAssignment) :
    state.Continues (state.settle (state.assign stmt)) := by
  refine continues_settle (regular_assign h) fun next hn => ?_
  obtain ⟨_, _, rfl, -⟩ := assign_eq_ok hn
  rfl

theorem follows_beginFor {init condition step body : Node} (hi : Wraps .init "" IsAssignment init)
    (ht : Wraps .condition "" IsCondition condition) (hs : Wraps .step "" IsAssignment step)
    (hb : body.IsBlock) : state.Follows (state.beginFor init condition step body) := by
  obtain ⟨first, hfirst, hassign⟩ := content?_of_wraps hi isError_of_isAssignment
  obtain ⟨next, hnext, hstep⟩ := content?_of_wraps hs isError_of_isAssignment
  rw [beginFor, hfirst]
  dsimp only
  split
  · rename_i error he
    exact follows_nil (continues_report (regular_assign hassign error he))
  · rename_i begun hbegun
    rw [hnext]
    obtain ⟨_, _, rfl, -⟩ := assign_eq_ok hbegun
    exact ⟨.of_errors_eq rfl, List.forall_mem_singleton.2 ⟨ht, hstep, hb⟩⟩

theorem follows_forLoop {stmt init condition step body : Node} (hi : stmt.part? .init = some init)
    (hinit : Wraps .init "" IsAssignment init) (ht : stmt.part? .condition = some condition)
    (htest : Wraps .condition "" IsCondition condition) (hs : stmt.part? .step = some step)
    (hstep : Wraps .step "" IsAssignment step) (hb : stmt.part? .block = some body)
    (hbody : body.IsBlock) : state.Follows (state.forLoop stmt) := by
  obtain ⟨hc, htasks⟩ : state.enter.Follows (state.enter.beginFor init condition step body) :=
    follows_beginFor hinit htest hstep hbody
  rw [forLoop, hi, ht, hs, hb]
  refine ⟨hc, List.forall_mem_append.2 ⟨htasks, List.forall_mem_singleton.2 trivial⟩⟩

theorem follows_execute {stmt : Node} (h : stmt.IsStatement) :
    state.Follows (state.execute stmt) := by
  cases h with
  | @declaration kind line items _ hitems =>
    simp only [execute, Kind.ofName?_name]
    exact ⟨.of_errors_eq rfl, List.forall_mem_map.2 hitems⟩
  | assignment ha =>
    have hc : state.Continues (state.settle (state.assign stmt)) := continues_assign ha
    cases ha
    exact follows_nil hc
  | read ht => exact follows_nil (continues_read ht)
  | write hv => exact follows_nil (continues_write hv)
  | conditional ht hb =>
    obtain ⟨line, test, rfl, hc⟩ := ht
    exact follows_conditional none rfl ⟨line, test, rfl, hc⟩ rfl (.intro hb) rfl nofun
  | alternative ht hb he =>
    obtain ⟨line, test, rfl, hc⟩ := ht
    refine follows_conditional (some _) rfl ⟨line, test, rfl, hc⟩ rfl (.intro hb) rfl ?_
    rintro _ ⟨⟩
    exact .intro he
  | whileLoop ht hb =>
    obtain ⟨line, test, rfl, hc⟩ := ht
    refine ⟨.of_errors_eq rfl, List.forall_mem_singleton.2 ?_⟩
    exact ⟨⟨line, test, rfl, hc⟩, .intro hb⟩
  | forLoop hi ht hs hb =>
    obtain ⟨_, _, rfl, hi⟩ := hi
    obtain ⟨_, _, rfl, ht⟩ := ht
    obtain ⟨_, _, rfl, hs⟩ := hs
    exact follows_forLoop rfl ⟨_, _, rfl, hi⟩ rfl ⟨_, _, rfl, ht⟩ rfl ⟨_, _, rfl, hs⟩ rfl
      (.intro hb)

/-- A loop goes on with its body and a task that comes back to it, or ends. -/
theorem follows_test {condition body : Node} {again : Task}
    (ht : Wraps .condition "" IsCondition condition) (hb : body.IsBlock) (ha : again.IsShaped) :
    state.Follows (match state.test condition with
      | (true, tested) => (tested.enter, Task.body body ++ [again])
      | (false, tested) => (tested, [])) := by
  have hc : state.Continues (state.test condition).2 := continues_test ht
  rcases htest : state.test condition with ⟨holds, tested⟩
  rw [htest] at hc
  cases holds with
  | false => exact follows_nil hc
  | true => exact ⟨hc, List.forall_mem_append.2 ⟨shaped_body hb, List.forall_mem_singleton.2 ha⟩⟩

/-- A shaped task reports regular errors alone and is followed by shaped tasks. -/
theorem follows_perform {task : Task} (h : task.IsShaped) :
    state.Follows (state.perform task) := by
  cases task with
  | execute stmt => exact follows_execute h
  | skip stmt => exact h.elim
  | declare kind item =>
    rw [perform, if_pos (IsDeclarator.kind_eq h)]
    exact follows_nil (continues_declare h)
  | leave => exact follows_nil (.of_errors_eq rfl)
  | whileLoop condition body => exact follows_test h.1 h.2 h
  | forLoop condition step body => exact follows_test h.1 h.2.2 h
  | forStep condition step body =>
    rw [perform]
    split
    · rename_i stepped hs
      obtain ⟨_, _, rfl, -⟩ := assign_eq_ok hs
      exact ⟨.of_errors_eq rfl, List.forall_mem_singleton.2 h⟩
    · rename_i error he
      exact follows_nil (continues_report (regular_assign h.2.1 error he))

end State
end BlockLang
