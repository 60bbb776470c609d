import BlockLang.Proofs.Scope.Evaluation
import BlockLang.Proofs.Scope.Machine
import BlockLang.Proofs.Shape.Skipping

/-! # Simulation

A program that has been scanned and parsed runs on the store as it does on frames. The
two states stay related by representation, and every task does the same to both: what it
prints, what it reports, what input it takes and which tasks follow from it.
-/
namespace BlockLang.Scope
open Node

/-- A state whose store represents the frames of another state, and which otherwise is the same. -/
structure Simulates (flat : BlockLang.State) (state : State) : Prop where
  store : Represents flat.store state.frames
  level : flat.level + 1 = state.frames.length
  output : flat.output = state.output
  errors : flat.errors = state.errors
  supply : flat.supply = state.supply

/-- Both steps succeed and their states are related, or both fail with the same error. -/
def Agree (flat : Except RuntimeError BlockLang.State) (result : Except RuntimeError State) :
    Prop :=
  (∃ next after, flat = .ok next ∧ result = .ok after ∧ Simulates next after) ∨
    ∃ error, flat = .error error ∧ result = .error error

def Alike (flat : BlockLang.State × List Task) (step : State × List Task) : Prop :=
  Simulates flat.1 step.1 ∧ flat.2 = step.2

variable {flat : BlockLang.State} {state : State}

namespace Simulates

theorem report (h : Simulates flat state) (error : RuntimeError) :
    Simulates (flat.report error) (state.report error) :=
  ⟨h.store, h.level, h.output, congrArg (·.push error) h.errors, h.supply⟩

theorem print (h : Simulates flat state) (value : Value) :
    Simulates (flat.print value) (state.print value) :=
  ⟨h.store, h.level, congrArg (·.push value.print) h.output, h.errors, h.supply⟩

theorem enter (h : Simulates flat state) : Simulates flat.enter state.enter :=
  ⟨h.store.enter, congrArg (· + 1) h.level, h.output, h.errors, h.supply⟩

theorem leave (h : Simulates flat state) : Simulates flat.leave state.leave :=
  ⟨h.store.leave h.level, length_leave h.level, h.output, h.errors, h.supply⟩

theorem put (h : Simulates flat state) {spot : Spot} (hp : spot.Points state.frames)
    (value : Value) : Simulates (flat.put spot.slot value) (state.put spot value) := by
  obtain ⟨hn, entity, hf, he⟩ := hp
  refine ⟨h.store.put h.level hn hf he value, ?_, h.output, h.errors, h.supply⟩
  exact h.level.trans (length_modify _ _ _).symm

theorem settle {result : Except RuntimeError BlockLang.State} {other : Except RuntimeError State}
    (h : Simulates flat state) (ha : Agree result other) :
    Simulates (flat.settle result) (state.settle other) := by
  obtain ⟨next, after, rfl, rfl, hs⟩ | ⟨error, rfl, rfl⟩ := ha
  · exact hs
  · exact h.report error

/-! ## Simple statements -/

theorem putAdapted (h : Simulates flat state) {spot : Spot} (hp : spot.Points state.frames)
    (line : Nat) (value : Value) :
    Agree (flat.putAdapted spot.slot line value) (state.putAdapted spot line value) := by
  rw [BlockLang.State.putAdapted, State.putAdapted, Spot.wording_eq]
  cases hv : value.adapt? spot.kind with
  | some adapted =>
    rw [show value.adapt? spot.slot.kind = some adapted from hv]
    exact .inl ⟨_, _, rfl, rfl, h.put hp adapted⟩
  | none =>
    rw [show value.adapt? spot.slot.kind = none from hv]
    exact .inr ⟨_, rfl, rfl⟩

theorem slotOf (h : Simulates flat state) {target : Node} (ht : target.IsTarget) :
    Locates state.frames target.text (flat.slotOf target) (state.frames.spotOf target) :=
  locates_target h.store h.level ht

theorem evaluate (h : Simulates flat state) {n : Node} (hc : n.IsCondition) :
    flat.evaluate n = state.frames.evaluate n :=
  evaluate_eq_of_isCondition h.store h.level hc

theorem assign (h : Simulates flat state) {stmt : Node} (hs : stmt.IsAssignment) :
    Agree (flat.assign stmt) (state.assign stmt) := by
  obtain @⟨line, target, source, ht, hsource⟩ := hs
  change Agree
    (flat.slotOf target >>= fun slot => flat.evaluate source >>= flat.putAdapted slot line)
    (state.frames.spotOf target >>= fun spot =>
      state.frames.evaluate source >>= state.putAdapted spot line)
  rw [h.evaluate hsource]
  obtain ⟨found, hslot, hspot, -, hp⟩ | ⟨error, hslot, hspot⟩ := h.slotOf ht
  · rw [hslot, hspot]
    cases state.frames.evaluate source with
    | error error => exact .inr ⟨error, rfl, rfl⟩
    | ok value => exact h.putAdapted hp line value
  · rw [hslot, hspot]
    exact .inr ⟨error, rfl, rfl⟩

theorem evaluateWithin (h : Simulates flat state) {kind : NodeKind} {text : String} {n : Node}
    (hw : Wraps kind text IsCondition n) :
    flat.evaluateWithin n = state.frames.evaluateWithin n :=
  evaluateWithin_eq h.store h.level hw

theorem write (h : Simulates flat state) {line : Nat} {value : Node} (hv : value.IsExpression) :
    let stmt : Node := ⟨.write, "write", line, [value]⟩
    Simulates (flat.write stmt) (state.write stmt) := by
  intro stmt
  rw [BlockLang.State.write, State.write, h.evaluateWithin ⟨line, value, rfl, .plain hv⟩]
  cases state.frames.evaluateWithin stmt with
  | ok printed => exact h.print printed
  | error error => exact h.report error

/-- Both take an input if the target is found, and then take the same. -/
theorem read (h : Simulates flat state) {line : Nat} {target : Node} (ht : target.IsTarget) :
    let stmt : Node := ⟨.read, "read", line, [target]⟩
    Simulates (flat.read stmt) (state.read stmt) := by
  intro stmt
  have hc : stmt.content? = some target := by
    obtain ⟨_⟩ := ht
    rfl
  rw [BlockLang.State.read.eq_def, State.read.eq_def, hc, h.supply]
  obtain ⟨found, hslot, hspot, -, hp⟩ | ⟨error, hslot, hspot⟩ := h.slotOf ht
  · simp only [hslot, hspot]
    have hfed : Simulates { flat with supply := state.supply.next.2 }
        { state with supply := state.supply.next.2 } :=
      ⟨h.store, h.level, h.output, h.errors, rfl⟩
    have hkind : found.slot.kind = found.kind := rfl
    rw [hkind]
    cases Value.ofInput? found.kind state.supply.next.1 with
    | some value => exact hfed.put hp value
    | none => exact hfed.report _
  · simp only [hslot, hspot]
    exact h.report error

theorem test (h : Simulates flat state) {condition : Node}
    (hc : Wraps .condition "" IsCondition condition) :
    (flat.test condition).1 = (state.test condition).1 ∧
      Simulates (flat.test condition).2 (state.test condition).2 := by
  rw [BlockLang.State.test, State.test, h.evaluateWithin hc]
  cases state.frames.evaluateWithin condition with
  | error error => exact ⟨rfl, h.report error⟩
  | ok value =>
    cases value with
    | bool holds => exact ⟨rfl, h⟩
    | int n => exact ⟨rfl, h.report _⟩
    | real x => exact ⟨rfl, h.report _⟩
    | text s => exact ⟨rfl, h.report _⟩

/-! ## Declarations -/

section
variable {kind : Kind} {item : Node}

theorem declareScalar (h : Simulates flat state) (hn : IsName item.text)
    (hf : state.frames.declares item.text = false) :
    Simulates (flat.declareScalar kind item) (state.bind item.text (.scalar kind none)) :=
  ⟨h.store.declareScalar h.level hn hf kind item.line,
    h.level.trans (length_declare _ _ _).symm, h.output, h.errors, h.supply⟩

theorem declareArray (h : Simulates flat state) (hn : IsName item.text)
    (hf : state.frames.declares item.text = false) {subscript : Node}
    (hs : Wraps .subscript "[]" IsExpression subscript) :
    Agree (flat.declareArray kind item subscript) (state.declareArray kind item subscript) := by
  rw [BlockLang.State.declareArray, State.declareArray,
    h.evaluateWithin (hs.mono fun _ => .plain)]
  cases state.frames.evaluateWithin subscript with
  | error error => exact .inr ⟨error, rfl, rfl⟩
  | ok value =>
    change Agree
      (value.checkSize subscript.line >>= fun size =>
        let header : Binding := ⟨item.text, kind, item.line, flat.level, none, some size⟩
        .ok { flat with
          store := BlockLang.State.declareCells (flat.store.insert header) header size })
      (value.checkSize subscript.line >>= fun size =>
        .ok (state.bind item.text (.array kind (List.replicate size none))))
    cases value.checkSize subscript.line with
    | error error => exact .inr ⟨error, rfl, rfl⟩
    | ok size =>
      refine .inl ⟨_, _, rfl, rfl, ?_⟩
      exact ⟨h.store.declareArray h.level hn hf kind item.line size,
        h.level.trans (length_declare _ _ _).symm, h.output, h.errors, h.supply⟩

/-- The variable is found in the frame in which it has just been declared. -/
theorem points_bind (hl : flat.level + 1 = state.frames.length) (hn : IsName item.text) :
    Spot.Points ⟨item.text, none, kind⟩
      (state.bind item.text (.scalar kind none)).frames := by
  refine ⟨hn, .scalar kind none, ?_, trivial⟩
  rw [State.bind]
  cases hf : state.frames with
  | nil => simp [hf] at hl
  | cons frame frames => simp [Frames.declare, Frames.lookup?]

theorem declareInitialized (h : Simulates flat state) (hn : IsName item.text)
    (hf : state.frames.declares item.text = false) {initializer : Node}
    (hi : Wraps .initializer "=" IsCondition initializer) :
    let declared := flat.declareScalar kind item
    Simulates (declared.settle (declared.putInitial kind item initializer))
      (state.declareInitialized kind item initializer) := by
  intro declared
  have hd : Simulates declared (state.bind item.text (.scalar kind none)) :=
    h.declareScalar hn hf
  refine hd.settle ?_
  rw [BlockLang.State.putInitial, hd.evaluateWithin hi]
  cases (state.bind item.text (.scalar kind none)).frames.evaluateWithin initializer with
  | error error => exact .inr ⟨error, rfl, rfl⟩
  | ok value => exact hd.putAdapted (points_bind h.level hn) item.line value

theorem declare (h : Simulates flat state) (hd : item.IsDeclarator) :
    Simulates (flat.declare kind item) (state.declare kind item) := by
  obtain @⟨name, line, subscript, initializer, hname, hs, hi⟩ := hd
  have hn : IsName name := isName_of_spells hname
  let item : Node := ⟨.declarator, name, line, subscript.toList ++ initializer.toList⟩
  obtain ⟨hsub, hinit⟩ : item.part? .subscript = subscript ∧
    item.part? .initializer = initializer := declarator_parts hs hi
  rw [BlockLang.State.declare, State.declare, hsub, hinit, h.store.atLevel h.level hn]
  cases hf : state.frames.declares name with
  | true => exact h.report _
  | false =>
    cases subscript with
    | some subscript =>
      cases initializer with
      | some initializer => exact h.report _
      | none => exact h.settle (h.declareArray hn hf (hs _ rfl))
    | none =>
      cases initializer with
      | some initializer => exact h.declareInitialized hn hf (hi _ rfl)
      | none => exact h.declareScalar hn hf

end

/-! ## Tasks -/

theorem branch (h : Simulates flat state) (branch : Option Node) :
    Alike (flat.branch branch) (state.branch branch) := by
  cases branch with
  | none => exact ⟨h, rfl⟩
  | some body => exact ⟨h.enter, (List.append_nil _).symm⟩

theorem conditional (h : Simulates flat state) {stmt condition : Node}
    (hc : stmt.part? .condition = some condition)
    (ht : Wraps .condition "" IsCondition condition) :
    Alike (flat.conditional stmt) (state.conditional stmt) := by
  obtain ⟨hholds, htested⟩ := h.test ht
  rw [BlockLang.State.conditional_eq hc, State.conditional, hc, hholds]
  exact htested.branch _

theorem whileLoop (h : Simulates flat state) (stmt : Node) :
    Alike (flat.whileLoop stmt) (state.whileLoop stmt) := by
  rw [BlockLang.State.whileLoop, State.whileLoop]
  cases stmt.part? .condition with
  | none => exact ⟨h.report _, rfl⟩
  | some condition =>
    cases stmt.part? .block with
    | none => exact ⟨h.report _, rfl⟩
    | some body => exact ⟨h, rfl⟩

theorem beginFor (h : Simulates flat state) {init condition step body : Node}
    (hi : Wraps .init "" IsAssignment init) (hs : Wraps .step "" IsAssignment step) :
    Alike (flat.beginFor init condition step body) (state.beginFor init condition step body) := by
  obtain ⟨first, hfirst, hassign⟩ := content?_of_wraps hi isError_of_isAssignment
  obtain ⟨next, hnext, -⟩ := content?_of_wraps hs isError_of_isAssignment
  rw [BlockLang.State.beginFor, State.beginFor, hfirst, hnext]
  dsimp only
  obtain ⟨begun, after, hf, hr, ha⟩ | ⟨error, hf, hr⟩ := h.assign hassign
  · rw [hf, hr]
    exact ⟨ha, rfl⟩
  · rw [hf, hr]
    exact ⟨h.report error, rfl⟩

theorem forLoop (h : Simulates flat state) {stmt init condition step body : Node}
    (hi : stmt.part? .init = some init) (hinit : Wraps .init "" IsAssignment init)
    (hc : stmt.part? .condition = some condition) (hs : stmt.part? .step = some step)
    (hstep : Wraps .step "" IsAssignment step) (hb : stmt.part? .block = some body) :
    Alike (flat.forLoop stmt) (state.forLoop stmt) := by
  obtain ⟨hbegun, htasks⟩ : Alike (flat.enter.beginFor init condition step body)
    (state.enter.beginFor init condition step body) := h.enter.beginFor hinit hstep
  rw [BlockLang.State.forLoop, State.forLoop, hi, hc, hs, hb]
  exact ⟨hbegun, congrArg (· ++ [Task.leave]) htasks⟩

/-- A statement does the same to both states. -/
theorem execute (h : Simulates flat state) {stmt : Node} (hs : stmt.IsStatement) :
    Alike (flat.execute stmt) (state.execute stmt) := by
  cases hs with
  | @declaration kind line items =>
    simp only [BlockLang.State.execute, State.execute, Kind.ofName?_name]
    exact ⟨h, rfl⟩
  | assignment ha =>
    have hsettled := h.settle (h.assign ha)
    cases ha
    exact ⟨hsettled, rfl⟩
  | read ht => exact ⟨h.read ht, rfl⟩
  | write hv => exact ⟨h.write hv, rfl⟩
  | conditional ht =>
    obtain ⟨line, test, rfl, hc⟩ := ht
    exact h.conditional rfl ⟨line, test, rfl, hc⟩
  | alternative ht =>
    obtain ⟨line, test, rfl, hc⟩ := ht
    exact h.conditional rfl ⟨line, test, rfl, hc⟩
  | whileLoop => exact h.whileLoop _
  | forLoop hi ht hs =>
    obtain ⟨_, _, rfl, hi⟩ := hi
    obtain ⟨_, _, rfl, -⟩ := ht
    obtain ⟨_, _, rfl, hs⟩ := hs
    exact h.forLoop rfl ⟨_, _, rfl, hi⟩ rfl rfl ⟨_, _, rfl, hs⟩ rfl

/-- A loop goes on or ends in both states. -/
theorem loop (h : Simulates flat state) {condition body : Node} {again : Task}
    (hc : Wraps .condition "" IsCondition condition) :
    Alike (match flat.test condition with
        | (true, tested) => (tested.enter, Task.body body ++ [again])
        | (false, tested) => (tested, []))
      (state.loop condition body again) := by
  obtain ⟨hholds, htested⟩ := h.test hc
  rw [State.loop]
  rcases hflat : flat.test condition with ⟨holds, tested⟩
  rcases hscoped : state.test condition with ⟨other, after⟩
  rw [hflat, hscoped] at hholds htested
  cases hholds
  cases holds with
  | false => exact ⟨htested, rfl⟩
  | true => exact ⟨htested.enter, rfl⟩

/-- A shaped task does the same to both states. -/
theorem perform (h : Simulates flat state) {task : Task} (ht : task.IsShaped) :
    Alike (flat.perform task) (state.perform task) := by
  cases task with
  | execute stmt => exact h.execute ht
  | skip stmt => exact ht.elim
  | declare kind item =>
    have hk : item.kind = .declarator := Node.IsDeclarator.kind_eq ht
    rw [BlockLang.State.perform, if_pos hk]
    exact ⟨h.declare ht, rfl⟩
  | leave => exact ⟨h.leave, rfl⟩
  | whileLoop condition body => exact h.loop ht.1
  | forLoop condition step body => exact h.loop ht.1
  | forStep condition step body =>
    rw [BlockLang.State.perform, State.perform]
    obtain ⟨stepped, after, hf, hr, ha⟩ | ⟨error, hf, hr⟩ := h.assign ht.2.1
    · rw [hf, hr]
      exact ⟨ha, rfl⟩
    · rw [hf, hr]
      exact ⟨h.report error, rfl⟩

end Simulates

/-! ## Runs -/

/-- What a step preserves. -/
theorem Simulates.after (h : Simulates flat state) {task : Task}
    (ht : (∃ stmt, task = .skip stmt) ∨ task.IsShaped) :
    Alike (flat.perform task) (state.perform task) := by
  obtain ⟨stmt, rfl⟩ | ht := ht
  · exact ⟨h.report _, rfl⟩
  · exact h.perform ht

/-- What a run preserves. -/
theorem Simulates.run (h : Simulates flat state) {tasks : List Task}
    (hs : BlockLang.Machine.IsShaped ⟨flat, tasks⟩) (count : Nat) :
    let machine := BlockLang.Machine.run count ⟨flat, tasks⟩
    let other := Machine.run count ⟨state, tasks⟩
    Simulates machine.state other.state ∧ machine.tasks = other.tasks := by
  induction count generalizing flat state tasks with
  | zero => exact ⟨h, rfl⟩
  | succ count ih =>
    cases tasks with
    | nil => exact ⟨h, rfl⟩
    | cons task tasks =>
      obtain ⟨hstate, hnext⟩ := h.after (List.forall_mem_cons.1 hs).1
      have hshaped := (BlockLang.Machine.after_spec hs).1
      rw [BlockLang.Machine.run, Machine.run_cons, ← hnext]
      exact ih hstate hshaped

/-- The flat store implements frames. From any state, a program that has been scanned and parsed
prints the same, reports the same and takes the same input as on frames, after any number of steps
and with the same tasks left. -/
theorem store_implements_frames (text : String) (begun : BlockLang.State) (count : Nat) :
    let program := Parse.ofText text
    let flat := (BlockLang.Machine.ofProgram begun program).run count
    let framed := (Machine.ofProgram (.start begun.output begun.errors begun.supply) program).run
      count
    flat.state.output = framed.state.output ∧ flat.state.errors = framed.state.errors ∧
      flat.state.supply = framed.state.supply ∧ flat.tasks = framed.tasks := by
  intro program flat framed
  have hstart : Simulates begun.restart (.start begun.output begun.errors begun.supply) :=
    ⟨represents_empty, rfl, rfl, rfl, rfl⟩
  have hshaped := BlockLang.Machine.isShaped_ofProgram begun (Parse.shapes_ofText text)
  obtain ⟨hstate, htasks⟩ := hstart.run hshaped count
  exact ⟨hstate.output, hstate.errors, hstate.supply, htasks⟩

end BlockLang.Scope
