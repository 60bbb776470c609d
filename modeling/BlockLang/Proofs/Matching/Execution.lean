import BlockLang.Proofs.Matching.Evaluation
import BlockLang.Proofs.Shape.Skipping

/-! # Matching runs

Matching programs run in step: after the same number of steps they have printed the same,
taken the same input and reported matching errors, and the tasks that are left match. A
target must be a name, which is so if its statement has its shape, or if any text may be
a name.
-/
namespace BlockLang.Matching
open Scope Node

structure States (c : Matching) (state twin : State) : Prop where
  store : c.Stores state.store twin.store
  level : state.level = twin.level
  output : state.output = twin.output
  errors : List.Forall₂ c.Errors state.errors.toList twin.errors.toList
  supply : state.supply = twin.supply

inductive Tasks (c : Matching) : Task → Task → Prop
  | execute {n m : Node} : c.Nodes n m → Tasks c (.execute n) (.execute m)
  | skip {n m : Node} : c.lines n.line m.line → Tasks c (.skip n) (.skip m)
  | declare {n m : Node} (kind : Kind) : c.Nodes n m → Tasks c (.declare kind n) (.declare kind m)
  | leave : Tasks c .leave .leave
  | whileLoop {condition body test block : Node} : c.Nodes condition test → c.Nodes body block →
    Tasks c (.whileLoop condition body) (.whileLoop test block)
  | forLoop {condition step body test next block : Node} : c.Nodes condition test →
    c.Nodes step next → c.Nodes body block →
    Tasks c (.forLoop condition step body) (.forLoop test next block)
  | forStep {condition step body test next block : Node} : c.Nodes condition test →
    c.Nodes step next → c.Nodes body block →
    Tasks c (.forStep condition step body) (.forStep test next block)

structure Steps (c : Matching) (step twin : State × List Task) : Prop where
  states : c.States step.1 twin.1
  tasks : List.Forall₂ c.Tasks step.2 twin.2

/-- Any text may be a name, or a tree has its shape. -/
def Admits (c : Matching) (shaped : Prop) : Prop :=
  (∀ text, c.names text text) ∨ shaped

variable {c : Matching} {state twin : State} {n m : Node}

theorem Admits.mono {shaped other : Prop} (h : c.Admits shaped) (hs : shaped → other) :
    c.Admits other :=
  h.imp_right hs

theorem Nodes.target (h : c.Nodes n m) (ht : c.Admits n.IsTarget) : c.names n.text m.text := by
  cases hk : n.kind.isNaming with
  | true => exact h.name hk
  | false =>
    rw [← h.text_eq hk]
    apply ht.elim (· n.text)
    intro ht
    cases ht
    cases hk

namespace States

theorem report (h : c.States state twin) {error other : RuntimeError}
    (he : c.Errors error other) : c.States (state.report error) (twin.report other) where
  store := h.store
  level := h.level
  output := h.output
  errors := by
    rw [State.report, State.report, Array.toList_push, Array.toList_push]
    exact List.rel_append h.errors (.cons he .nil)
  supply := h.supply

theorem print (h : c.States state twin) (value : Value) :
    c.States (state.print value) (twin.print value) :=
  ⟨h.store, h.level, congrArg (·.push value.print) h.output, h.errors, h.supply⟩

theorem enter (h : c.States state twin) : c.States state.enter twin.enter :=
  ⟨h.store, congrArg (· + 1) h.level, h.output, h.errors, h.supply⟩

theorem leave (h : c.States state twin) : c.States state.leave twin.leave := by
  refine ⟨?_, congrArg (· - 1) h.level, h.output, h.errors, h.supply⟩
  rw [State.leave, State.leave, ← h.level]
  exact h.store.upTo _

theorem put (h : c.States state twin) {slot mate : Slot} (hs : c.Slots slot mate) (value : Value) :
    c.States (state.put slot value) (twin.put mate value) := by
  obtain ⟨index, kind, hn⟩ := hs
  refine ⟨?_, h.level, h.output, h.errors, h.supply⟩
  rw [State.put, State.put, ← h.level]
  exact h.store.assign index hn _

theorem settle (h : c.States state twin) {result other : Except RuntimeError State}
    (hr : c.Results c.States result other) :
    c.States (state.settle result) (twin.settle other) := by
  cases hr with
  | ok hs => exact hs
  | error he => exact h.report he

/-! ## Simple statements -/

theorem slotOf (h : c.States state twin) (hn : c.Nodes n m) (ht : c.Admits n.IsTarget) :
    c.Results c.Slots (state.slotOf n) (twin.slotOf m) := by
  rw [State.slotOf, State.slotOf, ← h.level]
  exact h.store.slotIn (hn.target ht) hn.line
    (hn.children.imp fun _ _ hc => h.store.evaluate hc)

theorem evaluate (h : c.States state twin) (hn : c.Nodes n m) :
    c.Results (· = ·) (state.evaluate n) (twin.evaluate m) := by
  rw [State.evaluate, State.evaluate, ← h.level]
  exact (h.store.evaluate hn).whole

theorem evaluateWithin (h : c.States state twin) (hn : c.Nodes n m) :
    c.Results (· = ·) (state.evaluateWithin n) (twin.evaluateWithin m) := by
  rw [State.evaluateWithin, State.evaluateWithin, ← h.level]
  exact results_getD (h.store.evaluate hn).first (errors_unexpected hn)

theorem putAdapted (h : c.States state twin) {slot mate : Slot} (hs : c.Slots slot mate)
    {line place : Nat} (hl : c.lines line place) (value : Value) :
    c.Results c.States (state.putAdapted slot line value) (twin.putAdapted mate place value) := by
  obtain ⟨index, kind, hn⟩ := hs
  rw [State.putAdapted, State.putAdapted]
  dsimp only
  cases value.adapt? kind with
  | none => exact .error ⟨.named (.unassignable value.kind kind) index (fun _ _ => rfl) hn, hl⟩
  | some adapted => exact .ok (h.put (.intro index kind hn) adapted)

theorem assign (h : c.States state twin) (hn : c.Nodes n m) (hs : c.Admits n.IsAssignment) :
    c.Results c.States (state.assign n) (twin.assign m) := by
  have hu := errors_unexpected hn
  obtain @⟨kind, text, spelling, line, place, children, others, -, hl, hc⟩ := hn
  match children, others, hc with
  | _, _, .nil => exact .error hu
  | _, _, .cons _ .nil => exact .error hu
  | [target, source], [_, _], .cons ht (.cons hsource .nil) =>
    have htarget : c.Admits target.IsTarget := hs.mono fun ha => by
      cases ha
      assumption
    exact (h.slotOf ht htarget).bind fun _ _ hslot =>
      (h.evaluate hsource).bind_same fun value => h.putAdapted hslot hl value
  | _, _, .cons _ (.cons _ (.cons _ _)) => exact .error hu

theorem write (h : c.States state twin) (hn : c.Nodes n m) :
    c.States (state.write n) (twin.write m) := by
  rw [State.write, State.write]
  rcases (h.evaluateWithin hn).cases with ⟨error, other, hx, hy, he⟩ | ⟨value, _, hx, hy, rfl⟩
  · rw [hx, hy]
    exact h.report he
  · rw [hx, hy]
    exact h.print value

/-- Both take an input if the target is found, and then take the same. -/
theorem read (h : c.States state twin) (hn : c.Nodes n m)
    (ht : c.Admits (∀ target ∈ n.content?, target.IsTarget)) :
    c.States (state.read n) (twin.read m) := by
  rw [State.read.eq_def, State.read.eq_def, ← h.supply]
  rcases rel_cases hn.content with ⟨hx, hy⟩ | ⟨target, mate, hx, hy, hc⟩
  · rw [hx, hy]
    exact h.report (errors_unexpected hn)
  · have htarget : c.Admits target.IsTarget := ht.mono fun ht => ht target hx
    rw [hx, hy]
    dsimp only
    rcases (h.slotOf hc htarget).cases with ⟨error, other, hx, hy, he⟩ | ⟨_, _, hx, hy, hs⟩
    · rw [hx, hy]
      exact h.report he
    · have hfed : c.States { state with supply := state.supply.next.2 }
          { twin with supply := state.supply.next.2 } :=
        ⟨h.store, h.level, h.output, h.errors, rfl⟩
      rw [hx, hy]
      obtain ⟨index, kind, hs⟩ := hs
      dsimp only
      cases Value.ofInput? kind state.supply.next.1 with
      | some value => exact hfed.put (.intro index kind hs) value
      | none =>
        refine hfed.report (errors_named (.invalidInput _ kind) (fun _ _ => rfl) ?_ hn.line)
        exact hc.target htarget

theorem test (h : c.States state twin) (hn : c.Nodes n m) :
    (state.test n).1 = (twin.test m).1 ∧ c.States (state.test n).2 (twin.test m).2 := by
  rw [State.test, State.test]
  rcases (h.evaluateWithin hn).cases with ⟨error, other, hx, hy, he⟩ | ⟨value, _, hx, hy, rfl⟩
  · rw [hx, hy]
    exact ⟨rfl, h.report he⟩
  · rw [hx, hy]
    cases value with
    | bool holds => exact ⟨rfl, h⟩
    | int n => exact ⟨rfl, h.report (errors_same _ hn.line)⟩
    | real x => exact ⟨rfl, h.report (errors_same _ hn.line)⟩
    | text s => exact ⟨rfl, h.report (errors_same _ hn.line)⟩

/-! ## Declarations -/

section
variable {kind : Kind} {item mate : Node}

theorem bindings_new (hl : state.level = twin.level) (kind : Kind) (item mate : Node)
    (size : Option Nat) : Bindings ⟨item.text, kind, item.line, state.level, none, size⟩
      ⟨mate.text, kind, mate.line, twin.level, none, size⟩ :=
  ⟨rfl, hl, rfl, rfl⟩

theorem declareScalar (h : c.States state twin) (hn : c.names item.text mate.text) :
    c.States (state.declareScalar kind item) (twin.declareScalar kind mate) :=
  ⟨h.store.insert none hn rfl rfl (bindings_new h.level kind item mate none), h.level, h.output,
    h.errors, h.supply⟩

theorem declareArray (h : c.States state twin) (hn : c.names item.text mate.text)
    (hs : c.Nodes n m) :
    c.Results c.States (state.declareArray kind item n) (twin.declareArray kind mate m) :=
  (h.evaluateWithin hs).bind_same fun value =>
    (results_checkSize hs.line value).bind_same fun size =>
      have hb := bindings_new h.level kind item mate (some size)
      have hstore := (h.store.insert none hn rfl rfl hb).declareCells hn hb size
      .ok ⟨hstore, h.level, h.output, h.errors, h.supply⟩

theorem putInitial (h : c.States state twin) (hn : c.names item.text mate.text)
    (hl : c.lines item.line mate.line) (hi : c.Nodes n m) :
    c.Results c.States (state.putInitial kind item n) (twin.putInitial kind mate m) :=
  (h.evaluateWithin hi).bind_same fun value => h.putAdapted (.intro none kind hn) hl value

theorem declare (h : c.States state twin) (hn : c.Nodes item mate) (hk : item.kind = .declarator) :
    c.States (state.declare kind item) (twin.declare kind mate) := by
  have hname : c.names item.text mate.text := hn.name (hk ▸ rfl)
  have hl := hn.line
  have hlevel : Option.Rel Bindings (state.store.atLevel? item.text state.level)
      (twin.store.atLevel? mate.text state.level) := h.store.atLevel none hname
  rw [State.declare, State.declare, ← h.level]
  rcases rel_cases hlevel with ⟨hx, hy⟩ | ⟨_, _, hx, hy, -⟩
  · rw [hx, hy]
    rcases rel_cases (hn.part .subscript) with ⟨hs, ht⟩ | ⟨subscript, other, hs, ht, hsub⟩
    · rcases rel_cases (hn.part .initializer) with ⟨hi, hj⟩ | ⟨_, _, hi, hj, hinit⟩
      · rw [hs, ht, hi, hj]
        exact h.declareScalar hname
      · have hd : c.States (state.declareScalar kind item) (twin.declareScalar kind mate) :=
          h.declareScalar hname
        rw [hs, ht, hi, hj]
        exact hd.settle (hd.putInitial hname hl hinit)
    · rcases rel_cases (hn.part .initializer) with ⟨hi, hj⟩ | ⟨_, _, hi, hj, -⟩
      · rw [hs, ht, hi, hj]
        exact h.settle (h.declareArray hname hsub)
      · rw [hs, ht, hi, hj]
        exact h.report (errors_named .arrayInitializer (fun _ _ => rfl) hname hl)
  · rw [hx, hy]
    exact h.report (errors_named .redeclared (fun _ _ => rfl) hname hl)

end

/-! ## Tasks -/

theorem nil (h : c.States state twin) : c.Steps (state, []) (twin, []) :=
  ⟨h, .nil⟩

theorem rel_body (hn : c.Nodes n m) : List.Forall₂ c.Tasks (Task.body n) (Task.body m) := by
  rw [Task.body, Task.body]
  refine List.rel_append ?_ (.cons .leave .nil)
  rw [List.forall₂_map_left_iff, List.forall₂_map_right_iff]
  exact hn.children.imp fun _ _ => .execute

theorem branch (h : c.States state twin) {body block : Option Node}
    (hb : Option.Rel c.Nodes body block) : c.Steps (state.branch body) (twin.branch block) := by
  cases hb with
  | none => exact h.nil
  | some hb => exact ⟨h.enter, rel_body hb⟩

theorem conditional (h : c.States state twin) (hn : c.Nodes n m) :
    c.Steps (state.conditional n) (twin.conditional m) := by
  rcases rel_cases (hn.part .condition) with ⟨hx, hy⟩ | ⟨condition, mate, hx, hy, hc⟩
  · rw [State.conditional, State.conditional, hx, hy]
    exact (h.report (errors_unexpected hn)).nil
  · obtain ⟨hholds, htested⟩ := h.test hc
    rw [State.conditional_eq hx, State.conditional_eq hy, hholds]
    apply htested.branch
    by_cases htrue : (twin.test mate).1
    · rw [if_pos htrue, if_pos htrue]
      exact hn.part .block
    · rw [if_neg htrue, if_neg htrue]
      rcases rel_cases (hn.part .alternative) with ⟨hx, hy⟩ | ⟨_, _, hx, hy, ha⟩
      · rw [hx, hy]
        exact .none
      · rw [hx, hy]
        exact ha.part .block

theorem whileLoop (h : c.States state twin) (hn : c.Nodes n m) :
    c.Steps (state.whileLoop n) (twin.whileLoop m) := by
  have hu := (h.report (errors_unexpected hn)).nil
  rw [State.whileLoop, State.whileLoop]
  rcases rel_cases (hn.part .condition) with ⟨hx, hy⟩ | ⟨condition, test, hx, hy, hc⟩
  · rw [hx, hy]
    exact hu
  · rw [hx, hy]
    rcases rel_cases (hn.part .block) with ⟨hx, hy⟩ | ⟨body, block, hx, hy, hb⟩
    · rw [hx, hy]
      exact hu
    · rw [hx, hy]
      exact ⟨h, .cons (.whileLoop hc hb) .nil⟩

theorem beginFor (h : c.States state twin) {init condition step body first test next block : Node}
    (hi : c.Nodes init first) (hc : c.Nodes condition test) (hs : c.Nodes step next)
    (hb : c.Nodes body block) (ha : c.Admits (∀ stmt ∈ init.content?, stmt.IsAssignment)) :
    c.Steps (state.beginFor init condition step body) (twin.beginFor first test next block) := by
  rw [State.beginFor, State.beginFor]
  rcases rel_cases hi.content with ⟨hx, hy⟩ | ⟨stmt, mate, hx, hy, hstmt⟩
  · rw [hx, hy]
    exact (h.report (errors_unexpected hi)).nil
  · have hassign := h.assign hstmt (ha.mono fun ha => ha stmt hx)
    rw [hx, hy]
    dsimp only
    rcases hassign.cases with ⟨error, other, hx, hy, he⟩ | ⟨begun, after, hx, hy, hbegun⟩
    · rw [hx, hy]
      exact (h.report he).nil
    · rw [hx, hy]
      rcases rel_cases hs.content with ⟨hx, hy⟩ | ⟨_, _, hx, hy, hn⟩
      · rw [hx, hy]
        exact (hbegun.report (errors_unexpected hs)).nil
      · rw [hx, hy]
        exact ⟨hbegun, .cons (.forLoop hc hn hb) .nil⟩

theorem forLoop (h : c.States state twin) (hn : c.Nodes n m)
    (ha : c.Admits (∀ init ∈ n.part? .init, ∀ stmt ∈ init.content?, stmt.IsAssignment)) :
    c.Steps (state.forLoop n) (twin.forLoop m) := by
  have hu := (h.report (errors_unexpected hn)).nil
  rw [State.forLoop, State.forLoop]
  rcases rel_cases (hn.part .init) with ⟨hx, hy⟩ | ⟨init, first, hinit, hfirst, hi⟩
  · rw [hx, hy]
    exact hu
  rcases rel_cases (hn.part .condition) with ⟨hx, hy⟩ | ⟨condition, test, hx, hy, hc⟩
  · rw [hinit, hfirst, hx, hy]
    exact hu
  rw [hinit, hfirst, hx, hy]
  rcases rel_cases (hn.part .step) with ⟨hx, hy⟩ | ⟨step, next, hx, hy, hs⟩
  · rw [hx, hy]
    exact hu
  rw [hx, hy]
  rcases rel_cases (hn.part .block) with ⟨hx, hy⟩ | ⟨body, block, hx, hy, hb⟩
  · rw [hx, hy]
    exact hu
  have hbegun := h.enter.beginFor hi hc hs hb (ha.mono fun ha => ha init hinit)
  rw [hx, hy]
  exact ⟨hbegun.states, List.rel_append hbegun.tasks (.cons .leave .nil)⟩

/-- A statement does the same in both states. -/
theorem execute (h : c.States state twin) (hn : c.Nodes n m) (hs : c.Admits n.IsStatement) :
    c.Steps (state.execute n) (twin.execute m) := by
  have hu := (h.report (errors_unexpected hn)).nil
  rw [State.execute, State.execute, ← hn.kind_eq]
  cases hk : n.kind with
  | declaration =>
    rw [← hn.text_eq (hk ▸ rfl)]
    dsimp only
    cases Kind.ofName? n.text with
    | none => exact hu
    | some kind =>
      refine ⟨h, ?_⟩
      rw [List.forall₂_map_left_iff, List.forall₂_map_right_iff]
      exact hn.children.imp fun _ _ => .declare kind
  | assignment => exact (h.settle (h.assign hn (hs.mono (·.isAssignment hk)))).nil
  | conditional => exact h.conditional hn
  | whileLoop => exact h.whileLoop hn
  | forLoop => exact h.forLoop hn (hs.mono (·.isAssignment_init hk))
  | read => exact (h.read hn (hs.mono (·.isTarget hk))).nil
  | write => exact (h.write hn).nil
  | _ => exact hu

theorem loop (h : c.States state twin) {condition body test block : Node} {again back : Task}
    (hc : c.Nodes condition test) (hb : c.Nodes body block) (ha : c.Tasks again back) :
    c.Steps
      (match state.test condition with
        | (true, tested) => (tested.enter, Task.body body ++ [again])
        | (false, tested) => (tested, []))
      (match twin.test test with
        | (true, tested) => (tested.enter, Task.body block ++ [back])
        | (false, tested) => (tested, [])) := by
  match state.test condition, twin.test test, h.test hc with
  | (true, _), (true, _), ⟨_, htested⟩ =>
    exact ⟨htested.enter, List.rel_append (rel_body hb) (.cons ha .nil)⟩
  | (false, _), (false, _), ⟨_, htested⟩ => exact htested.nil

/-- What a step preserves. -/
theorem perform (h : c.States state twin) {task other : Task} (ht : c.Tasks task other)
    (hs : c.Admits ((∃ stmt, task = .skip stmt) ∨ task.IsShaped)) :
    c.Steps (state.perform task) (twin.perform other) := by
  cases ht with
  | execute hn => exact h.execute hn (hs.mono fun hs => hs.resolve_left (by simp))
  | skip hl => exact (h.report (errors_same _ hl)).nil
  | @declare item mate kind hn =>
    rw [State.perform, State.perform, ← hn.kind_eq]
    by_cases hk : item.kind = .declarator
    · rw [if_pos hk, if_pos hk]
      exact (h.declare hn hk).nil
    · rw [if_neg hk, if_neg hk]
      exact (h.report (errors_unexpected hn)).nil
  | leave => exact h.leave.nil
  | whileLoop hc hb => exact h.loop hc hb (.whileLoop hc hb)
  | forLoop hc hstep hb => exact h.loop hc hb (.forStep hc hstep hb)
  | @forStep condition step body test next block hc hstep hb =>
    have ha : c.Admits step.IsAssignment := hs.mono fun hs => (hs.resolve_left (by simp)).2.1
    rw [State.perform, State.perform]
    rcases (h.assign hstep ha).cases with ⟨error, other, hx, hy, he⟩ | ⟨_, _, hx, hy, hstepped⟩
    · rw [hx, hy]
      exact (h.report he).nil
    · rw [hx, hy]
      exact ⟨hstepped, .cons (.forLoop hc hstep hb) .nil⟩

end States

/-- Both runs begin in one state. -/
theorem states_same (c : Matching) (hl : ∀ line, c.lines line line) (begun : State) :
    c.States begun.restart begun.restart :=
  ⟨stores_empty, rfl, rfl, List.forall₂_same.2 fun _ _ => ⟨.same _, hl _⟩, rfl⟩

/-- What a run preserves. -/
theorem States.run (h : c.States state twin) {tasks others : List Task}
    (ht : List.Forall₂ c.Tasks tasks others) (hs : c.Admits (Machine.IsShaped ⟨state, tasks⟩))
    (count : Nat) :
    let machine := Machine.run count ⟨state, tasks⟩
    let other := Machine.run count ⟨twin, others⟩
    c.States machine.state other.state ∧ List.Forall₂ c.Tasks machine.tasks other.tasks := by
  induction count generalizing state twin tasks others with
  | zero => exact ⟨h, ht⟩
  | succ count ih =>
    cases ht with
    | nil => exact ⟨h, .nil⟩
    | cons htask htasks =>
      have hstep := h.perform htask (hs.mono fun hs => hs _ List.mem_cons_self)
      exact ih hstep.states (List.rel_append hstep.tasks htasks)
        (hs.mono fun hs => (Machine.after_spec hs).1)

end BlockLang.Matching
