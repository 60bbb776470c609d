import BlockLang.Proofs.Store.Levels
import BlockLang.Proofs.Store.Outcomes

/-! # Loops with a header

A `for` does what its first assignment and a `while` do whose body is a block that holds the
body of the `for` and then its step. The `for` tests its condition and carries out both
assignments in the block of its header, the `while` in the block around it or in that of its
body, but nothing is declared in either of them. So both are in states that differ in their level
alone whenever they test the condition, and in the same state inside the body.
-/
namespace BlockLang
open Node

namespace Node

def unrolled (line : Nat) (step body : Node) : Node :=
  ⟨.block, "", line, [⟨.conditional, "if", line,
    [⟨.condition, "", line, [.leaf .boolLiteral "true" line]⟩, body]⟩, step]⟩

/-- The `while` that goes on like a `for` behind its first assignment. -/
def whileOf (line : Nat) (condition step body : Node) : Node :=
  ⟨.whileLoop, "while", line, [condition, unrolled line step body]⟩

end Node

namespace State

variable {state next : State} {level : Nat}

/-- A state in whose innermost block nothing has been declared. -/
structure InHeader (state : State) (level : Nat) : Prop where
  level_eq : state.level = level + 1
  store_scoped : state.store.Scoped level

theorem InHeader.bounded (h : state.InHeader level) : state.store.Bounded state.level :=
  Store.Bounded.mono h.store_scoped.level_le (h.level_eq ▸ Nat.le_succ level)

/-- Nothing is forgotten when the block is closed. -/
theorem InHeader.leave_eq (h : state.InHeader level) : state.leave = state.onLevel level := by
  have hlevel : state.level - 1 = level := by rw [h.level_eq, Nat.add_sub_cancel]
  rw [leave, onLevel, hlevel, h.store_scoped.ordered.upTo_eq_self h.store_scoped.level_le]

theorem InHeader.onLevel_enter (h : state.InHeader level) :
    (state.onLevel level).enter = state := by
  simp only [enter, onLevel, ← h.level_eq]

theorem InHeader.assign {stmt : Node} (h : state.InHeader level) (ha : stmt.IsAssignment)
    (hok : state.assign stmt = .ok next) :
    next.InHeader level ∧ (state.onLevel level).assign stmt = .ok (next.onLevel level) := by
  have houter : (state.onLevel level).assign stmt = .ok (next.onLevel level) := by
    rw [assign_onLevel h.bounded h.store_scoped.level_le, hok]
    rfl
  have hinner : state.Change false next := change_assign ha hok
  have hchange : (state.onLevel level).Change false (next.onLevel level) := change_assign ha houter
  exact ⟨⟨hinner.level_eq.trans h.level_eq, hchange.scoped h.store_scoped⟩, houter⟩

theorem InHeader.test (h : state.InHeader level) (condition : Node) :
    (state.test condition).2.InHeader level where
  level_eq := (level_test condition).trans h.level_eq
  store_scoped := (store_test condition).symm ▸ h.store_scoped

/-- A condition that always holds does nothing but enter the body. -/
theorem execute_under_true (state : State) (line : Nat) {body : Node} (hb : body.kind = .block) :
    state.execute ⟨.conditional, "if", line,
      [⟨.condition, "", line, [.leaf .boolLiteral "true" line]⟩, body]⟩ =
        (state.enter, Task.body body) := by
  let condition : Node := ⟨.condition, "", line, [.leaf .boolLiteral "true" line]⟩
  let stmt : Node := ⟨.conditional, "if", line, [condition, body]⟩
  have htest : state.test condition = (true, state) := by
    rw [State.test, evaluateWithin, Store.evaluateWithin_eq rfl]
    rfl
  have hbody : stmt.part? .block = some body := by simp [stmt, condition, part?, hb]
  show state.conditional stmt = _
  rw [conditional_eq rfl, htest, if_pos rfl, hbody, branch]

end State

namespace Machine

variable {machine other : Machine} {state final : State} {condition step body : Node}
  {line level : Nat}

/-! ## Runs that end -/

/-- After some number of steps nothing remains to be done, and this is the state that is left. -/
def EndsIn (machine : Machine) (final : State) : Prop :=
  ∃ count, machine.run count = ⟨final, []⟩

theorem run_of_done {count more : Nat} (h : machine.run count = ⟨final, []⟩)
    (hle : count ≤ more) : machine.run more = ⟨final, []⟩ := by
  obtain ⟨rest, rfl⟩ := Nat.exists_eq_add_of_le hle
  rw [run_add, h, run_of_step?_eq_none _ rfl]

theorem endsIn_run (machine : Machine) (steps : Nat) :
    (machine.run steps).EndsIn final ↔ machine.EndsIn final := by
  constructor
  · rintro ⟨count, h⟩
    exact ⟨steps + count, (run_add machine steps count).trans h⟩
  · rintro ⟨count, h⟩
    exact ⟨count, (run_add machine steps count).symm.trans (run_of_done h (Nat.le_add_left _ _))⟩

/-- If the steps of a machine are followed by some of another one until both are the same, the
other one ends where the machine ends. -/
theorem EndsIn.of_follows {R : Machine → Machine → Prop}
    (hstep : ∀ machine other, R machine other → machine = other ∨ machine.tasks ≠ [] ∧
      ∃ more steps, R (machine.run (more + 1)) (other.run steps))
    (hr : R machine other) (h : machine.EndsIn final) : other.EndsIn final := by
  obtain ⟨count, hdone⟩ := h
  induction count using Nat.strong_induction_on generalizing machine other with
  | _ count ih =>
    obtain rfl | ⟨hbusy, more, steps, hnext⟩ := hstep _ _ hr
    · exact ⟨count, hdone⟩
    · have hpos : 0 < count := by
        refine Nat.pos_of_ne_zero fun hzero => hbusy ?_
        rw [hzero, run] at hdone
        rw [hdone]
      have hlater : (machine.run (more + 1)).run (count - (more + 1)) = ⟨final, []⟩ := by
        rw [← run_add]
        exact run_of_done hdone (by omega)
      exact (endsIn_run other steps).1 (ih _ (by omega) hnext hlater)

/-- Machines that go on together until both are the same end in the same states. -/
theorem endsIn_iff_of_follows {R : Machine → Machine → Prop}
    (hstep : ∀ machine other, R machine other → machine = other ∨
      machine.tasks ≠ [] ∧ other.tasks ≠ [] ∧
        ∃ more steps, R (machine.run (more + 1)) (other.run (steps + 1)))
    (hr : R machine other) : machine.EndsIn final ↔ other.EndsIn final := by
  constructor
  · refine EndsIn.of_follows (R := R) (fun machine other h => ?_) hr
    obtain heq | ⟨hbusy, -, more, steps, hnext⟩ := hstep machine other h
    · exact .inl heq
    · exact .inr ⟨hbusy, more, steps + 1, hnext⟩
  · refine EndsIn.of_follows (R := flip R) (fun other machine h => ?_) hr
    obtain heq | ⟨-, hbusy, more, steps, hnext⟩ := hstep machine other h
    · exact .inl heq.symm
    · exact .inr ⟨hbusy, steps, more + 1, hnext⟩

/-! ## Both loops side by side -/

/-- The places in which a `for` and the `while` are at the same time: before the condition is
tested, in the midst of the body and before the step, or done. -/
inductive Abreast (line : Nat) (condition step body : Node) (level : Nat) :
    Machine → Machine → Prop
  | test {state : State} : state.InHeader level →
    Abreast line condition step body level ⟨state, [.forLoop condition step body, .leave]⟩
      ⟨state.onLevel level, [.whileLoop condition (unrolled line step body)]⟩
  | within {state : State} {tasks : List Task} {store : Store} : store.Bounded level →
    Within False (level + 1) store ⟨state, tasks⟩ →
    Abreast line condition step body level
      ⟨state, tasks ++ [.forStep condition step body, .leave]⟩
      ⟨state, tasks ++
        [.execute step, .leave, .whileLoop condition (unrolled line step body)]⟩
  | done {state : State} : Abreast line condition step body level ⟨state, []⟩ ⟨state, []⟩

theorem return_body (declares : Prop) (level : Nat) (block : Node) :
    Task.Return declares level (level + 1) (Task.body block) :=
  (Task.Return.leave .done).append
    (List.forall_mem_map.2 fun _ _ => ⟨rfl, fun _ => .inl (Nat.lt_succ_self level)⟩)

/-- The body of a loop leads back into the block of its header. -/
theorem within_body (h : state.InHeader level) (hb : body.IsBlock) :
    Within False (level + 1) state.store ⟨state.enter, Task.body body⟩ where
  sound := {
    tasks_shaped := fun task hm => .inr (State.shaped_body hb task hm)
    store_scoped := h.store_scoped.mono (Nat.le_succ_of_le (h.level_eq ▸ Nat.le_succ level)) }
  returns := by
    have hlevel : state.enter.level = level + 1 + 1 := congrArg Nat.succ h.level_eq
    exact hlevel ▸ return_body False (level + 1) body
  keepsFrame := .refl _ _ _

/-- Behind the body, the block of the header is as empty as before it. -/
theorem Within.inHeader {store : Store} (h : Within False (level + 1) store ⟨state, []⟩)
    (hs : store.Bounded level) : state.InHeader level := by
  have hlevel : state.level = level + 1 := h.returns.of_nil
  have hscoped : state.store.Scoped state.level := h.sound.store_scoped
  refine ⟨hlevel, { hscoped with level_le := fun other ho => ?_ }⟩
  obtain ⟨binding, hb, he⟩ | ⟨hfalse, -⟩ :=
    h.keepsFrame.added other ho (hlevel ▸ hscoped.level_le other ho)
  · exact Binding.level_eq_of_unset he ▸ hs binding hb
  · exact hfalse.elim

/-- The condition is tested in both loops alike. -/
theorem Abreast.run_test (h : state.InHeader level) (hb : body.IsBlock) :
    ∃ more steps, Abreast line condition step body level
      (run (more + 1) ⟨state, [.forLoop condition step body, .leave]⟩)
      (run (steps + 1)
        ⟨state.onLevel level, [.whileLoop condition (unrolled line step body)]⟩) := by
  have htested : (state.test condition).2.InHeader level := h.test condition
  have houter := State.test_onLevel h.bounded h.store_scoped.level_le condition
  rcases htest : state.test condition with ⟨holds, tested⟩
  rw [htest] at htested houter
  cases holds with
  | false =>
    have hfor : run 2 ⟨state, [.forLoop condition step body, .leave]⟩ =
        ⟨tested.onLevel level, []⟩ := by
      simp [run, after_eq, State.perform, htest, htested.leave_eq]
    have hwhile : run 1 ⟨state.onLevel level, [.whileLoop condition (unrolled line step body)]⟩ =
        ⟨tested.onLevel level, []⟩ := by
      simp [run, after_eq, State.perform, houter]
    refine ⟨1, 0, ?_⟩
    rw [hfor, hwhile]
    exact .done
  | true =>
    have hfor : run 1 ⟨state, [.forLoop condition step body, .leave]⟩ =
        ⟨tested.enter, Task.body body ++ [.forStep condition step body, .leave]⟩ := by
      simp [run, after_eq, State.perform, htest]
    have hblock : run 1 ⟨state.onLevel level, [.whileLoop condition (unrolled line step body)]⟩ =
        ⟨tested, Task.body (unrolled line step body) ++
          [.whileLoop condition (unrolled line step body)]⟩ := by
      simp [run, after_eq, State.perform, houter, htested.onLevel_enter]
    have hunder : run 1 ⟨tested, Task.body (unrolled line step body) ++
        [.whileLoop condition (unrolled line step body)]⟩ =
          ⟨tested.enter, Task.body body ++
            [.execute step, .leave, .whileLoop condition (unrolled line step body)]⟩ :=
      congrArg (fun result => Machine.mk result.1 (result.2 ++ _))
        (tested.execute_under_true line hb.kind_eq)
    refine ⟨0, 1, ?_⟩
    rw [hfor, run_add _ 1 1, hblock, hunder]
    exact .within htested.store_scoped.level_le (within_body htested hb)

/-- The step is carried out in the block of the header, which the body of the `while` closes. -/
theorem Abreast.run_step {store : Store} (hs : step.IsAssignment) (hb : store.Bounded level)
    (h : Within False (level + 1) store ⟨state, []⟩) (hok : (state.assign step).isOk) :
    Abreast line condition step body level
      (run 1 ⟨state, [.forStep condition step body, .leave]⟩)
      (run 2 ⟨state,
        [.execute step, .leave, .whileLoop condition (unrolled line step body)]⟩) := by
  cases hstep : state.assign step with
  | error error => simp [hstep, Except.isOk, Except.toBool] at hok
  | ok stepped =>
    obtain ⟨hstepped, -⟩ := (h.inHeader hb).assign hs hstep
    have hfor : run 1 ⟨state, [.forStep condition step body, .leave]⟩ =
        ⟨stepped, [.forLoop condition step body, .leave]⟩ := by
      simp [run, after_eq, State.perform, hstep]
    have hwhile : run 2 ⟨state,
        [.execute step, .leave, .whileLoop condition (unrolled line step body)]⟩ =
          ⟨stepped.onLevel level, [.whileLoop condition (unrolled line step body)]⟩ := by
      simp [run, after_eq, State.perform, State.execute, hs.kind_eq, hstep, State.settle,
        hstepped.leave_eq]
    rw [hfor, hwhile]
    exact .test hstepped

/-- Both loops come to the next place that they are in at the same time, unless they are done. -/
theorem Abreast.advance (hs : step.IsAssignment) (hb : body.IsBlock)
    (hsteps : ∀ state, machine = ⟨state, [.forStep condition step body, .leave]⟩ →
      (state.assign step).isOk)
    (h : Abreast line condition step body level machine other) :
    machine = other ∨ machine.tasks ≠ [] ∧ other.tasks ≠ [] ∧
      ∃ more steps, Abreast line condition step body level (machine.run (more + 1))
        (other.run (steps + 1)) := by
  cases h with
  | test hheader => exact .inr ⟨nofun, nofun, Abreast.run_test hheader hb⟩
  | @within state tasks store hstore hwithin =>
    refine .inr ⟨by simp, by simp, ?_⟩
    cases tasks with
    | nil => exact ⟨0, 1, .run_step hs hstore hwithin (hsteps state rfl)⟩
    | cons task tasks =>
      refine ⟨0, 0, ?_⟩
      have hnext := hwithin.within_after fun binding hm =>
        Nat.le_succ_of_le (hstore binding hm)
      simp only [Machine.run, List.cons_append, after_eq, ← List.append_assoc]
      exact .within hstore hnext
  | done => exact .inl rfl

theorem Abreast.endsIn_iff (hs : step.IsAssignment) (hb : body.IsBlock)
    (hsteps : ∀ steps state, machine.run steps =
      ⟨state, [.forStep condition step body, .leave]⟩ → (state.assign step).isOk)
    (h : Abreast line condition step body level machine other) :
    machine.EndsIn final ↔ other.EndsIn final := by
  refine endsIn_iff_of_follows (R := fun now other => (∃ count, machine.run count = now) ∧
    Abreast line condition step body level now other) ?_ ⟨⟨0, rfl⟩, h⟩
  rintro _ other ⟨⟨count, rfl⟩, habreast⟩
  obtain heq | ⟨hm, ho, more, steps, hnow⟩ := habreast.advance hs hb (hsteps count)
  · exact .inl heq
  · exact .inr ⟨hm, ho, more, steps, ⟨_, run_add machine count (more + 1)⟩, hnow⟩

/-- Whether the step of a loop succeeds if it is what the machine does next. -/
def stepSucceeds : Machine → Bool
  | ⟨state, .forStep _ step _ :: _⟩ => (state.assign step).isOk
  | _ => true

end Machine

/-- A `for` whose first assignment and whose steps succeed ends if and only if its first assignment
followed by a `while` does, and then both leave the same state: the same bindings, level, output,
errors and inputs that are still to come. The body of the `while` is a block that holds the body
of the `for`, under a condition that always holds, and the step. -/
theorem for_loop_is_while_loop (text : String) (begun : State) (count : Nat) {state : State}
    {stmt first condition next body : Node} {tasks : List Task}
    (hat : (Machine.ofProgram begun (Parse.ofText text)).run count =
      ⟨state, .execute stmt :: tasks⟩)
    (hparts : stmt.ForParts first condition next body)
    (hfirst : (state.enter.assign first).isOk)
    (hsteps : ∀ steps inner, (Machine.ofStatement state stmt).run steps =
      ⟨inner, [.forStep condition next body, .leave]⟩ → (inner.assign next).isOk) :
    ∀ line final, (Machine.ofStatement state stmt).EndsIn final ↔
      (Machine.mk state
        [.execute first, .execute (.whileOf line condition next body)]).EndsIn final := by
  intro line final
  have hsound : Machine.Sound ⟨state, .execute stmt :: tasks⟩ :=
    hat ▸ (Machine.sound_ofProgram begun text).sound_run count
  have hstmt : stmt.IsStatement := hsound.isShaped rfl
  obtain ⟨hassign, htest, hnext, hbody⟩ := hparts.shapes hstmt
  have hheader : state.enter.InHeader state.level := ⟨rfl, hsound.store_scoped⟩
  cases hinit : state.enter.assign first with
  | error error => simp [hinit, Except.isOk, Except.toBool] at hfirst
  | ok entered =>
    obtain ⟨hentered, houter⟩ := hheader.assign hassign hinit
    let loop := Machine.ofStatement state stmt
    let expansion := Machine.mk state
      [.execute first, .execute (.whileOf line condition next body)]
    have hloop : loop.run 1 = ⟨entered, [.forLoop condition next body, .leave]⟩ := by
      simp [loop, Machine.ofStatement, Machine.run, Machine.after_eq, State.perform,
        State.execute, hparts.kind, State.forLoop_eq hparts, hinit]
    have hexpansion : expansion.run 2 = ⟨entered.onLevel state.level,
        [.whileLoop condition (unrolled line next body)]⟩ := by
      have hassigned : state.assign first = .ok (entered.onLevel state.level) := houter
      obtain ⟨_, _, rfl, -⟩ := htest
      simp [expansion, Machine.run, Machine.after_eq, State.perform, State.execute,
        hassign.kind_eq, hassigned, State.settle, whileOf, State.whileLoop, part?, unrolled]
    have habreast : Machine.Abreast line condition next body state.level (loop.run 1)
        (expansion.run 2) := by
      rw [hloop, hexpansion]
      exact .test hentered
    calc loop.EndsIn final
      _ ↔ (loop.run 1).EndsIn final := (Machine.endsIn_run loop 1).symm
      _ ↔ (expansion.run 2).EndsIn final := by
        refine habreast.endsIn_iff hnext hbody fun steps inner hrun => ?_
        exact hsteps (1 + steps) inner ((Machine.run_add loop 1 steps).trans hrun)
      _ ↔ expansion.EndsIn final := Machine.endsIn_run expansion 2

/-- The body shadows the variable that the loop counts with, and it fails each time. -/
theorem shadowed_counter_ends_as_while :
    let machine := Machine.ofProgram (.start (.ofFeed [])) (Parse.ofText
      "int i, s = 0; for (i = 0; i < 2; i = i + 1) \x7b int i = 5; s = s + i; t = i; \x7d")
    ∃ state stmt tasks first condition next body final,
      machine.run 3 = ⟨state, .execute stmt :: tasks⟩ ∧
      stmt.ForParts first condition next body ∧ (state.enter.assign first).isOk ∧
      (∀ steps inner, (Machine.ofStatement state stmt).run steps =
        ⟨inner, [.forStep condition next body, .leave]⟩ → (inner.assign next).isOk) ∧
      (Machine.mk state
        [.execute first, .execute (.whileOf 1 condition next body)]).EndsIn final ∧
      final.lookup? "i" = some ⟨"i", .int, 1, 0, some (.int 2), none⟩ ∧
      final.lookup? "s" = some ⟨"s", .int, 1, 0, some (.int 10), none⟩ ∧
      final.errors.size = 2 := by
  intro machine
  let state : State := (machine.run 3).state
  let loop (stmt : Node) : Machine := .ofStatement state stmt
  have hbegins : (machine.run 3).begins (fun stmt => stmt.kind == .forLoop &&
      ((stmt.part? .init).bind content?).all (fun first => (state.enter.assign first).isOk) &&
      (List.range 20).all (fun steps => ((loop stmt).run steps).stepSucceeds) &&
      ((loop stmt).run 20).tasks.isEmpty &&
      ((loop stmt).run 20).state.lookup? "i" == some ⟨"i", .int, 1, 0, some (.int 2), none⟩ &&
      ((loop stmt).run 20).state.lookup? "s" == some ⟨"s", .int, 1, 0, some (.int 10), none⟩ &&
      ((loop stmt).run 20).state.errors.size == 2) = true := by
    decide +kernel
  obtain ⟨stmt, tasks, hat, hruns⟩ := Machine.exists_of_begins hbegins
  simp only [Bool.and_eq_true, beq_iff_eq, List.all_eq_true, List.mem_range] at hruns
  obtain ⟨⟨⟨⟨⟨⟨hk, hinit⟩, hsucceed⟩, hempty⟩, hi⟩, hs⟩, herrors⟩ := hruns
  have hsound : Machine.Sound ⟨state, .execute stmt :: tasks⟩ :=
    hat ▸ (Machine.sound_ofProgram _ _).sound_run 3
  have hstmt : stmt.IsStatement := hsound.isShaped rfl
  obtain ⟨first, condition, next, body, hparts, -⟩ := hstmt.exists_forParts hk
  have hfirst : (state.enter.assign first).isOk := by
    rw [hparts.init] at hinit
    exact hinit
  have hdone : (loop stmt).run 20 = ⟨((loop stmt).run 20).state, []⟩ :=
    congrArg (Machine.mk _) (List.isEmpty_iff.1 hempty)
  have hsteps : ∀ steps inner, (loop stmt).run steps =
      ⟨inner, [.forStep condition next body, .leave]⟩ → (inner.assign next).isOk := by
    intro steps inner hrun
    obtain hlt | hle := Nat.lt_or_ge steps 20
    · have hok := hsucceed steps hlt
      rw [hrun] at hok
      exact hok
    · cases hrun.symm.trans (Machine.run_of_done hdone hle)
  have hends := (for_loop_is_while_loop _ _ 3 hat hparts hfirst hsteps 1 _).1 ⟨20, hdone⟩
  exact ⟨state, stmt, tasks, first, condition, next, body, _, hat, hparts, hfirst, hsteps, hends,
    hi, hs, herrors⟩

end BlockLang
