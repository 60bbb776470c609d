import BlockLang.Proofs.Shape.Derived
import BlockLang.Proofs.Shape.Execution
import BlockLang.Proofs.Shape.Literals

/-! # Statements that are skipped

In the run of a program that has been scanned and parsed, only the statements with an
error leaf are blamed for their trees. At each moment the errors of this kind that have
been reported and the ones that are still to come are those of all such statements.
-/
namespace BlockLang
open Node

def skippedError (stmt : Node) : RuntimeError :=
  ⟨.skipped, stmt.line⟩

/-- The error that a task is about to report for a statement it skips. -/
def Task.skipped? : Task → Option RuntimeError
  | .skip stmt => some (skippedError stmt)
  | _ => none

def State.blamed (state : State) : List RuntimeError :=
  state.errors.toList.filter fun error => error.cause.kind = .malformedTree

namespace Machine

def IsShaped (machine : Machine) : Prop :=
  ∀ task ∈ machine.tasks, (∃ stmt, task = .skip stmt) ∨ task.IsShaped

/-- The errors for which a tree was to blame, and those that are still to come. -/
def allBlamed (machine : Machine) : List RuntimeError :=
  machine.state.blamed ++ machine.tasks.filterMap Task.skipped?

def KeepsRange (machine : Machine) : Prop :=
  ∀ error ∈ machine.state.errors.toList, ∀ text, error.cause ≠ .literalRange text

theorem skipped?_of_isShaped {task : Task} (h : task.IsShaped) : task.skipped? = none := by
  cases task with
  | skip stmt => exact h.elim
  | _ => rfl

theorem filterMap_skipped? {tasks : List Task} (h : ∀ task ∈ tasks, task.IsShaped) :
    tasks.filterMap Task.skipped? = [] :=
  List.filterMap_eq_nil_iff.2 fun task ht => skipped?_of_isShaped (h task ht)

theorem blamed_of_continues {state next : State} (h : state.Continues next) :
    next.blamed = state.blamed := by
  obtain ⟨errors, he, hr⟩ := h
  have hnil : errors.filter (fun error => error.cause.kind = .malformedTree) = [] :=
    List.filter_eq_nil_iff.2 fun error hm => by simpa using (hr error hm).1
  rw [State.blamed, State.blamed, he, List.filter_append, hnil, List.append_nil]

theorem blamed_skip (state : State) (stmt : Node) :
    (state.perform (.skip stmt)).1.blamed = state.blamed ++ [skippedError stmt] := by
  simp [State.perform, State.report, State.blamed, skippedError, RuntimeError.Cause.kind]

/-- What a step preserves. -/
theorem after_spec {state : State} {task : Task} {tasks : List Task}
    (h : IsShaped ⟨state, task :: tasks⟩) :
    (after state task tasks).IsShaped ∧
      (after state task tasks).allBlamed = allBlamed ⟨state, task :: tasks⟩ ∧
      (KeepsRange ⟨state, task :: tasks⟩ → (after state task tasks).KeepsRange) := by
  obtain ⟨htask, htasks⟩ := List.forall_mem_cons.1 h
  obtain ⟨stmt, rfl⟩ | hshaped := htask
  · refine ⟨htasks, ?_, fun hrange => ?_⟩
    · have hb := blamed_skip state stmt
      rw [allBlamed, after, hb, List.append_assoc]
      rfl
    · intro error he
      have hm : error ∈ state.errors.toList ∨ error = skippedError stmt := by
        simpa [after, State.perform, State.report, skippedError] using he
      obtain hm | rfl := hm
      · exact hrange error hm
      · intro text ht
        cases ht
  · obtain ⟨hc, hnext⟩ : state.Follows (state.perform task) := State.follows_perform hshaped
    refine ⟨?_, ?_, fun hrange => ?_⟩
    · exact List.forall_mem_append.2 ⟨fun task ht => .inr (hnext task ht), htasks⟩
    · rw [allBlamed, allBlamed, after, blamed_of_continues hc, List.filterMap_append,
        filterMap_skipped? hnext, List.filterMap_cons_none (skipped?_of_isShaped hshaped)]
      rfl
    · obtain ⟨errors, he, hr⟩ := hc
      rw [KeepsRange, after, he]
      exact List.forall_mem_append.2 ⟨hrange, fun error hm => (hr error hm).2⟩

/-- What a run preserves. -/
theorem run_spec {machine : Machine} (count : Nat) (h : machine.IsShaped) :
    (machine.run count).allBlamed = machine.allBlamed ∧
      (machine.KeepsRange → (machine.run count).KeepsRange) := by
  refine And.right (run_induction (P := fun now => now.IsShaped ∧
    now.allBlamed = machine.allBlamed ∧ (machine.KeepsRange → now.KeepsRange)) ?_ count
    ⟨h, rfl, id⟩)
  rintro state task tasks ⟨hs, hb, hr⟩
  obtain ⟨hshaped, hblamed, hrange⟩ := after_spec hs
  exact ⟨hshaped, hblamed.trans hb, fun hk => hrange (hr hk)⟩

theorem isShaped_ofProgram (state : State) {program : Node}
    (h : ∀ stmt ∈ program.children, stmt.hasError = false → stmt.IsStatement) :
    (ofProgram state program).IsShaped := by
  intro task ht
  obtain ⟨stmt, hm, rfl⟩ := List.mem_map.1 ht
  split
  · exact .inl ⟨stmt, rfl⟩
  · rename_i he
    exact .inr (h stmt hm (by simpa using he))

theorem allBlamed_ofProgram (supply : Supply) (program : Node) :
    (ofProgram (.start supply) program).allBlamed =
      (program.children.filter Node.hasError).map skippedError := by
  have htasks (stmts : List Node) :
      (stmts.map fun stmt => if stmt.hasError then Task.skip stmt else .execute stmt).filterMap
        Task.skipped? = (stmts.filter Node.hasError).map skippedError := by
    induction stmts with
    | nil => rfl
    | cons stmt stmts ih =>
      rw [List.map_cons]
      cases h : stmt.hasError with
      | true =>
        have hs : (Task.skip stmt).skipped? = some (skippedError stmt) := rfl
        rw [if_pos rfl, List.filterMap_cons_some hs, ih, List.filter_cons_of_pos h, List.map_cons]
      | false =>
        have hs : (Task.execute stmt).skipped? = none := rfl
        rw [if_neg (by simp), List.filterMap_cons_none hs, ih,
          List.filter_cons_of_neg (by simp [h])]
  exact htasks program.children

end Machine

/-- After any number of steps, the errors that blame a tree are those of the statements with an
error leaf, each once and in order, so far as these are not still to come; no error is about the
range of a literal, and the literals of the other statements always have values. -/
theorem blamed_exactly_skipped (text : String) (supply : Supply) (count : Nat) :
    let program := Parse.ofText text
    let machine := (Machine.ofProgram (.start supply) program).run count
    machine.state.blamed ++ machine.tasks.filterMap Task.skipped? =
        (program.children.filter Node.hasError).map skippedError ∧
      (∀ error ∈ machine.state.errors.toList, ∀ text, error.cause ≠ .literalRange text) ∧
      ∀ stmt ∈ program.children, stmt.hasError = false → ∀ n : Node, n.OccursIn stmt →
        n.kind ∈ literalKinds → ∀ store level,
          ∃ value, Store.evaluate store level n = .ok value := by
  intro program machine
  have hshapes := Parse.shapes_ofText text
  obtain ⟨hb, hr⟩ := Machine.run_spec count (Machine.isShaped_ofProgram (.start supply) hshapes)
  refine ⟨hb.trans (Machine.allBlamed_ofProgram supply program), hr ?_, ?_⟩
  · exact List.forall_mem_nil _
  · intro stmt hm he n ho hn
    exact ((hshapes stmt hm he).literal hn ho).exists_value hn

end BlockLang
