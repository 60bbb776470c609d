import BlockLang.Proofs.Scope.Declarations
import BlockLang.Proofs.Scope.Simulation
import BlockLang.Proofs.Tree.ErrorLeaves

/-! # Static checks of names

Whether a program declares a name again in one block, or uses one that has not been
declared, is decided at run time. Two checks of the tree alone are sound: if no statement
list declares a name twice, no run reports this, and if every identifier stands behind a
declarator of a variable of its name, no run reports a name that is not declared.
-/
namespace BlockLang

/-- Whether each identifier in a tree stands behind a declarator of a variable of its name, in its
own statement list or in one around it, or in the initializer of such a declarator. -/
def Node.declaresBeforeUse (n : Node) : Bool :=
  Scope.resolution.passes [] n

namespace Scope
open Node

variable {once found : Prop} {machine : BlockLang.Machine} {flat : BlockLang.State}
  {state : State} {task : Task} {tasks : List Task} {stmts : List Node}

/-! ## Runs -/

/-- What is true at each moment of a run, and of the same run on frames, if the program passes the
first check, the second or both. -/
structure Checked (once found : Prop) (machine : BlockLang.Machine) (state : State) : Prop where
  simulates : Simulates machine.state state
  shaped : machine.IsShaped
  clear : state.Clear once found
  fresh : once → freshness.Holds ⟨state, machine.tasks⟩
  resolved : found → resolution.Holds ⟨state, machine.tasks⟩

/-- There is always a frame that a declarator can add to. -/
theorem Simulates.domains (h : Simulates flat state) :
    ∃ domain domains, state.frames.domains = domain :: domains := by
  have hlength : state.frames.domains.length = flat.level + 1 := by
    rw [Frames.domains, List.length_map, h.level]
  exact List.exists_cons_of_length_eq_add_one hlength

namespace Checked

theorem clear_perform (h : Checked once found ⟨flat, task :: tasks⟩ state) :
    (state.perform task).1.Clear once found := by
  obtain ⟨stmt, rfl⟩ | ht := h.shaped task List.mem_cons_self
  · exact h.clear.report trivial
  · obtain ⟨domain, domains, hdomains⟩ := h.simulates.domains
    exact h.clear.perform ht hdomains h.fresh h.resolved

/-- What a step preserves. -/
theorem after (h : Checked once found ⟨flat, task :: tasks⟩ state) :
    Checked once found (BlockLang.Machine.after flat task tasks) (state.perform task).1 := by
  have htask := h.shaped task List.mem_cons_self
  obtain ⟨hstate, hnext⟩ := h.simulates.after htask
  have htasks : (BlockLang.Machine.after flat task tasks).tasks =
      (state.perform task).2 ++ tasks := congrArg (· ++ tasks) hnext
  refine ⟨hstate, (BlockLang.Machine.after_spec h.shaped).1, h.clear_perform, ?_, ?_⟩
  · intro ho
    rw [htasks]
    exact (h.fresh ho).perform htask
  · intro hf
    rw [htasks]
    exact (h.resolved hf).perform htask

/-- What a run preserves. -/
theorem run (h : Checked once found machine state) (count : Nat) :
    ∃ next, Checked once found (machine.run count) next := by
  refine BlockLang.Machine.run_induction (P := fun now => ∃ next, Checked once found now next)
    ?_ count ⟨state, h⟩
  rintro flat task tasks ⟨state, hs⟩
  exact ⟨_, hs.after⟩

theorem permits (h : Checked once found machine state) :
    ∀ error ∈ machine.state.errors.toList, Permits once found error.cause := by
  rw [h.simulates.errors]
  exact h.clear

end Checked

/-! ## Programs -/

theorem Discipline.holds_start {d : Discipline} (hd : state.frames.domains = [fun _ => false])
    (hf : d.Fits [fun _ => false] []) (hp : d.passInOrder [] stmts) :
    d.Holds ⟨state, stmts.map .execute⟩ := by
  refine ⟨[[]], hd ▸ .cons hf .nil, ?_⟩
  rw [← List.append_nil (stmts.map Task.execute)]
  exact passes_map (fun _ _ h => h) (fun _ => rfl) hp .nil

theorem freshness_holds {program : Node} (hd : state.frames.domains = [fun _ => false])
    (hk : program.kind = .program) (hs : ∀ stmt ∈ program.children, stmt.IsStatement)
    (h : program.declaresOnce) : freshness.Holds ⟨state, program.children.map .execute⟩ := by
  apply Discipline.holds_start hd (by simp [freshness])
  apply passInOrder_of_declaresOnce (.inl hk) h hs
  exact fun stmt hm => passes_of_declaresOnce (hs stmt hm)

theorem resolution_holds {program : Node} (hd : state.frames.domains = [fun _ => false])
    (hk : program.kind = .program) (h : program.declaresBeforeUse) :
    resolution.Holds ⟨state, program.children.map .execute⟩ := by
  have hw : resolution.within [] program = [] := if_pos (.inl hk)
  exact Discipline.holds_start hd (by simp [resolution]) (hw ▸ Check.passInOrder_of_passes h)

/-- A text without errors has statements only. -/
theorem statements_of_no_errors {text : String}
    (h : (Parse.program (Scan.ofText text).1).2 = []) :
    ∀ stmt ∈ (Parse.ofText text).children, stmt.hasError = false ∧ stmt.IsStatement := by
  intro stmt hm
  have hstep := Parse.inStep_statements (Scan.ofText text).1
  have hnone : stmt.hasError = false := hstep.hasError_of_mem h stmt hm
  exact ⟨hnone, Parse.shapes_ofText text stmt hm hnone⟩

theorem checked_ofProgram {text : String} (h : (Parse.program (Scan.ofText text).1).2 = [])
    (supply : Supply) :
    let program := Parse.ofText text
    Checked program.declaresOnce program.declaresBeforeUse
      (BlockLang.Machine.ofProgram (.start supply) program) (.start #[] #[] supply) := by
  intro program
  have hs := statements_of_no_errors h
  have htasks : (BlockLang.Machine.ofProgram (.start supply) program).tasks =
      program.children.map .execute :=
    List.map_congr_left fun stmt hm => if_neg (by simp [(hs stmt hm).1])
  have hshaped := BlockLang.Machine.isShaped_ofProgram (.start supply) (Parse.shapes_ofText text)
  refine ⟨⟨represents_empty, rfl, rfl, rfl, rfl⟩, hshaped, ?_, ?_, ?_⟩
  · simp [State.Clear, State.start]
  · intro ho
    rw [htasks]
    exact freshness_holds rfl rfl (fun stmt hm => (hs stmt hm).2) ho
  · intro hf
    rw [htasks]
    exact resolution_holds rfl rfl hf

/-- The checks of names are sound. If no statement list of a program without errors declares a name
twice, no run of it ever reports a name as declared again, and if each identifier stands behind
a declarator of a variable of its name, no run reports a name as not declared. -/
theorem scope_checks_are_sound {text : String}
    (h : (Parse.program (Scan.ofText text).1).2 = []) (supply : Supply) (count : Nat) :
    let program := Parse.ofText text
    let machine := (BlockLang.Machine.ofProgram (.start supply) program).run count
    let errors := machine.state.errors.toList
    (program.declaresOnce → ∀ error ∈ errors, error.cause.kind ≠ .redeclaration) ∧
      (program.declaresBeforeUse → ∀ error ∈ errors, error.cause.kind ≠ .undeclared) := by
  intro program machine errors
  obtain ⟨next, hnext⟩ := (checked_ofProgram h supply).run count
  refine ⟨fun ho error he => ?_, fun hf error he => ?_⟩
  · exact (hnext.permits error he).kind_ne_redeclaration ho
  · exact (hnext.permits error he).kind_ne_undeclared hf

/-- A body declares its names anew each time, and an inner block shadows one of them. -/
theorem bodies_declare_anew :
    let text := "int n, i; read(n); for (i = 0; i < 3; i = i + 1) \x7b int k = i; " ++
      "if (k < n) \x7b int i = k * 10; write(i); \x7d else write(n / (k - n)); \x7d"
    let program := Parse.ofText text
    let start := BlockLang.Machine.ofProgram (.start (.ofFeed ["2"])) program
    let errors := (start.run 60).state.errors.toList
    (Parse.program (Scan.ofText text).1).2 = [] ∧ program.declaresOnce ∧
      program.declaresBeforeUse ∧ (start.run 60).state.output = #["0", "10"] ∧
      errors.map (·.cause.kind) = [.divideByZero] ∧
      (∀ error ∈ errors, error.cause.kind ≠ .redeclaration) ∧
      ∀ error ∈ errors, error.cause.kind ≠ .undeclared := by
  intro text program start errors
  have hrun : (Parse.program (Scan.ofText text).1).2.isEmpty = true ∧ program.declaresOnce ∧
      program.declaresBeforeUse ∧ (start.run 60).state.output = #["0", "10"] ∧
      errors.map (·.cause.kind) = [.divideByZero] := by decide +kernel
  obtain ⟨hempty, honce, hfirst, houtput, herrors⟩ := hrun
  have hnone := List.isEmpty_iff.1 hempty
  obtain ⟨hfresh, hfound⟩ := scope_checks_are_sound hnone (.ofFeed ["2"]) 60
  exact ⟨hnone, honce, hfirst, houtput, herrors, hfresh honce, hfound hfirst⟩

end Scope
end BlockLang
