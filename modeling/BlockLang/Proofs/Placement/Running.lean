import BlockLang.Proofs.Matching.Execution
import BlockLang.Proofs.Placement
import BlockLang.Proofs.Tree.Procedures
import BlockLang.Token.Scan

/-! # Places do not matter to a run

The trees of alike tokens match if any lines match, and matching programs run in step.
So where tokens stand decides nothing but which places are named in errors.
-/
namespace BlockLang
open Matching

namespace Matching

theorem Causes.eq_of_places {cause twin : RuntimeError.Cause} (h : ofPlaces.Causes cause twin) :
    cause = twin := by
  cases h with
  | same => rfl
  | named make index _ hn =>
    cases hn
    rfl

theorem tasks_alike {program twin : Node} (h : program.Alike twin) (begun : State) :
    List.Forall₂ ofPlaces.Tasks (Machine.ofProgram begun program).tasks
      (Machine.ofProgram begun twin).tasks := by
  rw [Machine.ofProgram, Machine.ofProgram, List.forall₂_map_left_iff, List.forall₂_map_right_iff]
  refine h.children.imp fun stmt mate hn => ?_
  rw [hn.hasError_eq]
  split
  · exact .skip trivial
  · exact .execute hn

end Matching

/-- Tokens of the same kinds and texts are parsed into the same tree up to lines, with errors for
the same causes in the same order. From any state and after any number of steps, the two trees have
printed the same, have taken the same input and have reported errors for the same causes in the
same order, and one run has ended if the other has. -/
theorem places_do_not_matter {tokens others : List Token}
    (h : List.Forall₂ Token.Alike tokens others) :
    let parsed := Parse.program tokens
    let twin := Parse.program others
    parsed.1.withoutLines = twin.1.withoutLines ∧
      parsed.2.map SyntaxError.cause = twin.2.map SyntaxError.cause ∧
      ∀ (begun : State) (count : Nat),
        let machine := (Machine.ofProgram begun parsed.1).run count
        let other := (Machine.ofProgram begun twin.1).run count
        machine.state.output = other.state.output ∧ machine.state.supply = other.state.supply ∧
          machine.state.errors.toList.map RuntimeError.cause =
            other.state.errors.toList.map RuntimeError.cause ∧
          (machine.tasks = [] ↔ other.tasks = []) := by
  intro parsed twin
  have hbuilt := Parse.built_program h
  have htree : parsed.1.Alike twin.1 := (List.forall₂_cons.1 hbuilt.alike).1
  refine ⟨htree.withoutLines_eq, hbuilt.causes_eq, fun begun count => ?_⟩
  intro machine other
  have hstart := states_same ofPlaces (fun _ => trivial) begun
  obtain ⟨hstates, htasks⟩ := hstart.run (tasks_alike htree begun) (.inl fun _ => rfl) count
  have herrors : machine.state.errors.toList.map RuntimeError.cause =
      other.state.errors.toList.map RuntimeError.cause :=
    rel_map_eq hstates.errors fun _ _ he => he.causes.eq_of_places
  have hlength : machine.tasks.length = other.tasks.length := htasks.length_eq
  refine ⟨hstates.output, hstates.supply, herrors, ?_⟩
  rw [← List.length_eq_zero_iff, ← List.length_eq_zero_iff, hlength]

/-- Line breaks change where errors are reported, in parsing and in a run, but nothing else. -/
theorem broken_lines_run_alike :
    let tokens := (Scan.ofText "int a[2]; read(a[1]); = a[5] = 1; write(a[1] * 2);").1
    let broken := (Scan.ofText "int\na[2];read(a\n[1]\n);\n=a[5]\n= 1;write(\na[1]*2\n);").1
    let machine := (Machine.ofProgram (.start (.ofFeed ["21"])) (Parse.program broken).1).run 20
    List.Forall₂ Token.Alike tokens broken ∧
      (Parse.program broken).2.map SyntaxError.cause = [.statementStart "="] ∧
      machine.state.output = #["42"] ∧ machine.state.supply.served = 1 ∧
      machine.state.errors.toList.map RuntimeError.cause = [.skipped, .indexRange 5 "a" 2] ∧
      machine.tasks = [] := by
  intro tokens broken machine
  let other := (Machine.ofProgram (.start (.ofFeed ["21"])) (Parse.program tokens).1).run 20
  have hrun : List.Forall₂ Token.Alike tokens broken ∧
      (Parse.program tokens).2.map SyntaxError.cause = [.statementStart "="] ∧
      other.state.output = #["42"] ∧ other.state.supply.served = 1 ∧
      other.state.errors.toList.map RuntimeError.cause = [.skipped, .indexRange 5 "a" 2] ∧
      other.tasks.isEmpty = true := by decide +kernel
  obtain ⟨halike, hcauses, hprinted, hserved, hreported, hended⟩ := hrun
  obtain ⟨-, hparsed, hruns⟩ := places_do_not_matter halike
  obtain ⟨houtput, hsupply, herrors, htasks⟩ := hruns (.start (.ofFeed ["21"])) 20
  exact ⟨halike, hparsed.symm.trans hcauses, houtput.symm.trans hprinted,
    (congrArg Supply.served hsupply).symm.trans hserved, herrors.symm.trans hreported,
    htasks.1 (List.isEmpty_iff.1 hended)⟩

end BlockLang
