import BlockLang.Proofs.Matching.Execution
import BlockLang.Proofs.Shape.Derived
import Mathlib.Data.Set.Function

/-! # Renaming

The names in a tree are the texts of its declarators and identifiers. A program whose names
are replaced by others, different ones for different names, matches the program as it was,
and so it does the same. The names of cells need not be considered, as long as no name has
the mark that stands in them.
-/
namespace BlockLang
open Scope

namespace Node

mutual

/-- The names that are declared or used in a tree, in their order. -/
def names : Node → List String
  | ⟨kind, text, _, children⟩ =>
    if kind.isNaming then text :: namesOf children else namesOf children

def namesOf : List Node → List String
  | [] => []
  | node :: nodes => node.names ++ namesOf nodes

end

mutual

def renamed (rename : String → String) : Node → Node
  | ⟨kind, text, line, children⟩ =>
    ⟨kind, if kind.isNaming then rename text else text, line, renamedAll rename children⟩

def renamedAll (rename : String → String) : List Node → List Node
  | [] => []
  | node :: nodes => node.renamed rename :: renamedAll rename nodes

end

variable {n : Node} {nodes : List Node} {name : String} (rename : String → String)

theorem renamedAll_eq_map : renamedAll rename nodes = nodes.map (renamed rename) := by
  induction nodes with
  | nil => rfl
  | cons node nodes ih => rw [renamedAll, ih, List.map_cons]

mutual

theorem hasError_renamed : (n : Node) → (n.renamed rename).hasError = n.hasError
  | ⟨kind, text, line, children⟩ => by
    rw [renamed, hasError, hasError, anyHasError_renamedAll children]

theorem anyHasError_renamedAll : (nodes : List Node) →
    anyHasError (renamedAll rename nodes) = anyHasError nodes
  | [] => rfl
  | node :: nodes => by
    rw [renamedAll, anyHasError, anyHasError, hasError_renamed node, anyHasError_renamedAll nodes]

end

theorem line_renamed (n : Node) : (n.renamed rename).line = n.line := by
  cases n
  rfl

theorem children_renamed (n : Node) :
    (n.renamed rename).children = n.children.map (renamed rename) := by
  cases n
  exact renamedAll_eq_map rename

theorem mem_namesOf : name ∈ namesOf nodes ↔ ∃ n ∈ nodes, name ∈ n.names := by
  induction nodes with
  | nil => simp [namesOf]
  | cons node nodes ih => simp [namesOf, ih]

theorem mem_names {kind : NodeKind} {text : String} {line : Nat} :
    name ∈ names ⟨kind, text, line, nodes⟩ ↔
      kind.isNaming ∧ name = text ∨ ∃ n ∈ nodes, name ∈ n.names := by
  rw [names, ← mem_namesOf]
  split
  · rename_i hk
    simp [hk]
  · rename_i hk
    simp [hk]

theorem mem_names_of_mem {m : Node} (h : n ∈ m.children) (hn : name ∈ n.names) :
    name ∈ m.names := by
  obtain ⟨kind, text, line, children⟩ := m
  exact mem_names.2 (.inr ⟨n, h, hn⟩)

/-! ## Names in shaped trees -/

/-- No name in a tree has the mark of cells. -/
def NamesUnmarked (n : Node) : Prop :=
  ∀ name ∈ n.names, IsName name

theorem namesUnmarked_iff {kind : NodeKind} {text : String} {line : Nat} :
    NamesUnmarked ⟨kind, text, line, nodes⟩ ↔
      (kind.isNaming → IsName text) ∧ ∀ n ∈ nodes, n.NamesUnmarked := by
  simp only [NamesUnmarked, mem_names, or_imp, forall_and, and_imp, forall_exists_index]
  constructor
  · rintro ⟨hself, hbelow⟩
    exact ⟨fun hk => hself _ hk rfl, fun n hn name => hbelow name n hn⟩
  · rintro ⟨hself, hbelow⟩
    refine ⟨?_, fun name n hn => hbelow n hn name⟩
    rintro _ hk rfl
    exact hself hk

theorem inherited_namesUnmarked : Inherited NamesUnmarked := by
  intro kind text line children hd hi hc
  refine namesUnmarked_iff.2 ⟨fun hk => ?_, hc⟩
  cases kind with
  | identifier => exact isName_of_spells (hi rfl)
  | declarator => exact absurd rfl hd
  | _ => cases hk

theorem IsDeclarator.namesUnmarked (h : n.IsDeclarator) : n.NamesUnmarked := by
  have hparts := h.inherits inherited_namesUnmarked
  obtain ⟨subscript, initializer, hname, -, -⟩ := h
  exact namesUnmarked_iff.2 ⟨fun _ => isName_of_spells hname, hparts⟩

/-- The scanner puts no mark into a name. -/
theorem IsStatement.namesUnmarked (h : n.IsStatement) : n.NamesUnmarked := by
  have hp := inherited_namesUnmarked
  have test {condition : Node} (ht : Wraps .condition "" IsCondition condition) :
      condition.NamesUnmarked := ht.inherits hp (by decide) fun _ hc => hc.inherits hp
  have assign {kind : NodeKind} {header : Node} (ha : Wraps kind "" IsAssignment header)
      (hk : kind ∉ [.declarator, .identifier]) : header.NamesUnmarked :=
    ha.inherits hp hk fun _ ha => ha.inherits hp
  induction h with
  | declaration _ hitems =>
    exact namesUnmarked_iff.2 ⟨nofun, fun item hi => (hitems item hi).namesUnmarked⟩
  | assignment ha => exact ha.inherits hp
  | read ht => exact hp (by decide) (by simp) (List.forall_mem_singleton.2 (ht.inherits hp))
  | write hv => exact hp (by decide) (by simp) (List.forall_mem_singleton.2 (hv.inherits hp))
  | conditional ht _ ihb =>
    simpa [namesUnmarked_iff, NodeKind.isNaming, test ht] using ihb
  | alternative ht _ _ ihb ihe =>
    simpa [namesUnmarked_iff, NodeKind.isNaming, test ht] using ⟨ihb, ihe⟩
  | whileLoop ht _ ihb =>
    simpa [namesUnmarked_iff, NodeKind.isNaming, test ht] using ihb
  | forLoop hi ht hs _ ihb =>
    have hinit := assign hi (by decide)
    have hstep := assign hs (by decide)
    simpa [namesUnmarked_iff, NodeKind.isNaming, test ht, hinit, hstep] using ihb

end Node

/-! ## Runs of renamed programs -/

def Matching.ofRenaming {names : List String} {rename : String → String}
    (hinj : Set.InjOn rename {name | name ∈ names}) (hname : ∀ name ∈ names, IsName (rename name)) :
    Matching where
  names name twin := name ∈ names ∧ IsName name ∧ twin = rename name
  lines line place := line = place
  key_eq_iff index place hn ho := by
    obtain ⟨hmem, hisname, rfl⟩ := hn
    obtain ⟨hother, hisother, rfl⟩ := ho
    rw [key_inj hisname hisother, key_inj (hname _ hmem) (hname _ hother), hinj.eq_iff hmem hother]

namespace Matching
open Node

mutual

theorem nodes_renamed {c : Matching} {rename : String → String} (hl : ∀ line, c.lines line line) :
    (n : Node) → (∀ name ∈ n.names, c.names name (rename name)) → c.Nodes n (n.renamed rename)
  | ⟨kind, text, line, children⟩, h => by
    have hbelow : ∀ name ∈ namesOf children, c.names name (rename name) := fun name hn =>
      h name (mem_names.2 (.inr (mem_namesOf.1 hn)))
    refine .intro ?_ (hl line) (nodes_renamedAll hl children hbelow)
    cases hk : kind.isNaming with
    | true => simpa [Texts, hk] using h text (mem_names.2 (.inl ⟨hk, rfl⟩))
    | false => simp [Texts, hk]

theorem nodes_renamedAll {c : Matching} {rename : String → String}
    (hl : ∀ line, c.lines line line) : (nodes : List Node) →
      (∀ name ∈ namesOf nodes, c.names name (rename name)) →
      List.Forall₂ c.Nodes nodes (renamedAll rename nodes)
  | [], _ => .nil
  | node :: nodes, h => by
    rw [namesOf, List.forall_mem_append] at h
    exact .cons (nodes_renamed hl node h.1) (nodes_renamedAll hl nodes h.2)

end

/-- A statement that is executed has its shape, so its names have no marks. -/
theorem tasks_renamed {program : Node} {rename : String → String}
    (hinj : Set.InjOn rename {name | name ∈ program.names})
    (hname : ∀ name ∈ program.names, IsName (rename name))
    (hs : ∀ stmt ∈ program.children, stmt.hasError = false → stmt.IsStatement) (begun : State) :
    List.Forall₂ (ofRenaming hinj hname).Tasks (Machine.ofProgram begun program).tasks
      (Machine.ofProgram begun (program.renamed rename)).tasks := by
  rw [Machine.ofProgram, Machine.ofProgram, children_renamed, List.map_map]
  rw [List.forall₂_map_left_iff, List.forall₂_map_right_iff, List.forall₂_same]
  intro stmt hm
  rw [Function.comp_apply, hasError_renamed]
  cases he : stmt.hasError with
  | true => exact .skip (line_renamed rename stmt).symm
  | false =>
    refine .execute (nodes_renamed (fun _ => rfl) stmt fun name hn => ?_)
    exact ⟨mem_names_of_mem hm hn, (hs stmt hm he).namesUnmarked name hn, rfl⟩

end Matching

/-- Names do not matter. From any state, a program that has been scanned and parsed prints the same
as with other names, takes the same input and reports errors of the same kinds on the same lines,
after any number of steps; one of the two has ended if the other has. -/
theorem names_do_not_matter {text : String} {rename : String → String}
    (hinj : Set.InjOn rename {name | name ∈ (Parse.ofText text).names})
    (hname : ∀ name ∈ (Parse.ofText text).names, IsName (rename name)) (begun : State)
    (count : Nat) :
    let program := Parse.ofText text
    let machine := (Machine.ofProgram begun program).run count
    let other := (Machine.ofProgram begun (program.renamed rename)).run count
    machine.state.output = other.state.output ∧ machine.state.supply = other.state.supply ∧
      machine.state.errors.toList.map (fun error => (error.cause.kind, error.line)) =
        other.state.errors.toList.map (fun error => (error.cause.kind, error.line)) ∧
      (machine.tasks = [] ↔ other.tasks = []) := by
  intro program machine other
  have hshapes := Parse.shapes_ofText text
  have hstart := Matching.states_same (.ofRenaming hinj hname) (fun _ => rfl) begun
  obtain ⟨hstates, htasks⟩ := hstart.run (Matching.tasks_renamed hinj hname hshapes begun)
    (.inr (Machine.isShaped_ofProgram begun hshapes)) count
  refine ⟨hstates.output, hstates.supply, ?_, ?_⟩
  · rw [← List.forall₂_eq_eq_eq, List.forall₂_map_left_iff, List.forall₂_map_right_iff]
    exact hstates.errors.imp fun _ _ he => Prod.ext he.causes.kind_eq he.lines
  · have hlength : machine.tasks.length = other.tasks.length := htasks.length_eq
    rw [← List.length_eq_zero_iff, ← List.length_eq_zero_iff, hlength]

/-- An array changes names with its index, and so does a variable that shadows it. -/
theorem swapped_names_print_same :
    let program := Parse.ofText ("int a[2], i = 1; a[i] = 7; " ++
      "if (0 < i) \x7b real a = 0.5; write(a); \x7d write(a[i]); write(a[2]);")
    let swap (name : String) := if name = "a" then "i" else if name = "i" then "a" else name
    let machine := (Machine.ofProgram (.start (.ofFeed [])) (program.renamed swap)).run 20
    program.names = ["a", "i", "a", "i", "i", "a", "a", "a", "i", "a"] ∧
      machine.state.output = #["0.5", "7"] ∧
      machine.state.errors.toList.map (fun error => (error.cause.kind, error.line)) =
        [(.indexOutOfBounds, 1)] ∧
      machine.tasks = [] := by
  intro program swap machine
  let other := (Machine.ofProgram (.start (.ofFeed [])) program).run 20
  have hrun : program.names = ["a", "i", "a", "i", "i", "a", "a", "a", "i", "a"] ∧
      other.state.output = #["0.5", "7"] ∧
      other.state.errors.toList.map (fun error => (error.cause.kind, error.line)) =
        [(.indexOutOfBounds, 1)] ∧ other.tasks.isEmpty = true := by decide +kernel
  obtain ⟨hnames, hprinted, hreported, hended⟩ := hrun
  have hswap : swap.Involutive := fun name => by grind
  have hname : ∀ name ∈ program.names, IsName (swap name) := by
    simp [hnames, swap, IsName]
  obtain ⟨houtput, -, herrors, htasks⟩ :=
    names_do_not_matter hswap.injective.injOn hname (.start (.ofFeed [])) 20
  exact ⟨hnames, houtput.symm.trans hprinted, herrors.symm.trans hreported,
    htasks.1 (List.isEmpty_iff.1 hended)⟩

end BlockLang
