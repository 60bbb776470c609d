import BlockLang.Proofs.Store.Frame

/-! # Outcomes of simple statements

A statement without a body is done as a whole or not at all. If it succeeds, it changes one
binding or prints one line, and if it fails, it reports one error and leaves the bindings as
they were. A read takes its input in between, and a declaration goes on behind a declarator
that fails, of which a variable without a value may be left.
-/
namespace BlockLang
open Node
open Scope (key)

def Supply.coming (supply : Supply) : List String :=
  supply.mailbox.value.toList ++ supply.feed

/-- The next value is the first one that is to come, and only this one is taken. -/
theorem Supply.coming_next (supply : Supply) :
    supply.next.1 = supply.coming.headD "" ∧ supply.next.2.coming = supply.coming.tail := by
  cases h : supply.mailbox.value with
  | none =>
    rw [next_of_empty h]
    simp [coming, h, Mailbox.empty]
  | some value =>
    rw [next_of_value h]
    simp [coming, h, Mailbox.empty]

namespace Store

/-- The binding of what a node stands for has got a value of its kind, and all others are as they
were. -/
inductive Sets (store : Store) (level : Nat) (node : Node) : Store → Prop
  | intro {header found : Binding} {index : Option Nat} {value : Value} {next : Store} :
    store.Denotes level node header index →
    store.visible? (key node.text index) level = some found → found.unset = header.part index →
    value.kind = found.kind →
    (∀ name, next.bindingsOf name = (store.bindingsOf name).map fun binding =>
      if binding = found then { binding with value := some value } else binding) →
    Sets store level node next

variable {store : Store} {level around : Nat} {node : Node} {header : Binding}
  {index : Option Nat} {value : Value}

theorem Scoped.sets (h : store.Scoped level) (hd : store.Denotes around node header index)
    (hk : value.kind = header.kind) :
    store.Sets around node (store.assign (key node.text index) around (some value)) := by
  obtain ⟨found, hfound, hpart⟩ := h.visible?_slot hd
  refine .intro hd hfound hpart (hk.trans (Binding.kind_of_part hpart).symm) fun name => ?_
  rw [h.ordered.bindingsOf_assign_eq_map]
  refine List.map_congr_left fun binding _ => ?_
  by_cases hb : binding = found
  · rw [if_pos hb, hb, assigned_self hfound]
  · have hne : store.visible? (key node.text index) around ≠ some binding :=
      fun hv => hb (Option.some.inj (hv.symm.trans hfound))
    rw [if_neg hb, assigned_of_ne hne]

end Store

namespace State

/-- A value has been put into what a node stands for, or an error has been reported, and nothing
else has happened. -/
inductive Puts (state : State) (target : Node) : State → Prop
  | done {store : Store} : state.store.Sets state.level target store →
    Puts state target { state with store }
  | failed (error : RuntimeError) : Puts state target (state.report error)

/-- Whether a declarator declares a variable that is to have a value at once. -/
def Initializes (state : State) (item : Node) : Prop :=
  state.store.atLevel? item.text state.level = none ∧ item.part? .subscript = none ∧
    (item.part? .initializer).isSome

/-- What a declarator leaves: a whole array, a variable, a variable with a value, the error of an
initializer and a variable without a value, or an error and nothing else. -/
inductive Declares (kind : Kind) (item : Node) (state : State) : State → Prop
  | array {size : Nat} : (item.part? .subscript).isSome →
    Declares kind item state { state with
      store := state.store.declare ⟨item.text, kind, item.line, state.level, none, some size⟩ }
  | scalar : item.part? .subscript = none → item.part? .initializer = none →
    Declares kind item state (state.declareScalar kind item)
  | initialized {store : Store} : state.Initializes item →
    (state.declareScalar kind item).store.Sets state.level
      (.leaf .identifier item.text item.line) store →
    Declares kind item state { state with store }
  | uninitialized (error : RuntimeError) : state.Initializes item →
    Declares kind item state ((state.declareScalar kind item).report error)
  | failed (error : RuntimeError) : ¬state.Initializes item →
    Declares kind item state (state.report error)

/-- Declarators are carried out one after the other, each in the state that the one before it
leaves. -/
inductive DeclaresAll (kind : Kind) : State → List Node → State → Prop
  | nil {state : State} : DeclaresAll kind state [] state
  | cons {state next final : State} {item : Node} {items : List Node} :
    state.Declares kind item next → DeclaresAll kind next items final →
    DeclaresAll kind state (item :: items) final

variable {state : State} {stmt item target : Node} {kind : Kind}

/-! ## Assignments -/

theorem puts_settle_assign (h : stmt.IsAssignment) (hs : state.store.Scoped state.level) :
    ∃ target source, stmt.children = [target, source] ∧
      state.Puts target (state.settle (state.assign stmt)) := by
  obtain @⟨line, target, source, -, -⟩ := h
  refine ⟨target, source, rfl, ?_⟩
  cases hresult : state.assign ⟨.assignment, "=", line, [target, source]⟩ with
  | error error => exact .failed error
  | ok next =>
    obtain ⟨slot, adapted, rfl, hk, _, _, hchildren, hslot⟩ := assign_eq_ok hresult
    cases hchildren
    obtain ⟨header, index, hd, rfl⟩ := Store.slotOf_eq_ok hslot
    exact .done (hs.sets hd hk)

/-! ## Reading and writing -/

theorem write_outcome (state : State) (stmt : Node) :
    (∃ line, state.write stmt = { state with output := state.output.push line }) ∨
      ∃ error, state.write stmt = state.report error := by
  unfold write
  split
  · exact .inl ⟨_, rfl⟩
  · exact .inr ⟨_, rfl⟩

def fed (state : State) : State :=
  { state with supply := state.supply.next.2 }

theorem read_outcome (hc : stmt.content? = some target) (hs : state.store.Scoped state.level) :
    (∃ error, state.slotOf target = .error error ∧ state.read stmt = state.report error) ∨
      (state.slotOf target).isOk ∧ state.fed.Puts target (state.read stmt) := by
  rw [State.read.eq_def, hc]
  dsimp only
  cases hslot : state.slotOf target with
  | error error => exact .inl ⟨error, rfl, rfl⟩
  | ok slot =>
    refine .inr ⟨rfl, ?_⟩
    obtain ⟨header, index, hd, rfl⟩ := Store.slotOf_eq_ok hslot
    dsimp only
    split
    · rename_i value hvalue
      have hsets := hs.sets hd (Value.kind_of_ofInput? hvalue)
      exact .done hsets
    · exact .failed _

/-! ## Declarations -/

theorem declares_declare (h : item.IsDeclarator) (hs : state.store.Scoped state.level) :
    state.Declares kind item (state.declare kind item) := by
  have hname : Scope.IsName item.text := by
    obtain ⟨_, _, hn, -⟩ := h
    exact Scope.isName_of_spells hn
  rw [declare]
  split
  · rename_i hold
    refine .failed _ fun hi => ?_
    rw [hi.1] at hold
    cases hold
  · rename_i hnot
    have hfresh : state.store.atLevel? item.text state.level = none := by
      simpa using hnot
    split
    · rename_i hsub _
      refine .failed _ fun hi => ?_
      cases hi.2.1.symm.trans hsub
    · rename_i subscript hsub _
      cases hresult : state.declareArray kind item subscript with
      | error error =>
        refine .failed _ fun hi => ?_
        cases hi.2.1.symm.trans hsub
      | ok next =>
        obtain ⟨size, rfl⟩ := declareArray_eq_ok hresult
        exact .array (hsub ▸ rfl)
    · rename_i hsub hinit
      exact .scalar hsub hinit
    · rename_i initializer hsub hinit
      have hi : state.Initializes item := ⟨hfresh, hsub, hinit ▸ rfl⟩
      dsimp only
      cases hresult : (state.declareScalar kind item).putInitial kind item initializer with
      | error error => exact .uninitialized error hi
      | ok next =>
        obtain ⟨adapted, rfl, hkind⟩ := putInitial_eq_ok hresult
        have hscoped := (change_declareScalar kind hname hfresh).scoped hs
        have hd : Store.Denotes (state.declareScalar kind item).store state.level
            (.leaf .identifier item.text item.line) _ none :=
          .variable rfl (visible?_declareScalar kind hname hs hfresh) rfl
        exact .initialized hi (hscoped.sets hd hkind)

end State

/-! ## Runs -/

/-- The assignment that a task carries out, and the state in which it does so. The first one of a
loop is carried out in the block of the header. -/
inductive Task.Assigns (state : State) : Task → Node → State → Prop
  | statement {stmt : Node} : stmt.kind = .assignment → Assigns state (.execute stmt) stmt state
  | first {stmt first condition next body : Node} : stmt.ForParts first condition next body →
    Assigns state (.execute stmt) first state.enter
  | step {condition step body : Node} : Assigns state (.forStep condition step body) step state

namespace Machine

variable {state begun : State} {stmt : Node} {kind : Kind} {task : Task} {tasks : List Task}
  {items : List Node}

theorem Sound.puts_of_assigns (h : Sound ⟨state, task :: tasks⟩)
    (ha : task.Assigns state stmt begun) : ∃ target source, stmt.children = [target, source] ∧
      begun.Puts target (state.perform task).1 := by
  have hs : state.store.Scoped state.level := h.store_scoped
  cases ha with
  | statement hk =>
    have hstmt : stmt.IsStatement := h.isShaped rfl
    have hperform : (state.perform (.execute stmt)).1 = state.settle (state.assign stmt) := by
      simp only [State.perform, State.execute, hk]
    rw [hperform]
    exact State.puts_settle_assign (hstmt.isAssignment hk) hs
  | @first whole first condition next body hparts =>
    have hstmt : whole.IsStatement := h.isShaped rfl
    have hentered : state.enter.store.Scoped state.enter.level := hs.mono (Nat.le_succ _)
    have hperform : (state.perform (.execute whole)).1 =
        state.enter.settle (state.enter.assign stmt) := by
      simp only [State.perform, State.execute, hparts.kind, State.forLoop_eq hparts]
      cases state.enter.assign stmt <;> rfl
    rw [hperform]
    exact State.puts_settle_assign (hparts.shapes hstmt).1 hentered
  | @step condition _ body =>
    have hshaped : (Task.forStep condition stmt body).IsShaped := h.isShaped rfl
    have hperform : (state.perform (.forStep condition stmt body)).1 =
        state.settle (state.assign stmt) := by
      rw [State.perform]
      cases state.assign stmt <;> rfl
    rw [hperform]
    exact State.puts_settle_assign hshaped.2.1 hs

theorem Sound.declares (h : Sound ⟨state, .declare kind stmt :: tasks⟩) :
    state.Declares kind stmt (state.declare kind stmt) ∧
      after state (.declare kind stmt) tasks = ⟨state.declare kind stmt, tasks⟩ := by
  have hitem : stmt.IsDeclarator := h.isShaped rfl
  refine ⟨State.declares_declare hitem h.store_scoped, ?_⟩
  rw [after_eq, State.perform, if_pos hitem.kind_eq]
  rfl

/-- By induction on the declarators; each is one step. -/
theorem Sound.run_declarators (h : Sound ⟨state, items.map (.declare kind) ++ tasks⟩) :
    ∃ final, run items.length ⟨state, items.map (.declare kind) ++ tasks⟩ = ⟨final, tasks⟩ ∧
      State.DeclaresAll kind state items final := by
  induction items generalizing state with
  | nil => exact ⟨state, rfl, .nil⟩
  | cons item items ih =>
    rw [List.map_cons, List.cons_append] at h ⊢
    obtain ⟨hone, hafter⟩ := h.declares
    have hlater : Sound ⟨state.declare kind item, items.map (.declare kind) ++ tasks⟩ :=
      hafter ▸ h.sound_after
    obtain ⟨final, hrun, hall⟩ := ih hlater
    refine ⟨final, ?_, .cons hone hall⟩
    rw [List.length_cons, run, hafter, hrun]

theorem Sound.run_declaration (h : Sound ⟨state, .execute stmt :: tasks⟩)
    (hk : stmt.kind = .declaration) : ∃ kind final, Kind.ofName? stmt.text = some kind ∧
      State.DeclaresAll kind state stmt.children final ∧
      run (stmt.children.length + 1) ⟨state, .execute stmt :: tasks⟩ = ⟨final, tasks⟩ := by
  obtain ⟨kind, hkind⟩ : ∃ kind, Kind.ofName? stmt.text = some kind := by
    have hstmt : stmt.IsStatement := h.isShaped rfl
    cases hstmt with
    | declaration => exact ⟨_, Kind.ofName?_name _⟩
    | assignment ha =>
      cases ha
      cases hk
    | _ => cases hk
  have hafter : after state (.execute stmt) tasks =
      ⟨state, stmt.children.map (.declare kind) ++ tasks⟩ := by
    rw [after_eq]
    simp only [State.perform, State.execute, hk, hkind]
  obtain ⟨final, hrun, hall⟩ := (hafter ▸ h.sound_after).run_declarators
  exact ⟨kind, final, hkind, hall, by rw [run, hafter, hrun]⟩

def begins (p : Node → Bool) (machine : Machine) : Bool :=
  match machine.tasks with
  | .execute stmt :: _ => p stmt
  | _ => false

theorem exists_of_begins {p : Node → Bool} {machine : Machine} (h : machine.begins p = true) :
    ∃ stmt tasks, machine = ⟨machine.state, .execute stmt :: tasks⟩ ∧ p stmt = true := by
  unfold begins at h
  split at h
  · rename_i stmt tasks htasks
    exact ⟨stmt, tasks, congrArg (mk machine.state) htasks, h⟩
  · cases h

end Machine

/-- In a run, an assignment gives a value to what its target stands for or reports one error, and
does nothing else. A write prints one line or reports one error. A read reports one error if its
target is not found, and otherwise takes the first input that is to come, and with it gives a value
or reports one error. Of a declaration each declarator is carried out, in the state that those
before it leave, and one that fails reports one error and leaves nothing but a variable without
a value if its initializer failed. -/
theorem simple_statements_are_atomic (text : String) (begun : State) (count : Nat)
    {state : State} {task : Task} {tasks : List Task}
    (hat : (Machine.ofProgram begun (Parse.ofText text)).run count = ⟨state, task :: tasks⟩) :
    let run := (Machine.ofProgram begun (Parse.ofText text)).run
    let after := (run (count + 1)).state
    (∀ stmt inner, task.Assigns state stmt inner →
      ∃ target source, stmt.children = [target, source] ∧ inner.Puts target after) ∧
    ∀ stmt, task = .execute stmt →
      (stmt.kind = .write →
        (∃ line, after = { state with output := state.output.push line }) ∨
          ∃ error, after = state.report error) ∧
      (stmt.kind = .read → ∃ target, stmt.content? = some target ∧
        ((∃ error, state.slotOf target = .error error ∧ after = state.report error) ∨
          (state.slotOf target).isOk ∧ state.fed.Puts target after ∧
            state.fed.supply.coming = state.supply.coming.tail)) ∧
      (stmt.kind = .declaration → ∃ kind final, Kind.ofName? stmt.text = some kind ∧
        State.DeclaresAll kind state stmt.children final ∧
        run (count + 1 + stmt.children.length) = ⟨final, tasks⟩) := by
  intro run after
  have hsound : Machine.Sound ⟨state, task :: tasks⟩ :=
    hat ▸ (Machine.sound_ofProgram begun text).sound_run count
  have hafter : after = (state.perform task).1 := by
    simp only [after, run, Machine.run_add, hat]
    rfl
  refine ⟨fun stmt inner ha => hafter ▸ hsound.puts_of_assigns ha, ?_⟩
  rintro stmt rfl
  refine ⟨fun hk => ?_, fun hk => ?_, fun hk => ?_⟩
  · have hwrite : after = state.write stmt := by
      rw [hafter, State.perform, State.execute, hk]
    exact hwrite ▸ state.write_outcome stmt
  · have hread : after = state.read stmt := by
      rw [hafter, State.perform, State.execute, hk]
    have hstmt : stmt.IsStatement := hsound.isShaped rfl
    obtain ⟨target, hc, -⟩ := hstmt.exists_target hk
    refine ⟨target, hc, ?_⟩
    rw [hread]
    obtain hfails | ⟨hok, hputs⟩ := State.read_outcome hc hsound.store_scoped
    · exact .inl hfails
    · exact .inr ⟨hok, hputs, (Supply.coming_next _).2⟩
  · obtain ⟨kind, final, hkind, hall, hrun⟩ := hsound.run_declaration hk
    refine ⟨kind, final, hkind, hall, ?_⟩
    rw [Nat.add_right_comm, Nat.add_assoc]
    simp only [run, Machine.run_add _ count, hat]
    exact hrun

/-- The first of three declarators leaves a variable without a value, the second one nothing. -/
theorem declarators_fail_one_by_one :
    let machine := Machine.ofProgram (.start (.ofFeed [])) (Parse.ofText "int n = 1 / 0, n, m;")
    ∃ state stmt tasks kind final, machine.run 0 = ⟨state, .execute stmt :: tasks⟩ ∧
      State.DeclaresAll kind state stmt.children final ∧ machine.run 4 = ⟨final, tasks⟩ ∧
      final.errors.size = 2 ∧ final.lookup? "n" = some ⟨"n", .int, 1, 0, none, none⟩ ∧
      final.lookup? "m" = some ⟨"m", .int, 1, 0, none, none⟩ := by
  intro machine
  have hbegins : (machine.run 0).begins (fun stmt =>
      stmt.kind == .declaration && stmt.children.length == 3) = true := by
    decide +kernel
  obtain ⟨stmt, tasks, hat, hstmt⟩ := Machine.exists_of_begins hbegins
  simp only [Bool.and_eq_true, beq_iff_eq] at hstmt
  obtain ⟨hk, hlength⟩ := hstmt
  obtain ⟨-, hsimple⟩ := simple_statements_are_atomic _ _ 0 hat
  obtain ⟨kind, final, -, hall, hrun⟩ := (hsimple stmt rfl).2.2 hk
  rw [hlength] at hrun
  have hfinal : final = (machine.run 4).state := congrArg Machine.state hrun.symm
  refine ⟨_, stmt, tasks, kind, final, hat, hall, hrun, ?_⟩
  rw [hfinal]
  decide +kernel

end BlockLang
