import BlockLang.Proofs.Store.Runs

/-! # The frame of a statement

A statement closes all blocks that it enters, and only a declaration adds bindings to the
block in which it is executed. Its assignments go to visible bindings, however deep they
stand in it, and a binding is not visible while another one of its name, or of the array
that it is a cell of, stands at a higher level.
-/
namespace BlockLang
open Scope (IsName key takeWhile_key)

def Binding.base (binding : Binding) : String :=
  String.ofList (binding.name.toList.takeWhile (· ≠ '@'))

namespace Store

/-- A deeper binding has the same base name. -/
def Hides (store : Store) (binding : Binding) : Prop :=
  ∃ inner ∈ store, inner.base = binding.base ∧ binding.level < inner.level

/-- What a statement executed at a level leaves of the bindings before it: all of them, hidden
ones with their values, and no others at this level or below unless it `declares` some there. -/
structure KeepsFrame (declares : Prop) (level : Nat) (store next : Store) : Prop where
  kept : ∀ binding ∈ store, ∃ other ∈ next, other.unset = binding.unset
  added : ∀ other ∈ next, other.level ≤ level →
    (∃ binding ∈ store, other.unset = binding.unset) ∨ declares ∧ other.level = level
  hidden : ∀ binding ∈ store, store.Hides binding → binding ∈ next

variable {store next : Store} {declares : Prop} {level around : Nat} {node : Node}
  {header binding other : Binding} {index : Option Nat}

theorem base_of_name {name : String} (hn : IsName name) (h : binding.name = key name index) :
    binding.base = name := by
  rw [Binding.base, h, takeWhile_key hn, String.ofList_toList]

theorem base_eq_of_unset (h : other.unset = binding.unset) : other.base = binding.base := by
  rw [Binding.base, Binding.base, Binding.name_eq_of_unset h]

/-- A variable or an array of the base name stands at the level of a binding. -/
theorem Scoped.exists_base (h : store.Scoped level) (hb : binding ∈ store) :
    ∃ header ∈ store, header.name = binding.base ∧ header.level = binding.level := by
  obtain hn | ⟨header, hh, index, hi, hcell⟩ := h.origin binding hb
  · have hname : binding.name = key binding.name none := rfl
    exact ⟨binding, hb, (base_of_name hn hname).symm, rfl⟩
  · have hname : binding.name = key header.name (some index) := Binding.name_of_part hcell
    exact ⟨header, hh, (base_of_name (h.isName hh hi) hname).symm,
      (Binding.level_of_part hcell).symm⟩

/-- What a node denotes stands at the highest level of its base name. -/
theorem Scoped.level_le_of_denotes (h : store.Scoped level) (hn : IsName node.text)
    (hd : store.Denotes around node header index)
    (hv : store.visible? (key node.text index) around = some binding) :
    ∀ inner ∈ store, inner.base = binding.base → inner.level ≤ around →
      inner.level ≤ binding.level := by
  intro inner hinner hbase hle
  obtain ⟨found, hfound, hpart⟩ := h.visible?_slot hd
  obtain rfl : found = binding := Option.some.inj (hfound.symm.trans hv)
  obtain ⟨-, hname, -, hmax⟩ := h.ordered.visible?_eq_some.1 hd.visible
  obtain ⟨array, ha, harray, hlevel⟩ := h.exists_base hinner
  have hkey : found.base = node.text :=
    base_of_name hn (h.ordered.visible?_eq_some.1 hfound).2.1
  rw [Binding.level_of_part hpart, ← hlevel]
  exact hmax array ha (harray.trans (hbase.trans hkey)) (hlevel ▸ hle)

/-! ## Operations -/

theorem KeepsFrame.refl (declares : Prop) (level : Nat) (store : Store) :
    store.KeepsFrame declares level store where
  kept binding hb := ⟨binding, hb, rfl⟩
  added other ho _ := .inl ⟨other, ho, rfl⟩
  hidden _ hb _ := hb

theorem KeepsFrame.put (h : store.KeepsFrame declares level next) (hs : next.Scoped around)
    (hstore : ∀ binding ∈ store, binding.level ≤ level) (hl : level ≤ around)
    (hn : IsName node.text) (hd : next.Denotes around node header index) (value : Option Value) :
    store.KeepsFrame declares level (next.assign (key node.text index) around value) where
  kept binding hb := by
    obtain ⟨other, ho, he⟩ := h.kept binding hb
    exact ⟨_, (hs.ordered.mem_assign value).2 ⟨other, ho, rfl⟩, (unset_assigned value).trans he⟩
  added other ho hle := by
    obtain ⟨binding, hb, rfl⟩ := (hs.ordered.mem_assign value).1 ho
    have he : (next.assigned (key node.text index) around value binding).unset = binding.unset :=
      unset_assigned value
    rw [Binding.level_eq_of_unset he] at hle ⊢
    refine (h.added binding hb hle).imp_left ?_
    rintro ⟨before, hbefore, hu⟩
    exact ⟨before, hbefore, he.trans hu⟩
  hidden binding hb hhides := by
    refine (hs.ordered.mem_assign value).2 ⟨binding, h.hidden binding hb hhides, ?_⟩
    refine (assigned_of_ne fun hv => ?_).symm
    obtain ⟨inner, hinner, hbase, hlt⟩ := hhides
    obtain ⟨other, ho, he⟩ := h.kept inner hinner
    have hlevel : other.level = inner.level := Binding.level_eq_of_unset he
    have hle : other.level ≤ around := hlevel ▸ (hstore inner hinner).trans hl
    have hmax := hs.level_le_of_denotes hn hd hv other ho ((base_eq_of_unset he).trans hbase) hle
    exact Nat.not_le.2 hlt (hlevel ▸ hmax)

theorem KeepsFrame.declare (h : store.KeepsFrame declares level next) (hv : header.value = none)
    (hl : level ≤ header.level) (hd : level < header.level ∨ declares) :
    store.KeepsFrame declares level (next.declare header) where
  kept binding hb := by
    obtain ⟨other, ho, he⟩ := h.kept binding hb
    exact ⟨other, (mem_declare hv).2 (.inr (.inr ho)), he⟩
  added other ho hle := by
    have hnew (hlevel : other.level = header.level) :
        (∃ binding ∈ store, other.unset = binding.unset) ∨ declares ∧ other.level = level := by
      have heq : other.level = level := Nat.le_antisymm hle (hlevel ▸ hl)
      refine .inr ⟨hd.resolve_left fun hlt => ?_, heq⟩
      exact Nat.ne_of_lt hlt (heq.symm.trans hlevel)
    obtain rfl | ⟨index, -, rfl⟩ | ho := (mem_declare hv).1 ho
    · exact hnew rfl
    · exact hnew rfl
    · exact h.added other ho hle
  hidden binding hb hhides := (mem_declare hv).2 (.inr (.inr (h.hidden binding hb hhides)))

theorem KeepsFrame.upTo (h : store.KeepsFrame declares level next)
    (hstore : ∀ binding ∈ store, binding.level ≤ level) (hl : level ≤ around) :
    store.KeepsFrame declares level (next.upTo around) where
  kept binding hb := by
    obtain ⟨other, ho, he⟩ := h.kept binding hb
    refine ⟨other, mem_upTo.2 ⟨ho, ?_⟩, he⟩
    rw [Binding.level_eq_of_unset he]
    exact (hstore binding hb).trans hl
  added other ho hle := h.added other (mem_upTo.1 ho).1 hle
  hidden binding hb hhides :=
    mem_upTo.2 ⟨h.hidden binding hb hhides, (hstore binding hb).trans hl⟩

end Store

/-! ## Tasks that lead back -/

/-- The tasks lead from a level back to an outer one, and declare there only if that is what
is allowed. -/
inductive Task.Return (declares : Prop) (outer : Nat) : Nat → List Task → Prop
  | done : Return declares outer outer []
  | leave {level : Nat} {tasks : List Task} :
    Return declares outer level tasks → Return declares outer (level + 1) (.leave :: tasks)
  | other {level : Nat} {task : Task} {tasks : List Task} : task.closes = false →
    (task.declares = true → outer < level ∨ declares) → Return declares outer level tasks →
    Return declares outer level (task :: tasks)

namespace Task.Return

variable {declares : Prop} {outer level : Nat} {task : Task} {tasks first : List Task}

theorem le (h : Return declares outer level tasks) : outer ≤ level := by
  induction h with
  | done => exact Nat.le_refl _
  | leave _ ih => exact Nat.le_succ_of_le ih
  | other _ _ _ ih => exact ih

theorem of_nil (h : Return declares outer level []) : level = outer := by
  cases h
  rfl

theorem of_leave (h : Return declares outer level (.leave :: tasks)) :
    ∃ inner, level = inner + 1 ∧ Return declares outer inner tasks := by
  cases h with
  | leave h => exact ⟨_, rfl, h⟩
  | other hc => cases hc

theorem of_closes_eq_false (h : Return declares outer level (task :: tasks))
    (hc : task.closes = false) :
    (task.declares = true → outer < level ∨ declares) ∧ Return declares outer level tasks := by
  cases h with
  | leave => cases hc
  | other _ hd h => exact ⟨hd, h⟩

theorem append (h : Return declares outer level tasks)
    (hf : ∀ task ∈ first,
      task.closes = false ∧ (task.declares = true → outer < level ∨ declares)) :
    Return declares outer level (first ++ tasks) := by
  induction first with
  | nil => exact h
  | cons task first ih =>
    obtain ⟨⟨hc, hd⟩, hf⟩ := List.forall_mem_cons.1 hf
    exact .other hc hd (ih hf)

end Task.Return

namespace State

variable {declares : Bool} {may : Prop} {level : Nat} {store : Store} {state next : State}

theorem Change.keepsFrame (h : state.Change declares next) (hs : state.store.Scoped state.level)
    (hstore : ∀ binding ∈ store, binding.level ≤ level) (hl : level ≤ state.level)
    (hd : declares = true → level < state.level ∨ may)
    (hf : store.KeepsFrame may level state.store) : store.KeepsFrame may level next.store := by
  cases h with
  | quiet he => rwa [he]
  | put hn hdenotes => exact hf.put hs hstore hl hn hdenotes _
  | declare hdeclares _ hlevel hv =>
    rw [← hlevel] at hl hd
    exact hf.declare hv hl (hd hdeclares)

theorem Changes.keepsFrame (h : state.Changes declares next)
    (hs : state.store.Scoped state.level) (hstore : ∀ binding ∈ store, binding.level ≤ level)
    (hl : level ≤ state.level) (hd : declares = true → level < state.level ∨ may)
    (hf : store.KeepsFrame may level state.store) : store.KeepsFrame may level next.store := by
  induction h with
  | refl => exact hf
  | tail hcs hc ih =>
    have hlevel := Changes.level_eq hcs
    rw [← hlevel] at hl hd
    exact hc.keepsFrame (Changes.scoped hcs hs) hstore hl hd ih

/-- The tasks that follow from a step lead back as well. -/
theorem Step.returns {result : State × List Task} {tasks : List Task}
    (h : state.Step declares result) (hd : declares = true → level < state.level ∨ may)
    (hr : Task.Return may level state.level tasks) :
    Task.Return may level result.1.level (result.2 ++ tasks) := by
  cases h with
  | stay hc ht =>
    rw [← hc.level_eq] at hd hr
    refine hr.append fun task hm => ⟨(ht task hm).1, fun hdeclares => hd ?_⟩
    exact (ht task hm).2.resolve_left (by rw [hdeclares]; decide)
  | enter hc hi ht =>
    have hback : Task.Return may level state.level (_ ++ tasks) := hr.append fun task hm =>
      ⟨(ht task hm).1, fun hdeclares => by simp [(ht task hm).2] at hdeclares⟩
    have hlevel : _ = state.level + 1 := hc.level_eq
    rw [hlevel, List.append_assoc]
    exact hback.leave.append fun task hm => ⟨hi task hm, fun _ => .inl (Nat.lt_succ_of_le hr.le)⟩

theorem Step.keepsFrame {result : State × List Task} (h : state.Step declares result)
    (hs : state.store.Scoped state.level) (hstore : ∀ binding ∈ store, binding.level ≤ level)
    (hl : level ≤ state.level) (hd : declares = true → level < state.level ∨ may)
    (hf : store.KeepsFrame may level state.store) :
    store.KeepsFrame may level result.1.store := by
  cases h with
  | stay hc => exact hc.keepsFrame hs hstore hl hd hf
  | enter hc =>
    have hentered : state.enter.store.Scoped state.enter.level := hs.mono (Nat.le_succ _)
    exact hc.keepsFrame hentered hstore (Nat.le_succ_of_le hl) (absurd · Bool.false_ne_true) hf

end State

namespace Machine

/-- A machine in the midst of a statement that was begun at a level with some store. -/
structure Within (declares : Prop) (level : Nat) (store : Store) (machine : Machine) : Prop where
  sound : machine.Sound
  returns : Task.Return declares level machine.state.level machine.tasks
  keepsFrame : store.KeepsFrame declares level machine.state.store

variable {declares : Prop} {level : Nat} {store : Store} {state final : State} {stmt : Node}
  {task : Task} {tasks rest : List Task}

theorem Within.within_after (hstore : ∀ binding ∈ store, binding.level ≤ level)
    (h : Within declares level store ⟨state, task :: tasks⟩) :
    Within declares level store (after state task tasks) := by
  have hsound : Sound ⟨state, task :: tasks⟩ := h.sound
  have hs : state.store.Scoped state.level := hsound.store_scoped
  have hr : Task.Return declares level state.level (task :: tasks) := h.returns
  have hf : store.KeepsFrame declares level state.store := h.keepsFrame
  cases hc : task.closes with
  | true =>
    obtain rfl := Task.eq_leave hc
    obtain ⟨inner, hlevel, hr⟩ := hr.of_leave
    have hback : Task.Return declares level (state.level - 1) tasks := by
      rw [hlevel, Nat.add_sub_cancel]
      exact hr
    exact ⟨hsound.sound_after, hback, hf.upTo hstore hback.le⟩
  | false =>
    obtain ⟨hd, hr⟩ := hr.of_closes_eq_false hc
    have hstep : state.Step task.declares (state.perform task) := hsound.step hc
    exact ⟨hsound.sound_after, hstep.returns hd hr, hstep.keepsFrame hs hstore hr.le hd hf⟩

/-- A statement that is about to be executed leads back to its level, declaring there only if it
is a declaration. -/
theorem within_ofStatement (h : Sound ⟨state, .execute stmt :: tasks⟩) :
    Within (stmt.kind = .declaration) state.level state.store (ofStatement state stmt) where
  sound := ⟨List.forall_mem_singleton.2 (h.tasks_shaped _ List.mem_cons_self), h.store_scoped⟩
  returns := .other rfl (fun hd => .inr (by simpa [Task.declares] using hd)) .done
  keepsFrame := .refl _ _ _

/-- Whether a machine is about to execute a statement that is done after some steps. -/
def finishes (machine : Machine) (steps : Nat) : Bool :=
  match machine.tasks with
  | .execute stmt :: _ => ((ofStatement machine.state stmt).run steps).tasks.isEmpty
  | _ => false

theorem exists_of_finishes {machine : Machine} {steps : Nat} (h : machine.finishes steps = true) :
    ∃ stmt tasks final, machine = ⟨machine.state, .execute stmt :: tasks⟩ ∧
      (ofStatement machine.state stmt).run steps = ⟨final, []⟩ := by
  unfold finishes at h
  split at h
  · rename_i stmt tasks htasks
    exact ⟨stmt, tasks, _, congrArg (mk machine.state) htasks,
      congrArg (mk _) (List.isEmpty_iff.1 h)⟩
  · cases h

/-- The tasks that stand behind those of a statement do not matter until it is done. -/
theorem exists_run_append (count : Nat) (h : run count ⟨state, tasks⟩ = ⟨final, []⟩) :
    ∃ steps ≤ count, run steps ⟨state, tasks ++ rest⟩ = ⟨final, rest⟩ := by
  induction count generalizing state tasks with
  | zero =>
    cases h
    exact ⟨0, Nat.le_refl 0, rfl⟩
  | succ count ih =>
    cases tasks with
    | nil =>
      cases h
      exact ⟨0, Nat.zero_le _, rfl⟩
    | cons task tasks =>
      rw [run, after_eq] at h
      obtain ⟨steps, hle, hrun⟩ := ih h
      refine ⟨steps + 1, Nat.succ_le_succ hle, ?_⟩
      rw [List.cons_append, run, after_eq, ← List.append_assoc]
      exact hrun

end Machine

/-- A statement that is executed at some point of a run and comes to its end leaves the level as it
was and no binding above it. All bindings are still there, those that were hidden with the values
they had, and there are new ones only at this level and only if the statement is a declaration. -/
theorem statement_keeps_frame (text : String) (begun : State) (count more : Nat)
    {state final : State} {stmt : Node} {tasks : List Task}
    (hat : (Machine.ofProgram begun (Parse.ofText text)).run count =
      ⟨state, .execute stmt :: tasks⟩)
    (hdone : (Machine.ofStatement state stmt).run more = ⟨final, []⟩) :
    final.level = state.level ∧
      (∀ binding ∈ final.store, binding.level ≤ state.level) ∧
      (∀ binding ∈ state.store, ∃ other ∈ final.store, other.unset = binding.unset) ∧
      (∀ other ∈ final.store, (∃ binding ∈ state.store, other.unset = binding.unset) ∨
        stmt.kind = .declaration ∧ other.level = state.level) ∧
      (∀ binding ∈ state.store, state.store.Hides binding → binding ∈ final.store) ∧
      ∃ steps ≤ more, (Machine.ofProgram begun (Parse.ofText text)).run (count + steps) =
        ⟨final, tasks⟩ := by
  have hsound : Machine.Sound ⟨state, .execute stmt :: tasks⟩ :=
    hat ▸ (Machine.sound_ofProgram begun text).sound_run count
  have hstore : ∀ binding ∈ state.store, binding.level ≤ state.level :=
    hsound.store_scoped.level_le
  have hwithin : Machine.Within (stmt.kind = .declaration) state.level state.store ⟨final, []⟩ :=
    hdone ▸ Machine.run_induction (P := Machine.Within _ _ _)
      (fun _ _ _ => Machine.Within.within_after hstore) more (Machine.within_ofStatement hsound)
  have hlevel : final.level = state.level := by
    generalize hl : final.level = level
    have hr : Task.Return _ state.level level [] := hl ▸ hwithin.returns
    cases hr
    rfl
  have hle : ∀ binding ∈ final.store, binding.level ≤ state.level :=
    hlevel ▸ hwithin.sound.store_scoped.level_le
  obtain ⟨steps, hsteps, hrun⟩ := Machine.exists_run_append more hdone
  refine ⟨hlevel, hle, hwithin.keepsFrame.kept,
    fun other ho => hwithin.keepsFrame.added other ho (hle other ho), hwithin.keepsFrame.hidden,
    steps, hsteps, ?_⟩
  rw [Machine.run_add, hat]
  exact hrun

/-- An assignment in a nested block leaves the shadowed variable its value. -/
theorem shadowed_variable_keeps_value :
    let machine := Machine.ofProgram (.start (.ofFeed []))
      (Parse.ofText "int a = 1; if (1 < 2) \x7b int a; if (1 < 2) a = 2; \x7d")
    let outer : Binding := ⟨"a", .int, 1, 0, some (.int 1), none⟩
    ∃ state stmt tasks final, machine.run 5 = ⟨state, .execute stmt :: tasks⟩ ∧
      (Machine.ofStatement state stmt).run 3 = ⟨final, []⟩ ∧ outer ∈ state.store ∧
      state.store.Hides outer ∧ final.level = state.level ∧ outer ∈ final.store := by
  intro machine outer
  let inner : Binding := ⟨"a", .int, 1, 1, none, none⟩
  have hfinishes : (machine.run 5).finishes 3 = true := by decide +kernel
  have hbindings : (machine.run 5).state.store.bindingsOf "a" = [outer, inner] := by
    decide +kernel
  obtain ⟨stmt, tasks, final, hat, hdone⟩ := Machine.exists_of_finishes hfinishes
  have houter : outer ∈ (machine.run 5).state.store :=
    Store.mem_of_mem_bindingsOf (hbindings ▸ List.mem_cons_self)
  have hinner : inner ∈ (machine.run 5).state.store :=
    Store.mem_of_mem_bindingsOf (hbindings ▸ List.mem_cons_of_mem _ List.mem_cons_self)
  have hhides : (machine.run 5).state.store.Hides outer := ⟨inner, hinner, rfl, Nat.zero_lt_one⟩
  obtain ⟨hlevel, -, -, -, hhidden, -⟩ := statement_keeps_frame _ _ 5 3 hat hdone
  exact ⟨_, stmt, tasks, final, hat, hdone, houter, hhides, hlevel, hhidden outer houter hhides⟩

end BlockLang
