import BlockLang.Proofs.Store.Changes

/-! # Bindings along a run

In the run of a program every store is scoped. A step keeps all bindings that it does not
forget with their blocks, and it never takes a value away from one.
-/
namespace BlockLang

namespace Store

/-- Each binding is still there, and it has a value if it had one. -/
def Keeps (store next : Store) : Prop :=
  ∀ binding ∈ store, ∃ other ∈ next,
    other.unset = binding.unset ∧ (binding.value.isSome → other.value.isSome)

/-- A binding that is there before and after is the same one, and it has a value if it had one. -/
def Persists (store next : Store) : Prop :=
  ∀ binding ∈ store, ∀ other ∈ next, other.name = binding.name → other.level = binding.level →
    other.unset = binding.unset ∧ (binding.value.isSome → other.value.isSome)

variable {store next last : Store} {header : Binding}

theorem Keeps.refl (store : Store) : store.Keeps store :=
  fun binding hb => ⟨binding, hb, rfl, id⟩

theorem Keeps.trans (h : store.Keeps next) (hnext : next.Keeps last) : store.Keeps last := by
  intro binding hb
  obtain ⟨other, ho, he, hv⟩ := h binding hb
  obtain ⟨third, ht, he', hv'⟩ := hnext other ho
  exact ⟨third, ht, he'.trans he, hv' ∘ hv⟩

theorem Ordered.keeps_assign (h : store.Ordered) (name : String) (level : Nat) (value : Value) :
    store.Keeps (store.assign name level (some value)) := by
  intro binding hb
  refine ⟨_, (h.mem_assign (some value)).2 ⟨binding, hb, rfl⟩, unset_assigned _, fun hv => ?_⟩
  unfold assigned
  split
  · rfl
  · exact hv

theorem keeps_declare (hv : header.value = none) : store.Keeps (store.declare header) :=
  fun binding hb => ⟨binding, (mem_declare hv).2 (.inr (.inr hb)), rfl, id⟩

theorem Keeps.persists (h : store.Keeps next) (ho : next.Ordered) : store.Persists next := by
  intro binding hb other hother hn hl
  obtain ⟨kept, hk, he, hv⟩ := h binding hb
  obtain rfl : kept = other :=
    ho.eq_of_level_eq hk hother ((Binding.name_eq_of_unset he).trans hn.symm)
      ((Binding.level_eq_of_unset he).trans hl.symm)
  exact ⟨he, hv⟩

theorem Ordered.persists_upTo (h : store.Ordered) (level : Nat) :
    store.Persists (store.upTo level) := by
  intro binding hb other hother hn hl
  obtain rfl := h.eq_of_level_eq (mem_upTo.1 hother).1 hb hn hl
  exact ⟨rfl, id⟩

end Store

namespace State

variable {declares : Bool} {state next : State}

theorem Change.keeps (h : state.Change declares next) (hs : state.store.Scoped state.level) :
    state.store.Keeps next.store := by
  cases h with
  | quiet hstore => exact hstore ▸ .refl _
  | put => exact hs.ordered.keeps_assign _ _ _
  | declare _ _ _ hv => exact Store.keeps_declare hv

theorem Changes.keeps (h : state.Changes declares next) (hs : state.store.Scoped state.level) :
    state.store.Keeps next.store := by
  induction h with
  | refl => exact .refl _
  | tail hcs hc ih => exact ih.trans (hc.keeps (Changes.scoped hcs hs))

end State

namespace Machine

/-- The tasks are shaped, apart from those that skip a statement, and the store is scoped. -/
structure Sound (machine : Machine) : Prop where
  tasks_shaped : machine.IsShaped
  store_scoped : machine.state.store.Scoped machine.state.level

variable {machine : Machine} {state : State} {task : Task} {tasks : List Task}

theorem Sound.isShaped (h : Sound ⟨state, task :: tasks⟩) (hn : task.skipped? = none) :
    task.IsShaped := by
  obtain ⟨stmt, rfl⟩ | hshaped := h.tasks_shaped task List.mem_cons_self
  · cases hn
  · exact hshaped

theorem Sound.step (h : Sound ⟨state, task :: tasks⟩) (hc : task.closes = false) :
    state.Step task.declares (state.perform task) :=
  State.step_perform (h.tasks_shaped task List.mem_cons_self) hc h.store_scoped

/-- The state after a step: a block has been closed, or there have been changes, after a block
was entered perhaps. -/
theorem Sound.state_after (h : Sound ⟨state, task :: tasks⟩) :
    (after state task tasks).state = state.leave ∨ ∃ (begun : State) (declares : Bool),
      begun.store = state.store ∧ begun.store.Scoped begun.level ∧
        begun.Changes declares (after state task tasks).state := by
  cases hc : task.closes with
  | true =>
    obtain rfl := Task.eq_leave hc
    exact .inl rfl
  | false =>
    have hs : state.Step task.declares (state.perform task) := h.step hc
    rw [after]
    generalize state.perform task = result at hs ⊢
    cases hs with
    | stay hc => exact .inr ⟨state, _, rfl, h.store_scoped, hc⟩
    | enter hc => exact .inr ⟨state.enter, _, rfl, h.store_scoped.mono (Nat.le_succ _), hc⟩

theorem Sound.sound_after (h : Sound ⟨state, task :: tasks⟩) : (after state task tasks).Sound where
  tasks_shaped := (after_spec h.tasks_shaped).1
  store_scoped := by
    obtain hleave | ⟨begun, declares, -, hs, hc⟩ := h.state_after
    · exact hleave ▸ State.scoped_leave h.store_scoped
    · exact hc.scoped hs

theorem Sound.sound_run (h : machine.Sound) (count : Nat) : (machine.run count).Sound :=
  run_induction (fun _ _ _ => sound_after) count h

theorem sound_ofProgram (begun : State) (text : String) :
    (ofProgram begun (Parse.ofText text)).Sound where
  tasks_shaped := isShaped_ofProgram begun (Parse.shapes_ofText text)
  store_scoped := Store.scoped_empty 0

theorem Sound.persists_after (h : Sound ⟨state, task :: tasks⟩) :
    state.store.Persists (after state task tasks).state.store := by
  obtain hleave | ⟨begun, declares, hstore, hs, hc⟩ := h.state_after
  · exact hleave ▸ h.store_scoped.ordered.persists_upTo _
  · exact hstore ▸ (hc.keeps hs).persists h.sound_after.store_scoped.ordered

def storeAfter (machine : Machine) (count : Nat) : Store :=
  (machine.run count).state.store

theorem Sound.persists_step (h : machine.Sound) (count : Nat) :
    (machine.storeAfter count).Persists (machine.storeAfter (count + 1)) := by
  have hs : (machine.run count).Sound := h.sound_run count
  rw [storeAfter, storeAfter, run_add]
  generalize machine.run count = now at hs ⊢
  obtain ⟨state, tasks⟩ := now
  cases tasks with
  | nil => exact (Store.Keeps.refl _).persists hs.store_scoped.ordered
  | cons task tasks => exact hs.persists_after

/-- As long as a binding of a name and a level is there, it is the same one. -/
theorem Sound.persists (h : machine.Sound) {first last : Nat} (hle : first ≤ last)
    {binding other : Binding} (hb : binding ∈ machine.storeAfter first)
    (ho : other ∈ machine.storeAfter last) (hn : other.name = binding.name)
    (hl : other.level = binding.level)
    (hthere : ∀ k, first ≤ k → k ≤ last → ∃ there ∈ machine.storeAfter k,
      there.name = binding.name ∧ there.level = binding.level) :
    other.unset = binding.unset ∧ (binding.value.isSome → other.value.isSome) := by
  induction last, hle using Nat.le_induction generalizing other with
  | base =>
    have hordered := (h.sound_run first).store_scoped.ordered
    exact (Store.Keeps.refl _).persists hordered _ hb _ ho hn hl
  | succ last hle ih =>
    obtain ⟨there, ht, htn, htl⟩ := hthere last hle (Nat.le_succ last)
    obtain ⟨he, hv⟩ := ih ht htn htl fun k hk hkl => hthere k hk (Nat.le_succ_of_le hkl)
    obtain ⟨he', hv'⟩ :=
      h.persists_step last there ht other ho (hn.trans htn.symm) (hl.trans htl.symm)
    exact ⟨he'.trans he, hv' ∘ hv⟩

end Machine
end BlockLang
