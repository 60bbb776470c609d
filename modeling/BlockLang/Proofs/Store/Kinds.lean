import BlockLang.Proofs.Store.Runs

/-! # Kinds of values

A value is put into the visible binding of a slot's name, while its kind is that of the
variable or array which the name was looked up as. In a scoped store both are the same, so
values always have the kinds that were declared.
-/
namespace BlockLang

namespace Store

/-- Each value has the kind of its binding, and arrays have no value of their own. -/
structure Typed (store : Store) : Prop where
  kind_eq : ∀ binding ∈ store, ∀ value, binding.value = some value → value.kind = binding.kind
  array_unset : ∀ binding ∈ store, binding.size.isSome → binding.value = none

variable {store : Store} {level around : Nat} {node : Node} {header : Binding}
  {index : Option Nat} {value : Value}

theorem typed_empty : empty.Typed where
  kind_eq _ hb := absurd hb not_mem_empty
  array_unset _ hb := absurd hb not_mem_empty

/-- What a node denotes takes a value of the kind of its variable or array. -/
theorem Typed.put (h : store.Typed) (hs : store.Scoped level)
    (hd : store.Denotes around node header index) (hk : value.kind = header.kind) :
    (store.assign (Scope.key node.text index) around (some value)).Typed := by
  obtain ⟨found, hv, hf⟩ := hs.visible?_slot hd
  have hassigned (binding : Binding) (hb : binding ∈ store) :
      let changed := store.assigned (Scope.key node.text index) around (some value) binding
      (∀ v, changed.value = some v → v.kind = changed.kind) ∧
        (changed.size.isSome → changed.value = none) := by
    by_cases he : store.visible? (Scope.key node.text index) around = some binding
    · obtain rfl : found = binding := Option.some.inj (hv.symm.trans he)
      rw [assigned_self hv]
      refine ⟨?_, fun hsome => ?_⟩
      · rintro _ ⟨⟩
        exact hk.trans (Binding.kind_of_part hf).symm
      · have hnone : found.size = none := Binding.size_of_part hf
        simp [hnone] at hsome
    · rw [assigned_of_ne he]
      exact ⟨h.kind_eq binding hb, h.array_unset binding hb⟩
  constructor
  · intro other ho
    obtain ⟨binding, hb, rfl⟩ := (hs.ordered.mem_assign _).1 ho
    exact (hassigned binding hb).1
  · intro other ho
    obtain ⟨binding, hb, rfl⟩ := (hs.ordered.mem_assign _).1 ho
    exact (hassigned binding hb).2

theorem Typed.declare (h : store.Typed) (hv : header.value = none) :
    (store.declare header).Typed := by
  have hnew (binding : Binding) (hb : binding ∈ store.declare header) :
      binding.value = none ∨ binding ∈ store := by
    obtain rfl | ⟨_, -, rfl⟩ | hb := (mem_declare hv).1 hb
    · exact .inl hv
    · exact .inl rfl
    · exact .inr hb
  constructor
  · intro binding hb value hvalue
    obtain hnone | hb := hnew binding hb
    · cases hnone.symm.trans hvalue
    · exact h.kind_eq binding hb value hvalue
  · intro binding hb hsize
    obtain hnone | hb := hnew binding hb
    · exact hnone
    · exact h.array_unset binding hb hsize

theorem Typed.upTo (h : store.Typed) (level : Nat) : (store.upTo level).Typed where
  kind_eq binding hb := h.kind_eq binding (mem_upTo.1 hb).1
  array_unset binding hb := h.array_unset binding (mem_upTo.1 hb).1

end Store

namespace State

variable {declares : Bool} {state next : State}

theorem Change.typed (h : state.Change declares next) (hs : state.store.Scoped state.level)
    (ht : state.store.Typed) : next.store.Typed := by
  cases h with
  | quiet hstore => rwa [hstore]
  | put _ hd hk => exact ht.put hs hd hk
  | declare _ _ _ hv => exact ht.declare hv

theorem Changes.typed (h : state.Changes declares next) (hs : state.store.Scoped state.level)
    (ht : state.store.Typed) : next.store.Typed := by
  induction h with
  | refl => exact ht
  | tail hcs hc ih => exact hc.typed (Changes.scoped hcs hs) ih

end State

namespace Machine

variable {machine : Machine}

theorem Sound.typed_after {state : State} {task : Task} {tasks : List Task}
    (h : Sound ⟨state, task :: tasks⟩) (ht : state.store.Typed) :
    (after state task tasks).state.store.Typed := by
  obtain hleave | ⟨begun, declares, hstore, hs, hc⟩ := h.state_after
  · exact hleave ▸ ht.upTo _
  · exact hc.typed hs (hstore ▸ ht)

theorem Sound.typed_run (h : machine.Sound) (ht : machine.state.store.Typed) (count : Nat) :
    (machine.storeAfter count).Typed := by
  have hboth : (machine.run count).Sound ∧ (machine.run count).state.store.Typed :=
    run_induction (P := fun machine => machine.Sound ∧ machine.state.store.Typed)
      (fun _ _ _ ⟨hs, ht⟩ => ⟨hs.sound_after, hs.typed_after ht⟩) count ⟨h, ht⟩
  exact hboth.2

end Machine

/-- In each state of a run, the values have the kinds of their bindings and arrays have no value
of their own. A binding that has a value has one, and stays the same otherwise, for as long as
there is a binding of its name and level. -/
theorem values_keep_kinds (text : String) (begun : State) :
    let store := (Machine.ofProgram begun (Parse.ofText text)).storeAfter
    (∀ count, ∀ binding ∈ store count,
      (∀ value, binding.value = some value → value.kind = binding.kind) ∧
        (binding.size.isSome → binding.value = none)) ∧
    ∀ first last, first ≤ last → ∀ binding ∈ store first, ∀ other ∈ store last,
      other.name = binding.name → other.level = binding.level →
      (∀ k, first ≤ k → k ≤ last → ∃ there ∈ store k,
        there.name = binding.name ∧ there.level = binding.level) →
      other.unset = binding.unset ∧ (binding.value.isSome → other.value.isSome) := by
  intro store
  have hsound : (Machine.ofProgram begun (Parse.ofText text)).Sound :=
    Machine.sound_ofProgram begun text
  refine ⟨fun count binding hb => ?_, fun first last hle binding hb other ho hn hl hthere => ?_⟩
  · have ht : (store count).Typed := hsound.typed_run Store.typed_empty count
    exact ⟨ht.kind_eq binding hb, ht.array_unset binding hb⟩
  · exact hsound.persists hle hb ho hn hl hthere

end BlockLang
