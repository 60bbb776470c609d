import BlockLang.Proofs.Store.Runs

/-! # Arrays and their cells

A declaration looks for a binding of its own name only, and an array and a cell of it are
looked up one after the other. Still, the cell that is found always was declared with the
array whose size its index was checked against.
-/
namespace BlockLang
open Node
open Scope (IsName key key_inj)

namespace Store

variable {store : Store} {level : Nat} {node other : Node} {header array : Binding}
  {index place : Option Nat}

/-- What is kept under the same name is the same variable, or the same cell of an array. -/
theorem Denotes.eq_of_key_eq (h : store.Denotes level node header index)
    (ho : store.Denotes level other array place) (hn : IsName node.text) (hname : IsName other.text)
    (he : key node.text index = key other.text place) : header = array ∧ index = place := by
  obtain ⟨htext, hindex⟩ := (key_inj hn hname).1 he
  have hv := h.visible
  rw [htext] at hv
  exact ⟨Option.some.inj (hv.symm.trans ho.visible), hindex⟩

/-- Slots with the same binding are those of one variable, or of one cell. -/
theorem Scoped.denotes_of_visible?_eq (h : store.Scoped level) {slot slot' : Slot}
    {found : Binding} (hn : IsName node.text) (hname : IsName other.text)
    (hs : store.slotOf level node = .ok slot) (hs' : store.slotOf level other = .ok slot')
    (hf : store.visible? slot.name level = some found)
    (hf' : store.visible? slot'.name level = some found) :
    ∃ header index, store.Denotes level node header index ∧
      store.Denotes level other header index := by
  obtain ⟨header, index, hd, rfl⟩ := slotOf_eq_ok hs
  obtain ⟨array, place, hd', rfl⟩ := slotOf_eq_ok hs'
  have hkey : key node.text index = key other.text place :=
    (h.ordered.visible?_eq_some.1 hf).2.1.symm.trans (h.ordered.visible?_eq_some.1 hf').2.1
  obtain ⟨rfl, rfl⟩ := hd.eq_of_key_eq hd' hn hname hkey
  exact ⟨header, index, hd, hd'⟩

/-- A cell has the kind of the array at its level. -/
theorem Scoped.kind_eq (h : store.Scoped level) {cell : Binding} {i : Nat} (hh : header ∈ store)
    (hc : cell ∈ store) (hn : cell.name = cellName header.name i)
    (hl : cell.level = header.level) : cell.kind = header.kind := by
  obtain ⟨array, ha, hname, -, hcell⟩ := h.array_of_cell hc hn
  obtain rfl : array = header :=
    h.ordered.eq_of_level_eq ha hh hname ((Binding.level_of_part hcell).symm.trans hl)
  exact Binding.kind_of_part hcell

end Store

namespace Machine

variable {machine : Machine} {header : Binding} {count : Nat}

/-- A binding and a part of it came into being at one step, and both have been there since. -/
def DeclaredTogether (machine : Machine) (count : Nat) (header : Binding)
    (index : Option Nat) : Prop :=
  ∃ birth < count,
    (∀ other ∈ machine.storeAfter birth,
      other.name = header.name ∨ other.name = key header.name index →
        other.level ≠ header.level) ∧
    ∀ k, birth < k → k ≤ count →
      (∃ there ∈ machine.storeAfter k, there.unset = header.unset) ∧
        ∃ there ∈ machine.storeAfter k, there.unset = header.part index

/-- A binding has been there since the step before which there was none of its name and level. -/
theorem Sound.exists_birth (h : machine.Sound) (hempty : ∀ other, other ∉ machine.storeAfter 0)
    (hh : header ∈ machine.storeAfter count) :
    ∃ birth < count,
      (∀ other ∈ machine.storeAfter birth, other.name = header.name →
        other.level ≠ header.level) ∧
      ∀ k, birth < k → k ≤ count → ∃ there ∈ machine.storeAfter k,
        there.unset = header.unset := by
  induction count generalizing header with
  | zero => exact absurd hh (hempty header)
  | succ count ih =>
    by_cases hbefore : ∃ other ∈ machine.storeAfter count,
      other.name = header.name ∧ other.level = header.level
    · obtain ⟨other, ho, hn, hl⟩ := hbefore
      obtain ⟨he, -⟩ := h.persists_step count other ho header hh hn.symm hl.symm
      obtain ⟨birth, hlt, hnone, hthere⟩ := ih ho
      rw [hn, hl] at hnone
      refine ⟨birth, Nat.lt_succ_of_lt hlt, hnone, fun k hk hle => ?_⟩
      obtain hle | rfl := Nat.le_succ_iff.1 hle
      · obtain ⟨there, ht, hu⟩ := hthere k hk hle
        exact ⟨there, ht, hu.trans he.symm⟩
      · exact ⟨header, hh, rfl⟩
    · refine ⟨count, Nat.lt_succ_self count, fun other ho hn hl => hbefore ⟨other, ho, hn, hl⟩, ?_⟩
      intro k hk hle
      obtain rfl : k = count + 1 := Nat.le_antisymm hle hk
      exact ⟨header, hh, rfl⟩

theorem Sound.declaredTogether (h : machine.Sound)
    (hempty : ∀ other, other ∉ machine.storeAfter 0) (hh : header ∈ machine.storeAfter count)
    {index : Option Nat} (hi : header.Has index) : machine.DeclaredTogether count header index := by
  obtain ⟨birth, hlt, hnone, hthere⟩ := h.exists_birth hempty hh
  have hscoped (k : Nat) := (h.sound_run k).store_scoped
  refine ⟨birth, hlt, fun other ho hn => ?_, fun k hk hle => ⟨hthere k hk hle, ?_⟩⟩
  · obtain hn | hn := hn
    · exact hnone other ho hn
    · cases index with
      | none => exact hnone other ho hn
      | some i => exact (hscoped birth).cell_fresh hnone i other ho hn
  · obtain ⟨there, ht, he⟩ := hthere k hk hle
    have hhas : there.Has index := hi.of_unset he.symm
    have hpart : there.part index = header.part index := Binding.part_eq_of_unset he index
    cases index with
    | none => exact ⟨there, ht, hhas.unset_eq.trans hpart⟩
    | some i =>
      obtain ⟨cell, hc, hcell⟩ := (hscoped k).cells there ht i hhas
      exact ⟨cell, hc, hcell.trans hpart⟩

end Machine

/-- In each state of a run, a name has bindings of strictly increasing levels that are kept under
this name alone, and there is a cell at a level just if there is an array with this cell there,
which then has its kind. So the binding that is looked up for a slot is that of a variable or of
a cell which was declared together with the array its index was checked against, and two slots
have one binding only if they are the same variable or the same cell. -/
theorem slots_are_parts (text : String) (begun : State) (count : Nat) :
    let program := Parse.ofText text
    let machine := Machine.ofProgram begun program
    let state := (machine.run count).state
    state.store.Ordered ∧
      (∀ binding ∈ state.store, ∀ other ∈ state.store,
        binding.name = other.name → binding.level = other.level → binding = other) ∧
      (∀ name index level,
        (∃ cell ∈ state.store, cell.name = cellName name index ∧ cell.level = level) ↔
          ∃ header ∈ state.store, header.name = name ∧ header.level = level ∧
            ∃ size, header.size = some size ∧ index < size) ∧
      (∀ header ∈ state.store, ∀ cell ∈ state.store, ∀ index,
        cell.name = cellName header.name index → cell.level = header.level →
          cell.kind = header.kind) ∧
      (∀ node slot, state.slotOf node = .ok slot → ∃ header index found,
        state.store.Denotes state.level node header index ∧
          slot = ⟨key node.text index, header.kind⟩ ∧ state.lookup? slot.name = some found ∧
          found.unset = header.part index ∧ machine.DeclaredTogether count header index) ∧
      (∀ node other slot slot' found, IsName node.text → IsName other.text →
        state.slotOf node = .ok slot → state.slotOf other = .ok slot' →
        state.lookup? slot.name = some found → state.lookup? slot'.name = some found →
        ∃ header index, state.store.Denotes state.level node header index ∧
          state.store.Denotes state.level other header index) ∧
      ∀ stmt ∈ program.children, stmt.hasError = false → ∀ n : Node, n.OccursIn stmt →
        n.kind = .identifier → IsName n.text := by
  intro program machine state
  have hsound : machine.Sound := Machine.sound_ofProgram begun text
  have hscoped : state.store.Scoped state.level := (hsound.sound_run count).store_scoped
  refine ⟨hscoped.ordered, fun binding hb other ho => hscoped.ordered.eq_of_level_eq hb ho,
    hscoped.exists_cell_iff, fun header hh cell hc index => hscoped.kind_eq hh hc,
    fun node slot hs => ?_, fun node other slot slot' found hn hname hs hs' => ?_,
    fun stmt hm he n ho hk => ?_⟩
  · obtain ⟨header, index, hd, rfl⟩ := Store.slotOf_eq_ok hs
    obtain ⟨found, hv, hf⟩ := hscoped.visible?_slot hd
    have hh : header ∈ state.store := (hscoped.ordered.visible?_eq_some.1 hd.visible).1
    exact ⟨header, index, found, hd, rfl, hv, hf,
      hsound.declaredTogether (fun _ => Store.not_mem_empty) hh hd.has⟩
  · exact hscoped.denotes_of_visible?_eq hn hname hs hs'
  · exact isName_of_isExpression ((Parse.shapes_ofText text stmt hm he).identifier hk ho) hk

end BlockLang
