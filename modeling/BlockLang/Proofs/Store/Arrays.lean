import BlockLang.Execution.State
import BlockLang.Proofs.Scope.View
import BlockLang.Proofs.Store

/-! # Blocks of bindings

An array has one binding for itself and one for each of its cells, and all of them stand
at one level. A store is scoped if it has whole blocks of this kind only, next to the
bindings of variables. A name and a cell of it then are looked up at the same level,
although they are looked up apart.
-/
namespace BlockLang
open Scope (IsName key key_inj toList_cellName)

namespace Binding

/-- The binding that a variable or, under an index, a cell of an array has before its first
value. -/
def part (header : Binding) (index : Option Nat) : Binding :=
  ⟨key header.name index, header.kind, header.line, header.level, none, none⟩

def Has (header : Binding) : Option Nat → Prop
  | none => header.size = none
  | some index => ∃ size, header.size = some size ∧ index < size

variable {binding header other : Binding} {index : Option Nat}

theorem Has.unset_eq (h : header.Has none) : header.unset = header.part none := by
  obtain ⟨name, kind, line, level, value, size⟩ := header
  obtain rfl : size = none := h
  rfl

theorem Has.of_unset (h : header.Has index) (he : header.unset = other.unset) :
    other.Has index := by
  cases index with
  | none => exact (size_eq_of_unset he).symm.trans h
  | some i =>
    obtain ⟨size, hs, hi⟩ := h
    exact ⟨size, (size_eq_of_unset he).symm.trans hs, hi⟩

theorem part_eq_of_unset (h : header.unset = other.unset) (index : Option Nat) :
    header.part index = other.part index := by
  obtain ⟨name, kind, line, level, value, size⟩ := header
  obtain ⟨_, _, _, _, _, _⟩ := other
  cases h
  rfl

theorem name_of_part (h : binding.unset = header.part index) :
    binding.name = key header.name index :=
  show binding.unset.name = _ by rw [h]; rfl

theorem kind_of_part (h : binding.unset = header.part index) : binding.kind = header.kind :=
  show binding.unset.kind = _ by rw [h]; rfl

theorem level_of_part (h : binding.unset = header.part index) : binding.level = header.level :=
  show binding.unset.level = _ by rw [h]; rfl

theorem size_of_part (h : binding.unset = header.part index) : binding.size = none :=
  show binding.unset.size = _ by rw [h]; rfl

end Binding

/-! ## Names of cells -/

theorem not_isName_cellName (name : String) (index : Nat) : ¬IsName (cellName name index) := by
  intro h
  exact h (by simp [toList_cellName])

/-- The digits behind the last `@` are those of the index. -/
theorem takeWhile_reverse_cellName (name : String) (index : Nat) :
    (cellName name index).toList.reverse.takeWhile (· ≠ '@') = index.repr.toList.reverse := by
  have hdigits : ∀ c ∈ index.repr.toList.reverse, decide (c ≠ '@') = true := by
    intro c hc
    rw [List.mem_reverse, Nat.toList_repr] at hc
    have hd := Nat.isDigit_of_mem_toDigits (by decide) (by decide) hc
    rw [decide_eq_true_eq]
    rintro rfl
    cases hd
  rw [toList_cellName, List.reverse_append, List.reverse_cons, List.append_assoc]
  exact Lexeme.takeWhile_append_stop hdigits (by simp)

/-- A name of this form says which cell of what it belongs to. -/
theorem cellName_inj {name other : String} {index place : Nat} :
    cellName name index = cellName other place ↔ name = other ∧ index = place := by
  refine ⟨fun he => ?_, by rintro ⟨rfl, rfl⟩; rfl⟩
  have hdigits := takeWhile_reverse_cellName name index
  rw [he, takeWhile_reverse_cellName, List.reverse_inj, String.toList_inj] at hdigits
  obtain rfl := Nat.repr_injective hdigits
  have hl := congrArg String.toList he
  rw [toList_cellName, toList_cellName, List.append_left_inj, String.toList_inj] at hl
  exact ⟨hl, rfl⟩

namespace Store

/-- The bindings stand at no higher level than the given one, and are those of variables and of
whole arrays. -/
structure Scoped (store : Store) (level : Nat) : Prop where
  ordered : store.Ordered
  level_le : ∀ binding ∈ store, binding.level ≤ level
  origin : ∀ binding ∈ store, IsName binding.name ∨
    ∃ header ∈ store, ∃ index, header.Has (some index) ∧ binding.unset = header.part (some index)
  cells : ∀ header ∈ store, ∀ index, header.Has (some index) →
    ∃ cell ∈ store, cell.unset = header.part (some index)

variable {store next : Store} {level outer : Nat} {name : String} {header binding : Binding}

theorem scoped_empty (level : Nat) : empty.Scoped level where
  ordered := ordered_empty
  level_le _ hb := absurd hb not_mem_empty
  origin _ hb := absurd hb not_mem_empty
  cells _ hb := absurd hb not_mem_empty

/-! ## Cells and their arrays -/

/-- An array is kept under an identifier. -/
theorem Scoped.isName (h : store.Scoped level) (hh : header ∈ store) {index : Nat}
    (hi : header.Has (some index)) : IsName header.name := by
  obtain hn | ⟨array, -, i, -, hcell⟩ := h.origin header hh
  · exact hn
  · obtain ⟨size, hs, -⟩ := hi
    cases hs.symm.trans (Binding.size_of_part hcell)

theorem Scoped.array_of_cell (h : store.Scoped level) (hb : binding ∈ store) {index : Nat}
    (hn : binding.name = cellName name index) :
    ∃ header ∈ store, header.name = name ∧ header.Has (some index) ∧
      binding.unset = header.part (some index) := by
  obtain hname | ⟨header, hh, i, hi, hcell⟩ := h.origin binding hb
  · rw [hn] at hname
    exact absurd hname (not_isName_cellName name index)
  · have hsame : cellName header.name i = cellName name index := by
      rw [← hn]
      exact (Binding.name_of_part hcell).symm
    obtain ⟨rfl, rfl⟩ := cellName_inj.1 hsame
    exact ⟨header, hh, rfl, hi, hcell⟩

/-- There is a cell at a level just if there is an array at this level that has it. -/
theorem Scoped.exists_cell_iff (h : store.Scoped level) (name : String) (index height : Nat) :
    (∃ cell ∈ store, cell.name = cellName name index ∧ cell.level = height) ↔
      ∃ header ∈ store, header.name = name ∧ header.level = height ∧ header.Has (some index) := by
  constructor
  · rintro ⟨cell, hc, hn, rfl⟩
    obtain ⟨header, hh, hname, hi, hcell⟩ := h.array_of_cell hc hn
    exact ⟨header, hh, hname, (Binding.level_of_part hcell).symm, hi⟩
  · rintro ⟨header, hh, rfl, rfl, hi⟩
    obtain ⟨cell, hc, hcell⟩ := h.cells header hh index hi
    exact ⟨cell, hc, Binding.name_of_part hcell, Binding.level_of_part hcell⟩

/-- If the visible binding of a name has a variable or a cell, the binding of that is visible. -/
theorem Scoped.visible?_part (h : store.Scoped level) {index : Option Nat} {around : Nat}
    (hv : store.visible? name around = some header) (hi : header.Has index) :
    ∃ found, store.visible? (key name index) around = some found ∧
      found.unset = header.part index := by
  cases index with
  | none => exact ⟨header, hv, hi.unset_eq⟩
  | some i =>
    obtain ⟨hh, rfl, hl, hmax⟩ := h.ordered.visible?_eq_some.1 hv
    obtain ⟨cell, hc, hcell⟩ := h.cells header hh i hi
    have hname : cell.name = cellName header.name i := Binding.name_of_part hcell
    have hlevel : cell.level = header.level := Binding.level_of_part hcell
    refine ⟨cell, h.ordered.visible?_eq_some.2 ⟨hc, hname, hlevel ▸ hl, ?_⟩, hcell⟩
    intro other ho hn hle
    obtain ⟨array, ha, harray, -, hother⟩ := h.array_of_cell ho hn
    have hat : other.level = array.level := Binding.level_of_part hother
    rw [hlevel, hat]
    exact hmax array ha harray (hat ▸ hle)

/-! ## Operations -/

theorem Scoped.mono (h : store.Scoped outer) (hl : outer ≤ level) : store.Scoped level where
  ordered := h.ordered
  level_le binding hb := Nat.le_trans (h.level_le binding hb) hl
  origin := h.origin
  cells := h.cells

/-- Only names, kinds, levels and sizes matter. -/
theorem Scoped.of_unset (h : store.Scoped level) (ho : next.Ordered)
    (hkeep : ∀ binding ∈ store, ∃ other ∈ next, other.unset = binding.unset)
    (hback : ∀ other ∈ next, ∃ binding ∈ store, other.unset = binding.unset) :
    next.Scoped level where
  ordered := ho
  level_le other hother := by
    obtain ⟨binding, hb, he⟩ := hback other hother
    rw [Binding.level_eq_of_unset he]
    exact h.level_le binding hb
  origin other hother := by
    obtain ⟨binding, hb, he⟩ := hback other hother
    obtain hn | ⟨header, hh, index, hi, hcell⟩ := h.origin binding hb
    · exact .inl (Binding.name_eq_of_unset he ▸ hn)
    · obtain ⟨array, ha, harray⟩ := hkeep header hh
      refine .inr ⟨array, ha, index, hi.of_unset harray.symm, he.trans (hcell.trans ?_)⟩
      exact Binding.part_eq_of_unset harray.symm _
  cells header hh index hi := by
    obtain ⟨array, ha, he⟩ := hback header hh
    obtain ⟨cell, hc, hcell⟩ := h.cells array ha index (hi.of_unset he)
    obtain ⟨other, ho, hother⟩ := hkeep cell hc
    refine ⟨other, ho, hother.trans (hcell.trans ?_)⟩
    exact Binding.part_eq_of_unset he.symm _

theorem Scoped.assign (h : store.Scoped level) (name : String) (around : Nat)
    (value : Option Value) : (store.assign name around value).Scoped level := by
  refine h.of_unset (h.ordered.assign value) (fun binding hb => ?_) fun other ho => ?_
  · exact ⟨_, (h.ordered.mem_assign value).2 ⟨binding, hb, rfl⟩, unset_assigned value⟩
  · obtain ⟨binding, hb, rfl⟩ := (h.ordered.mem_assign value).1 ho
    exact ⟨binding, hb, unset_assigned value⟩

theorem Scoped.upTo (h : store.Scoped level) (outer : Nat) : (store.upTo outer).Scoped outer where
  ordered := h.ordered.upTo outer
  level_le binding hb := (mem_upTo.1 hb).2
  origin binding hb := by
    obtain ⟨hb, hl⟩ := mem_upTo.1 hb
    refine (h.origin binding hb).imp_right ?_
    rintro ⟨header, hh, index, hi, hcell⟩
    have hlevel : binding.level = header.level := Binding.level_of_part hcell
    exact ⟨header, mem_upTo.2 ⟨hh, hlevel ▸ hl⟩, index, hi, hcell⟩
  cells header hh index hi := by
    obtain ⟨hh, hl⟩ := mem_upTo.1 hh
    obtain ⟨cell, hc, hcell⟩ := h.cells header hh index hi
    have hlevel : cell.level = header.level := Binding.level_of_part hcell
    exact ⟨cell, mem_upTo.2 ⟨hc, hlevel ▸ hl⟩, hcell⟩

/-! ## Declarations -/

/-- Adds the bindings of a variable or of a whole array; a variable is an array without cells
here. -/
def declare (store : Store) (header : Binding) : Store :=
  State.declareCells (store.insert header) header (header.size.getD 0)

theorem declareCells_succ (store : Store) (hv : header.value = none) (count : Nat) :
    State.declareCells store header (count + 1) =
      (State.declareCells store header count).insert (header.part (some count)) := by
  rw [State.declareCells_succ, hv]
  rfl

theorem mem_declareCells (hv : header.value = none) (count : Nat) :
    binding ∈ State.declareCells store header count ↔
      (∃ index < count, binding = header.part (some index)) ∨ binding ∈ store := by
  induction count with
  | zero => simp [State.declareCells]
  | succ count ih =>
    simp only [declareCells_succ store hv, mem_insert, ih, Nat.lt_succ_iff_lt_or_eq, or_and_right,
      exists_or, exists_eq_left]
    exact or_left_comm.trans or_assoc.symm

theorem Ordered.declareCells (h : store.Ordered) (hv : header.value = none)
    (hfresh : ∀ index, ∀ other ∈ store, other.name = cellName header.name index →
      other.level ≠ header.level) (count : Nat) :
    (State.declareCells store header count).Ordered := by
  induction count with
  | zero => exact h
  | succ count ih =>
    rw [declareCells_succ store hv]
    refine ih.insert fun other ho hn => ?_
    obtain ⟨index, hi, rfl⟩ | ho := (mem_declareCells hv count).1 ho
    · exact absurd (cellName_inj.1 hn).2 (Nat.ne_of_lt hi)
    · exact hfresh count other ho hn

theorem mem_declare (hv : header.value = none) : binding ∈ store.declare header ↔
    binding = header ∨ (∃ index, header.Has (some index) ∧ binding = header.part (some index)) ∨
      binding ∈ store := by
  have hhas (index : Nat) : header.Has (some index) ↔ index < header.size.getD 0 := by
    cases hs : header.size <;> simp [Binding.Has, hs]
  simp only [declare, mem_declareCells hv, mem_insert, hhas]
  exact or_left_comm

/-- Where a name has no binding, none of its cells has one. -/
theorem Scoped.cell_fresh (h : store.Scoped level)
    (hfresh : ∀ other ∈ store, other.name = name → other.level ≠ outer) (index : Nat) :
    ∀ other ∈ store, other.name = cellName name index → other.level ≠ outer := by
  intro other ho hn
  obtain ⟨header, hh, hname, -, hcell⟩ := h.array_of_cell ho hn
  rw [Binding.level_of_part hcell]
  exact hfresh header hh hname

theorem Scoped.declare (h : store.Scoped level) (hn : IsName header.name)
    (hl : header.level ≤ level) (hv : header.value = none)
    (hfresh : ∀ other ∈ store, other.name = header.name → other.level ≠ header.level) :
    (store.declare header).Scoped level where
  ordered := by
    refine (h.ordered.insert hfresh).declareCells hv (fun index other ho hname => ?_) _
    obtain rfl | ho := mem_insert.1 ho
    · exact absurd (hname ▸ hn) (not_isName_cellName _ _)
    · exact h.cell_fresh hfresh index other ho hname
  level_le binding hb := by
    obtain rfl | ⟨index, -, rfl⟩ | hb := (mem_declare hv).1 hb
    · exact hl
    · exact hl
    · exact h.level_le binding hb
  origin binding hb := by
    obtain rfl | ⟨index, hi, rfl⟩ | hb := (mem_declare hv).1 hb
    · exact .inl hn
    · exact .inr ⟨header, (mem_declare hv).2 (.inl rfl), index, hi, rfl⟩
    · refine (h.origin binding hb).imp_right ?_
      rintro ⟨array, ha, index, hi, hcell⟩
      exact ⟨array, (mem_declare hv).2 (.inr (.inr ha)), index, hi, hcell⟩
  cells array ha index hi := by
    obtain rfl | ⟨i, -, rfl⟩ | ha := (mem_declare hv).1 ha
    · exact ⟨array.part (some index), (mem_declare hv).2 (.inr (.inl ⟨index, hi, rfl⟩)), rfl⟩
    · obtain ⟨size, hs, -⟩ := hi
      cases hs
    · obtain ⟨cell, hc, hcell⟩ := h.cells array ha index hi
      exact ⟨cell, (mem_declare hv).2 (.inr (.inr hc)), hcell⟩

end Store
end BlockLang
