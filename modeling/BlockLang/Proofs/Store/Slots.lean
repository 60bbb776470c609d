import BlockLang.Proofs.Shape.Execution
import BlockLang.Proofs.Store.Arrays

/-! # Slots

A node denotes a variable or a cell by the visible binding of its name and by the value
of its subscript. The slot that is found for it is that of this variable or cell, and its
binding stands at the level of the one whose size the index was checked against.
-/
namespace BlockLang
open Scope (IsName key key_inj)

/-- An index that passes the check is a number of the array. -/
theorem Value.checkIndex_eq_ok {base : String} {size line index : Nat} {value : Value}
    (h : value.checkIndex base size line = .ok index) :
    ∃ number : Int64, value = .int number ∧ number.toInt = index ∧ index < size := by
  unfold checkIndex at h
  split at h
  · rename_i number
    split at h
    · cases h
    · rename_i hsign
      split at h
      · rename_i hsize
        cases h
        have hpos : 0 ≤ number.toInt := by
          simpa [Int64.lt_iff_toInt_lt] using hsign
        exact ⟨number, rfl, (Int.toNat_of_nonneg hpos).symm, hsize⟩
      · cases h
  · cases h

theorem Value.checkIndex_int {number : Int64} {index size : Nat} (hn : number.toInt = index)
    (hlt : index < size) (base : String) (line : Nat) :
    (Value.int number).checkIndex base size line = .ok index := by
  have hsign : ¬number < 0 := by
    simp [Int64.lt_iff_toInt_lt, hn]
  simp [checkIndex, hsign, hn, hlt]

namespace Store

/-- What a node stands for: the visible binding of its name and, if it has a subscript, an index
of the array, which is the value of the subscript. -/
inductive Denotes (store : Store) (level : Nat) (node : Node) (header : Binding) :
    Option Nat → Prop
  | variable : node.children = [] → store.visible? node.text level = some header →
    header.Has none → Denotes store level node header none
  | cell {subscript : Node} {rest : List Node} {number : Int64} {index : Nat} :
    node.children = subscript :: rest → subscript.kind = .subscript →
    store.visible? node.text level = some header →
    store.evaluateWithin level subscript = .ok (.int number) → number.toInt = index →
    header.Has (some index) → Denotes store level node header (some index)

variable {store : Store} {level : Nat} {node : Node} {slot : Slot}

theorem Denotes.visible {header : Binding} {index : Option Nat}
    (h : store.Denotes level node header index) :
    store.visible? node.text level = some header := by
  cases h <;> assumption

theorem Denotes.has {header : Binding} {index : Option Nat}
    (h : store.Denotes level node header index) : header.Has index := by
  cases h <;> assumption

theorem slotOf_eq_ok (h : store.slotOf level node = .ok slot) : ∃ header index,
    store.Denotes level node header index ∧ slot = ⟨key node.text index, header.kind⟩ := by
  obtain ⟨kind, name, line, children⟩ := node
  cases children with
  | nil =>
    rw [slotOf, slotIn] at h
    split at h
    · cases h
    · rename_i header hv
      split at h
      · rename_i hs
        cases h
        exact ⟨header, none, .variable rfl hv hs, rfl⟩
      · cases h
  | cons subscript rest =>
    obtain ⟨subscriptKind, text, subscriptLine, inner⟩ := subscript
    rw [slotOf, slotIn] at h
    split at h
    · cases h
    · rename_i header hv
      split at h
      · rename_i hk
        subst hk
        split at h
        · cases h
        · rename_i size hs
          obtain ⟨value, hvalue, hchecked⟩ := Except.bind_eq_ok h
          obtain ⟨index, hindex, hslot⟩ := Except.bind_eq_ok hchecked
          obtain ⟨number, rfl, hnumber, hlt⟩ := Value.checkIndex_eq_ok hindex
          cases hslot
          exact ⟨header, some index, .cell rfl rfl hv hvalue hnumber ⟨size, hs, hlt⟩, rfl⟩
      · cases h

theorem Denotes.slotOf_eq {header : Binding} {index : Option Nat}
    (h : store.Denotes level node header index) :
    store.slotOf level node = .ok ⟨key node.text index, header.kind⟩ := by
  obtain ⟨kind, name, line, children⟩ := node
  obtain ⟨hc, hv, hs⟩ | @⟨subscript, rest, number, index, hc, hk, hv, he, hn, hs⟩ := h
  · obtain rfl : children = [] := hc
    have hsize : header.size = none := hs
    simp only [slotOf, slotIn, hv, hsize]
    rfl
  · obtain rfl : children = subscript :: rest := hc
    obtain ⟨subscriptKind, text, subscriptLine, inner⟩ := subscript
    obtain rfl : subscriptKind = .subscript := hk
    obtain ⟨size, hsize, hlt⟩ := hs
    have hinner : (store.evaluateFirst level inner).getD
        (.error ⟨.unexpected .subscript, subscriptLine⟩) = .ok (.int number) := he
    have hcheck := Value.checkIndex_int hn hlt name subscriptLine
    simp only [slotOf, slotIn, hv, hsize, if_true, hinner]
    change ((Value.int number).checkIndex name size subscriptLine >>= _) = _
    rw [hcheck]
    rfl

/-- The binding of what a node denotes. -/
theorem Scoped.visible?_slot {around : Nat} {header : Binding} {index : Option Nat}
    (h : store.Scoped level) (hd : store.Denotes around node header index) :
    ∃ found, store.visible? (key node.text index) around = some found ∧
      found.unset = header.part index :=
  h.visible?_part hd.visible hd.has

end Store
end BlockLang
