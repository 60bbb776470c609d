import BlockLang.Execution.State
import BlockLang.Proofs.Matching

/-! # Matching stores

Two stores match if under corresponding names they have bindings that differ in names and
lines only. Every operation treats such stores alike: it looks at levels, and it tells
the names of one store apart just where it tells those of the other apart.
-/
namespace BlockLang.Matching
open Scope

/-- Two bindings that differ in their names and lines only. -/
structure Bindings (binding twin : Binding) : Prop where
  kind_eq : binding.kind = twin.kind
  level_eq : binding.level = twin.level
  value_eq : binding.value = twin.value
  size_eq : binding.size = twin.size

def Stores (c : Matching) (store twin : Store) : Prop :=
  ∀ ⦃name other : String⦄ (index : Option Nat), c.names name other →
    List.Forall₂ Bindings (store.bindingsOf (key name index)) (twin.bindingsOf (key other index))

variable {c : Matching} {store twin : Store} {level : Nat}

theorem stores_empty : c.Stores .empty .empty := by
  intro name other index _
  rw [Store.bindingsOf_empty, Store.bindingsOf_empty]
  exact .nil

/-! ## Looking up -/

theorem Stores.visible (h : c.Stores store twin) {name other : String} (index : Option Nat)
    (hn : c.names name other) : Option.Rel Bindings (store.visible? (key name index) level)
      (twin.visible? (key other index) level) :=
  rel_find (List.forall₂_reverse_iff.2 (h index hn)) fun _ _ hb => by rw [hb.level_eq]

theorem Stores.atLevel (h : c.Stores store twin) {name other : String} (index : Option Nat)
    (hn : c.names name other) : Option.Rel Bindings (store.atLevel? (key name index) level)
      (twin.atLevel? (key other index) level) :=
  rel_find (h index hn) fun _ _ hb => by rw [hb.level_eq]

/-! ## Changes of bindings -/

variable {binding other : Binding} {bindings others : List Binding}

theorem rel_place (hb : Bindings binding other) (h : List.Forall₂ Bindings bindings others) :
    List.Forall₂ Bindings (Store.place binding bindings) (Store.place other others) := by
  induction h with
  | nil => exact .cons hb .nil
  | cons hfirst hrest ih =>
    rw [Store.place, Store.place, ← hb.level_eq, ← hfirst.level_eq]
    split
    · exact .cons hb (.cons hfirst hrest)
    · exact .cons hfirst ih

theorem any_level_eq (h : List.Forall₂ Bindings bindings others) :
    bindings.any (fun binding => binding.level ≤ level) =
      others.any fun binding => binding.level ≤ level := by
  induction h with
  | nil => rfl
  | cons hfirst _ ih => rw [List.any_cons, List.any_cons, hfirst.level_eq, ih]

theorem rel_assignLast (value : Option Value) (h : List.Forall₂ Bindings bindings others) :
    List.Forall₂ Bindings (Store.assignLast level value bindings)
      (Store.assignLast level value others) := by
  induction h with
  | nil => exact .nil
  | cons hfirst hrest ih =>
    rw [Store.assignLast, Store.assignLast, ← any_level_eq hrest, ← hfirst.level_eq]
    split
    · exact .cons hfirst ih
    · split
      · exact .cons ⟨hfirst.kind_eq, rfl, rfl, hfirst.size_eq⟩ hrest
      · exact .cons hfirst hrest

/-! ## Changes of stores -/

theorem Stores.insert (h : c.Stores store twin) (index : Option Nat) {name mate : String}
    (hn : c.names name mate) (hname : binding.name = key name index)
    (hmate : other.name = key mate index) (hb : Bindings binding other) :
    c.Stores (store.insert binding) (twin.insert other) := by
  intro declared found place hd
  rw [Store.bindingsOf_insert, Store.bindingsOf_insert, hname, hmate,
    if_congr (c.key_eq_iff index place hn hd) rfl rfl]
  split
  · exact rel_place hb (h place hd)
  · exact h place hd

theorem Stores.assign (h : c.Stores store twin) (index : Option Nat) {name mate : String}
    (hn : c.names name mate) (value : Option Value) :
    c.Stores (store.assign (key name index) level value)
      (twin.assign (key mate index) level value) := by
  intro assigned found place ha
  rw [Store.bindingsOf_assign, Store.bindingsOf_assign,
    if_congr (c.key_eq_iff index place hn ha) rfl rfl]
  split
  · exact rel_assignLast value (h place ha)
  · exact h place ha

theorem Stores.upTo (h : c.Stores store twin) (level : Nat) :
    c.Stores (store.upTo level) (twin.upTo level) := by
  intro name other index hn
  rw [Store.bindingsOf_upTo, Store.bindingsOf_upTo]
  refine List.rel_filter (fun binding other hb => ?_) (h index hn)
  simp only [hb.level_eq]

/-- The cells of two arrays of one size. -/
theorem Stores.declareCells (h : c.Stores store twin) {header mate : Binding}
    (hn : c.names header.name mate.name) (hb : Bindings header mate) (count : Nat) :
    c.Stores (State.declareCells store header count) (State.declareCells twin mate count) := by
  induction count with
  | zero => exact h
  | succ count ih =>
    have hcell : Bindings { header with name := cellName header.name count, size := none }
        { mate with name := cellName mate.name count, size := none } :=
      ⟨hb.kind_eq, hb.level_eq, hb.value_eq, rfl⟩
    rw [State.declareCells_succ, State.declareCells_succ]
    exact ih.insert (some count) hn rfl rfl hcell

end BlockLang.Matching
