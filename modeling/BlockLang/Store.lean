import BlockLang.Value
import Std.Data.ExtTreeMap

/-! # The store

The store keeps the bindings of all open blocks under their names. The bindings
of a name are ordered by the level of their block, those of one level by age. An
array has a binding of its own name that carries its size, and one binding for
each of its cells.
-/
namespace BlockLang

structure Binding where
  name : String
  kind : Kind
  line : Nat
  level : Nat
  value : Option Value := none
  /-- The number of cells, if the name is that of an array. -/
  size : Option Nat := none
deriving DecidableEq

/-- The name under which a cell of an array is kept; no identifier has an `@`. -/
def cellName (array : String) (index : Nat) : String :=
  array ++ "@" ++ toString index

structure Store where
  table : Std.ExtTreeMap String (List Binding)

namespace Store

def empty : Store :=
  ⟨∅⟩

def bindingsOf (store : Store) (name : String) : List Binding :=
  store.table[name]?.getD []

/-- The oldest binding of a name at exactly a level. -/
def atLevel? (store : Store) (name : String) (level : Nat) : Option Binding :=
  (store.bindingsOf name).find? fun binding => binding.level == level

/-- The last binding of a name whose level is not above the given one. -/
def visible? (store : Store) (name : String) (level : Nat) : Option Binding :=
  (store.bindingsOf name).reverse.find? fun binding => binding.level ≤ level

def place (binding : Binding) : List Binding → List Binding
  | [] => [binding]
  | other :: others =>
    if binding.level < other.level then
      binding :: other :: others
    else
      other :: place binding others

def insert (store : Store) (binding : Binding) : Store :=
  ⟨store.table.alter binding.name fun bindings => some (place binding (bindings.getD []))⟩

def assignLast (level : Nat) (value : Option Value) : List Binding → List Binding
  | [] => []
  | binding :: bindings =>
    if bindings.any fun later => later.level ≤ level then
      binding :: assignLast level value bindings
    else if binding.level ≤ level then
      { binding with value := value } :: bindings
    else
      binding :: bindings

def assign (store : Store) (name : String) (level : Nat) (value : Option Value) : Store :=
  ⟨store.table.modify name (assignLast level value)⟩

def upTo (store : Store) (level : Nat) : Store :=
  ⟨store.table.filterMap fun _ bindings =>
    match bindings.filter fun binding => binding.level ≤ level with
    | [] => none
    | kept => some kept⟩

@[simp] theorem bindingsOf_empty (name : String) : empty.bindingsOf name = [] := by
  simp [bindingsOf, empty]

theorem bindingsOf_insert (store : Store) (binding : Binding) (name : String) :
    (store.insert binding).bindingsOf name =
      if binding.name = name then place binding (store.bindingsOf name)
      else store.bindingsOf name := by
  by_cases h : binding.name = name
  · subst h
    simp [bindingsOf, insert]
  · simp [bindingsOf, insert, Std.ExtTreeMap.getElem?_alter, h]

theorem bindingsOf_assign (store : Store) (name other : String) (level : Nat)
    (value : Option Value) :
    (store.assign name level value).bindingsOf other =
      if name = other then assignLast level value (store.bindingsOf other)
      else store.bindingsOf other := by
  by_cases h : name = other
  · subst h
    cases hb : store.table[name]? <;> simp [bindingsOf, assign, hb, assignLast]
  · simp [bindingsOf, assign, Std.ExtTreeMap.getElem?_modify, h]

theorem bindingsOf_upTo (store : Store) (level : Nat) (name : String) :
    (store.upTo level).bindingsOf name =
      (store.bindingsOf name).filter fun binding => binding.level ≤ level := by
  cases hb : store.table[name]? with
  | none => simp [bindingsOf, upTo, hb]
  | some bindings =>
    simp only [bindingsOf, upTo, Std.ExtTreeMap.getElem?_filterMap, hb, Option.pbind_some,
      Option.getD_some]
    split
    · rename_i h
      simp [h]
    · simp

end Store
end BlockLang
