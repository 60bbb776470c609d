import BlockLang.Proofs.Store.Kinds

/-! # Kinds of expressions

An expression has a kind that follows from the kinds with which its names are declared,
without any values. Arithmetic looks at the values of its operands to choose between integers
and reals, but as these have the declared kinds, it chooses what the kind of the expression
says; and an expression without a kind has no value, whatever the variables hold.
-/
namespace BlockLang
open Scope (key)

namespace Kind

def isNumeric : Kind → Bool
  | .int | .real => true
  | .bool | .text => false

def ofArithmetic? (left right : Kind) : Option Kind :=
  if left = .int ∧ right = .int then some .int
  else if left.isNumeric ∧ right.isNumeric then some .real
  else none

def ofComparison? (left right : Kind) : Option Kind :=
  if left.isNumeric ∧ right.isNumeric then some .bool else none

end Kind

namespace Node

/-- The kind of an expression whose names have been declared with the given kinds. -/
def kindUnder? (declared : String → Option Kind) : Node → Option Kind
  | ⟨kind, text, _, children⟩ =>
    match kind with
    | .intLiteral => some .int
    | .realLiteral => some .real
    | .boolLiteral => some .bool
    | .stringLiteral => some .text
    | .identifier => declared text
    | .arithmetic =>
      match children with
      | [left, right] => do
        Kind.ofArithmetic? (← left.kindUnder? declared) (← right.kindUnder? declared)
      | _ => none
    | .comparison =>
      match children with
      | [left, right] => do
        Kind.ofComparison? (← left.kindUnder? declared) (← right.kindUnder? declared)
      | _ => none
    | _ => none

end Node

def State.declaredKind? (state : State) (name : String) : Option Kind :=
  (state.lookup? name).map Binding.kind

/-! ## Operations -/

namespace Value

variable {left right value : Value} {line leftLine rightLine : Nat}

theorem isNumeric_of_decimal {d : Decimal} (h : value.decimal line = .ok d) :
    value.kind.isNumeric = true := by
  cases value with
  | int n => rfl
  | real x => rfl
  | bool b => cases h
  | text s => cases h

theorem kind_of_settle {α : Type} {wrap : α → Value} {kind : Kind}
    {result : Except ArithmeticError α} (hw : ∀ a, (wrap a).kind = kind)
    (h : settle line wrap result = .ok value) : value.kind = kind := by
  cases result with
  | ok a =>
    cases h
    exact hw a
  | error e => cases h

theorem kind_of_arithmetic {op : Operator}
    (h : arithmetic op line leftLine rightLine left right = .ok value) :
    Kind.ofArithmetic? left.kind right.kind = some value.kind := by
  unfold arithmetic at h
  split at h
  · have hk : value.kind = .int := kind_of_settle (fun _ => rfl) h
    rw [hk]
    rfl
  · rename_i hints
    obtain ⟨l, hl, hrest⟩ := Except.bind_eq_ok h
    obtain ⟨r, hr, hsettled⟩ := Except.bind_eq_ok hrest
    have hnot : ¬(left.kind = .int ∧ right.kind = .int) := by
      rintro ⟨hleft, hright⟩
      cases left <;> cases hleft
      cases right <;> cases hright
      exact hints _ _ rfl rfl
    have hk : value.kind = .real := kind_of_settle (fun _ => rfl) hsettled
    rw [Kind.ofArithmetic?, if_neg hnot, hk,
      if_pos ⟨isNumeric_of_decimal hl, isNumeric_of_decimal hr⟩]

end Value

/-! ## Evaluation -/

namespace Store

variable {store : Store} {level line : Nat} {node : Node} {text : String} {children : List Node}
  {value : Value}

theorem fetch_eq_ok {name : String} {slot : Slot}
    (h : store.fetch level line name slot = .ok value) :
    ∃ found, store.visible? slot.name level = some found ∧ found.value = some value := by
  unfold fetch at h
  split at h
  · rename_i stored hstored
    cases h
    exact Option.bind_eq_some_iff.1 hstored
  · cases h

theorem evaluate_arithmetic_eq_ok
    (h : store.evaluate level ⟨.arithmetic, text, line, children⟩ = .ok value) :
    ∃ op left right l r, children = [left, right] ∧ store.evaluate level left = .ok l ∧
      store.evaluate level right = .ok r ∧
      Value.arithmetic op line left.line right.line l r = .ok value := by
  rw [evaluate.eq_def] at h
  dsimp only at h
  split at h
  · rename_i op left right _
    obtain ⟨l, hl, hrest⟩ := Except.bind_eq_ok h
    obtain ⟨r, hr, hvalue⟩ := Except.bind_eq_ok hrest
    exact ⟨op, left, right, l, r, rfl, hl, hr, hvalue⟩
  · cases h

theorem evaluate_comparison_eq_ok
    (h : store.evaluate level ⟨.comparison, text, line, children⟩ = .ok value) :
    ∃ left right l r, children = [left, right] ∧ store.evaluate level left = .ok l ∧
      store.evaluate level right = .ok r ∧ l.kind.isNumeric = true ∧ r.kind.isNumeric = true ∧
      value.kind = .bool := by
  rw [evaluate.eq_def] at h
  dsimp only at h
  split at h
  · rename_i left right
    obtain ⟨l, hl, hrest⟩ := Except.bind_eq_ok h
    obtain ⟨x, hx, hrest⟩ := Except.bind_eq_ok hrest
    obtain ⟨r, hr, hrest⟩ := Except.bind_eq_ok hrest
    obtain ⟨y, hy, hvalue⟩ := Except.bind_eq_ok hrest
    refine ⟨left, right, l, r, rfl, hl, hr, Value.isNumeric_of_decimal hx,
      Value.isNumeric_of_decimal hy, ?_⟩
    split at hvalue
    · cases hvalue
      rfl
    · cases hvalue
  · cases h

/-- What is fetched for a name has the kind of the visible variable or array of this name. -/
theorem Typed.kind_of_fetch (ht : store.Typed) (hs : store.Scoped level) {slot : Slot}
    (hslot : store.slotOf level node = .ok slot)
    (h : store.fetch level line node.text slot = .ok value) :
    (store.visible? node.text level).map Binding.kind = some value.kind := by
  obtain ⟨header, index, hd, rfl⟩ := slotOf_eq_ok hslot
  obtain ⟨found, hfound, hpart⟩ := hs.visible?_slot hd
  obtain ⟨stored, hstored, hvalue⟩ := fetch_eq_ok h
  obtain rfl : found = stored := Option.some.inj (hfound.symm.trans hstored)
  have hm : found ∈ store := (hs.ordered.visible?_eq_some.1 hfound).1
  rw [hd.visible, Option.map_some, ht.kind_eq found hm value hvalue, Binding.kind_of_part hpart]

/-- By induction on the expression; what stands in a subscript does not matter. -/
theorem Typed.kind_of_evaluate (ht : store.Typed) (hs : store.Scoped level) :
    (node : Node) → {value : Value} → store.evaluate level node = .ok value →
      node.kindUnder? (fun name => (store.visible? name level).map Binding.kind) =
        some value.kind
  | ⟨kind, text, line, children⟩, value, h => by
    cases kind with
    | arithmetic =>
      obtain ⟨op, left, right, l, r, rfl, hl, hr, hvalue⟩ := evaluate_arithmetic_eq_ok h
      have hleft := ht.kind_of_evaluate hs left hl
      have hright := ht.kind_of_evaluate hs right hr
      simp only [Node.kindUnder?, hleft, hright]
      exact Value.kind_of_arithmetic hvalue
    | comparison =>
      obtain ⟨left, right, l, r, rfl, hl, hr, hnl, hnr, hvalue⟩ := evaluate_comparison_eq_ok h
      have hleft := ht.kind_of_evaluate hs left hl
      have hright := ht.kind_of_evaluate hs right hr
      simp only [Node.kindUnder?, hleft, hright]
      exact (if_pos ⟨hnl, hnr⟩).trans (congrArg some hvalue.symm)
    | identifier =>
      rw [evaluate] at h
      obtain ⟨slot, hslot, hfetch⟩ := Except.bind_eq_ok h
      have hnode : store.slotOf level ⟨.identifier, text, line, children⟩ = .ok slot := hslot
      rw [Node.kindUnder?]
      exact ht.kind_of_fetch hs hnode hfetch
    | intLiteral | realLiteral =>
      rw [evaluate] at h
      split at h
      · cases h
        rfl
      · cases h
    | boolLiteral | stringLiteral =>
      rw [evaluate] at h
      cases h
      rfl
    | _ =>
      rw [evaluate.eq_def] at h
      cases h

end Store

/-! ## Runs -/

namespace Machine

/-- The states in which a run evaluates expressions: those between its steps, such a state with the
block of a loop header entered, and one in which a variable has just been declared that is about
to get its first value. -/
inductive Passes (machine : Machine) : State → Prop
  | between (count : Nat) : Passes machine (machine.run count).state
  | header (count : Nat) : Passes machine (machine.run count).state.enter
  | declared {count : Nat} {state : State} {kind : Kind} {item : Node} {tasks : List Task} :
    machine.run count = ⟨state, .declare kind item :: tasks⟩ →
    state.store.atLevel? item.text state.level = none →
    Passes machine (state.declareScalar kind item)

variable {machine : Machine} {state : State}

theorem Sound.of_passes (h : machine.Sound) (ht : machine.state.store.Typed)
    (hp : machine.Passes state) : state.store.Scoped state.level ∧ state.store.Typed := by
  have hrun (count : Nat) := (h.sound_run count).store_scoped
  cases hp with
  | between count => exact ⟨hrun count, h.typed_run ht count⟩
  | header count => exact ⟨(hrun count).mono (Nat.le_succ _), h.typed_run ht count⟩
  | @declared count state kind item tasks hat hfresh =>
    have hnow : Sound ⟨state, .declare kind item :: tasks⟩ := hat ▸ h.sound_run count
    have hitem : item.IsDeclarator := hnow.isShaped rfl
    obtain ⟨_, _, hname, -, -⟩ := hitem
    have hs : state.store.Scoped state.level := hnow.store_scoped
    have htyped : state.store.Typed := by
      have htypes := h.typed_run ht count
      rwa [storeAfter, hat] at htypes
    have hchange := State.change_declareScalar kind (Scope.isName_of_spells hname) hfresh
    exact ⟨hchange.scoped hs, hchange.typed hs htyped⟩

end Machine

/-- Whenever an expression has a value in a run, this has the kind that the declared kinds of the
visible names give the expression. So an expression to which they give no kind has no value, in
whatever state of whatever run the names are declared with the same kinds. -/
theorem kinds_are_static (text : String) (begun : State) {state : State}
    (h : (Machine.ofProgram begun (Parse.ofText text)).Passes state) :
    (∀ node value, state.evaluate node = .ok value →
      node.kindUnder? state.declaredKind? = some value.kind) ∧
    ∀ node, node.kindUnder? state.declaredKind? = none →
      ∀ text begun other, (Machine.ofProgram begun (Parse.ofText text)).Passes other →
        (∀ name, other.declaredKind? name = state.declaredKind? name) →
        ∃ error, other.evaluate node = .error error := by
  have hkind (text : String) (begun state : State)
      (h : (Machine.ofProgram begun (Parse.ofText text)).Passes state) (node : Node)
      (value : Value) (hv : state.evaluate node = .ok value) :
      node.kindUnder? state.declaredKind? = some value.kind := by
    obtain ⟨hs, ht⟩ := (Machine.sound_ofProgram begun text).of_passes Store.typed_empty h
    exact ht.kind_of_evaluate hs node hv
  refine ⟨hkind text begun state h, fun node hnone text begun other ho hsame => ?_⟩
  cases hv : other.evaluate node with
  | error error => exact ⟨error, rfl⟩
  | ok value =>
    have hsome := hkind text begun other ho node value hv
    rw [funext hsame, hnone] at hsome
    cases hsome

/-- The sum of two integers, and that of a string and an integer. -/
theorem kinds_of_mixed_operands :
    let machine := Machine.ofProgram (.start (.ofFeed []))
      (Parse.ofText "int n = 3; string s;")
    let state := (machine.run 4).state
    let name (text : String) : Node := .leaf .identifier text 1
    let sum (left right : Node) : Node := ⟨.arithmetic, "+", 1, [left, right]⟩
    machine.Passes state ∧ state.evaluate (sum (name "n") (name "n")) = .ok (.int 6) ∧
      (sum (name "n") (name "n")).kindUnder? state.declaredKind? = some .int ∧
      (sum (name "s") (name "n")).kindUnder? state.declaredKind? = none ∧
      ∃ error, state.evaluate (sum (name "s") (name "n")) = .error error := by
  intro machine state name sum
  have hp : machine.Passes state := .between 4
  obtain ⟨hkind, hnone⟩ := kinds_are_static _ _ hp
  have hvalue : state.evaluate (sum (name "n") (name "n")) = .ok (.int 6) := by decide +kernel
  have hundefined : (sum (name "s") (name "n")).kindUnder? state.declaredKind? = none := by
    decide +kernel
  exact ⟨hp, hvalue, hkind _ _ hvalue, hundefined,
    hnone _ hundefined _ _ state hp fun _ => rfl⟩

end BlockLang
