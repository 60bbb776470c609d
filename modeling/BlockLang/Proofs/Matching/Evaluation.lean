import BlockLang.Proofs.Matching.Store

/-! # Evaluation on matching stores

On matching stores, matching expressions have the same value or fail with matching errors,
and matching targets are kept in slots whose names correspond.
-/
namespace BlockLang.Matching
open Scope

variable {c : Matching} {line place : Nat}

/-! ## Values -/

theorem results_decimal (h : c.lines line place) (value : Value) :
    c.Results (· = ·) (value.decimal line) (value.decimal place) := by
  cases value with
  | int n => exact .ok rfl
  | real x =>
    rw [Value.decimal, Value.decimal]
    cases Decimal.ofReal? x with
    | none => exact .error (errors_same _ h)
    | some decimal => exact .ok rfl
  | bool b => exact .error (errors_same _ h)
  | text s => exact .error (errors_same _ h)

theorem results_settle {α : Type} (h : c.lines line place) (wrap : α → Value)
    (result : Except ArithmeticError α) :
    c.Results (· = ·) (Value.settle line wrap result) (Value.settle place wrap result) := by
  cases result with
  | ok a => exact .ok rfl
  | error e => exact .error (errors_same _ h)

theorem results_arithmetic (op : Operator) (h : c.lines line place)
    {leftLine leftPlace rightLine rightPlace : Nat} (hl : c.lines leftLine leftPlace)
    (hr : c.lines rightLine rightPlace) (left right : Value) :
    c.Results (· = ·) (Value.arithmetic op line leftLine rightLine left right)
      (Value.arithmetic op place leftPlace rightPlace left right) := by
  unfold Value.arithmetic
  split
  · exact results_settle h _ _
  · exact (results_decimal hl left).bind_same fun l =>
      (results_decimal hr right).bind_same fun r => results_settle h _ _

theorem results_checkIndex {base other : String} (hn : c.names base other)
    (h : c.lines line place) (size : Nat) (value : Value) :
    c.Results (· = ·) (value.checkIndex base size line) (value.checkIndex other size place) := by
  cases value with
  | int n =>
    rw [Value.checkIndex, Value.checkIndex]
    by_cases hneg : n < 0
    · rw [if_pos hneg, if_pos hneg]
      exact .error (errors_named (.negativeIndex n) (fun _ _ => rfl) hn h)
    · rw [if_neg hneg, if_neg hneg]
      by_cases hlt : n.toInt.toNat < size
      · rw [if_pos hlt, if_pos hlt]
        exact .ok rfl
      · rw [if_neg hlt, if_neg hlt]
        exact .error (errors_named (.indexRange n · size) (fun _ _ => rfl) hn h)
  | real x => exact .error (errors_named (.indexKind · .real) (fun _ _ => rfl) hn h)
  | bool b => exact .error (errors_named (.indexKind · .bool) (fun _ _ => rfl) hn h)
  | text s => exact .error (errors_named (.indexKind · .text) (fun _ _ => rfl) hn h)

theorem results_checkSize (h : c.lines line place) (value : Value) :
    c.Results (· = ·) (value.checkSize line) (value.checkSize place) := by
  unfold Value.checkSize
  split
  · split
    · exact .error (errors_same _ h)
    · split
      · exact .ok rfl
      · exact .error (errors_same _ h)
  · exact .error (errors_same _ h)

/-! ## Slots -/

/-- Slots of one kind whose names correspond, for variables or for cells. -/
inductive Slots (c : Matching) : Slot → Slot → Prop
  | intro {name other : String} (index : Option Nat) (kind : Kind) : c.names name other →
    Slots c ⟨key name index, kind⟩ ⟨key other index, kind⟩

variable {store twin : Store} {level : Nat} {name other : String} {n m : Node} {ns ms : List Node}

theorem Stores.fetch (h : c.Stores store twin) (hn : c.names name other) (hl : c.lines line place)
    {slot mate : Slot} (hs : c.Slots slot mate) :
    c.Results (· = ·) (store.fetch level line name slot) (twin.fetch level place other mate) := by
  obtain ⟨index, kind, hk⟩ := hs
  have herror := errors_named .uninitialized (fun _ _ => rfl) hn hl
  rw [Store.fetch, Store.fetch]
  match store.visible? (key _ index) level, twin.visible? (key _ index) level,
    h.visible index hk with
  | _, _, .none => exact .error herror
  | _, _, .some hb =>
    rw [Option.bind_some, Option.bind_some, ← hb.value_eq]
    split
    · exact .ok rfl
    · exact .error herror

/-- Two nodes have the same value, and so do their contents. -/
structure Evaluate (c : Matching) (store twin : Store) (level : Nat) (n m : Node) : Prop where
  nodes : c.Nodes n m
  whole : c.Results (· = ·) (store.evaluate level n) (twin.evaluate level m)
  first : Option.Rel (c.Results (· = ·)) (store.evaluateFirst level n.children)
    (twin.evaluateFirst level m.children)

theorem rel_evaluateFirst (h : List.Forall₂ (Evaluate c store twin level) ns ms) :
    Option.Rel (c.Results (· = ·)) (store.evaluateFirst level ns)
      (twin.evaluateFirst level ms) := by
  induction h with
  | nil => exact .none
  | cons hfirst _ ih =>
    rw [Store.evaluateFirst, Store.evaluateFirst, hfirst.nodes.isError_eq]
    split
    · exact ih
    · exact .some hfirst.whole

/-- The kind of a slot is that of the binding under the name itself. -/
theorem Stores.slotIn (h : c.Stores store twin) (hn : c.names name other)
    (hl : c.lines line place) (hc : List.Forall₂ (Evaluate c store twin level) ns ms) :
    c.Results c.Slots (store.slotIn level name line ns) (twin.slotIn level other place ms) := by
  have hv : Option.Rel Bindings (store.visible? name level) (twin.visible? other level) :=
    h.visible none hn
  have hundeclared := errors_named .undeclared (fun _ _ => rfl) hn hl
  cases hc with
  | nil =>
    rw [Store.slotIn, Store.slotIn]
    match store.visible? name level, twin.visible? other level, hv with
    | none, none, .none => exact .error hundeclared
    | some binding, some mate, .some hb =>
      dsimp only
      rw [← hb.size_eq, ← hb.kind_eq]
      cases binding.size with
      | none => exact .ok (.intro none binding.kind hn)
      | some size => exact .error (errors_named .unindexed (fun _ _ => rfl) hn hl)
  | @cons n m _ _ hfirst _ =>
    obtain ⟨@⟨kind, _, _, _, _, _, _, _, hline, _⟩, -, hfirst⟩ := hfirst
    rw [Store.slotIn, Store.slotIn]
    match store.visible? name level, twin.visible? other level, hv with
    | none, none, .none => exact .error hundeclared
    | some binding, some mate, .some hb =>
      dsimp only
      rw [← hb.size_eq, ← hb.kind_eq]
      split
      · cases binding.size with
        | none => exact .error (errors_named .notAnArray (fun _ _ => rfl) hn hl)
        | some size =>
          have hvalue := results_getD hfirst (errors_same (.unexpected .subscript) hline)
          exact hvalue.bind_same fun value =>
            (results_checkIndex hn hline size value).bind_same fun index =>
              .ok (.intro (some index) binding.kind hn)
      · exact .error (errors_same _ hline)

theorem Stores.evaluateWhole (h : c.Stores store twin) {kind : NodeKind} {text spelling : String}
    (ht : c.Texts kind text spelling) (hl : c.lines line place)
    (hc : List.Forall₂ (Evaluate c store twin level) ns ms) :
    c.Results (· = ·) (store.evaluate level ⟨kind, text, line, ns⟩)
      (twin.evaluate level ⟨kind, spelling, place, ms⟩) := by
  rw [Store.evaluate.eq_def, Store.evaluate.eq_def]
  cases kind with
  | identifier => exact (h.slotIn ht hl hc).bind fun _ _ hs => h.fetch ht hl hs
  | intLiteral =>
    cases (ht : text = spelling)
    dsimp only
    cases Numeral.integer? text.toList with
    | none => exact .error (errors_same _ hl)
    | some n => exact .ok rfl
  | realLiteral =>
    cases (ht : text = spelling)
    dsimp only
    cases Binary64.ofText? text.toList with
    | none => exact .error (errors_same _ hl)
    | some x => exact .ok rfl
  | boolLiteral =>
    cases (ht : text = spelling)
    exact .ok rfl
  | stringLiteral =>
    cases (ht : text = spelling)
    exact .ok rfl
  | arithmetic =>
    cases (ht : text = spelling)
    dsimp only
    match Operator.ofSpelling? text, ns, ms, hc with
    | none, _, _, _ => exact .error (errors_same _ hl)
    | some op, _, _, .nil => exact .error (errors_same _ hl)
    | some op, _, _, .cons _ .nil => exact .error (errors_same _ hl)
    | some op, _, _, .cons hleft (.cons hright .nil) =>
      exact hleft.whole.bind_same fun l => hright.whole.bind_same fun r =>
        results_arithmetic op hl hleft.nodes.line hright.nodes.line l r
    | some op, _, _, .cons _ (.cons _ (.cons _ _)) => exact .error (errors_same _ hl)
  | comparison =>
    cases (ht : text = spelling)
    match ns, ms, hc with
    | _, _, .nil => exact .error (errors_same _ hl)
    | _, _, .cons _ .nil => exact .error (errors_same _ hl)
    | _, _, .cons hleft (.cons hright .nil) =>
      apply hleft.whole.bind_same
      intro left
      apply (results_decimal hleft.nodes.line left).bind_same
      intro l
      apply hright.whole.bind_same
      intro right
      apply (results_decimal hright.nodes.line right).bind_same
      intro r
      cases Value.compare? text l r with
      | none => exact .error (errors_same _ hl)
      | some holds => exact .ok rfl
    | _, _, .cons _ (.cons _ (.cons _ _)) => exact .error (errors_same _ hl)
  | _ => exact .error (errors_same _ hl)

/-- On matching stores matching nodes evaluate alike. -/
theorem Stores.evaluate (h : c.Stores store twin) (hn : c.Nodes n m) :
    Evaluate c store twin level n m := by
  refine Nodes.induct ?_ hn
  intro kind text twinText line place children others ht hl hc
  exact ⟨.intro ht hl (hc.imp fun _ _ he => he.nodes), h.evaluateWhole ht hl hc,
    rel_evaluateFirst hc⟩

end BlockLang.Matching
