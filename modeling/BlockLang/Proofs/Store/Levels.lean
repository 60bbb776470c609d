import BlockLang.Proofs.Store.Runs

/-! # Levels without bindings

What is done in a block does not depend on the level of the block as long as neither it nor
a block inside it has bindings. So an assignment or a test comes out the same in the block of
a loop header, in which nothing is declared, as in the block around the loop.
-/
namespace BlockLang

namespace Store

def Bounded (store : Store) (level : Nat) : Prop :=
  ∀ binding ∈ store, binding.level ≤ level

variable {store : Store} {level other : Nat} {name : String}

theorem Bounded.mono (h : store.Bounded level) (hl : level ≤ other) : store.Bounded other :=
  fun binding hb => (h binding hb).trans hl

/-- The last binding of a name is visible. -/
theorem Bounded.visible?_eq (h : store.Bounded level) :
    store.visible? name level = (store.bindingsOf name).getLast? := by
  have hall : ∀ binding ∈ (store.bindingsOf name).reverse, binding.level ≤ level :=
    fun binding hb => h binding (mem_of_mem_bindingsOf (List.mem_reverse.1 hb))
  rw [visible?, ← List.head?_reverse]
  cases hr : (store.bindingsOf name).reverse with
  | nil => rfl
  | cons last others =>
    have hlast : last.level ≤ level := hall last (hr ▸ List.mem_cons_self)
    rw [List.find?_cons_of_pos (by simpa using hlast), List.head?_cons]

theorem Bounded.assignLast_eq (h : store.Bounded level) (ho : store.Bounded other)
    (value : Option Value) : assignLast level value (store.bindingsOf name) =
      assignLast other value (store.bindingsOf name) := by
  obtain hnil | ⟨older, last, hlist⟩ := List.eq_nil_or_concat (store.bindingsOf name)
  · rw [hnil, assignLast, assignLast]
  · have hkept : last ∈ store.bindingsOf name := by simp [hlist]
    have hmem : last ∈ store := mem_of_mem_bindingsOf hkept
    rw [hlist, List.concat_eq_append, assignLast_append_cons (h last hmem) (List.forall_mem_nil _),
      assignLast_append_cons (ho last hmem) (List.forall_mem_nil _)]

theorem Bounded.assign_eq (h : store.Bounded level) (ho : store.Bounded other)
    (value : Option Value) : store.assign name level value = store.assign name other value := by
  refine congrArg mk (Std.ExtTreeMap.ext_getElem? fun kept => ?_)
  rw [Std.ExtTreeMap.getElem?_modify, Std.ExtTreeMap.getElem?_modify]
  split
  · cases hk : store.table[name]? with
    | none => rfl
    | some bindings =>
      have hlist : store.bindingsOf name = bindings := by rw [bindingsOf, hk, Option.getD_some]
      exact congrArg some (hlist ▸ h.assignLast_eq ho value)
  · rfl

/-- Nothing is forgotten where nothing stands above. -/
theorem Ordered.upTo_eq_self (h : store.Ordered) (hb : store.Bounded level) :
    store.upTo level = store := by
  suffices htable : (store.upTo level).table = store.table from congrArg Store.mk htable
  refine Std.ExtTreeMap.ext_getElem? fun kept => ?_
  rw [Store.upTo, Std.ExtTreeMap.getElem?_filterMap]
  cases hk : store.table[kept]? with
  | none => rfl
  | some bindings =>
    have hlist : store.bindingsOf kept = bindings := by rw [bindingsOf, hk, Option.getD_some]
    have hkept : bindings.filter (fun binding => binding.level ≤ level) = bindings := by
      rw [List.filter_eq_self]
      intro binding hm
      simpa using hb binding (mem_of_mem_bindingsOf (hlist ▸ hm))
    rw [Option.pbind_some, hkept]
    split
    · exact absurd hk (h.nonempty kept)
    · rfl

/-! ## Evaluation -/

theorem fetch_congr (hv : ∀ name, store.visible? name level = store.visible? name other)
    (line : Nat) (name : String) (slot : Slot) :
    store.fetch level line name slot = store.fetch other line name slot := by
  rw [fetch, fetch, hv]

mutual

/-- Evaluation looks at visible bindings only. -/
theorem evaluate_congr (hv : ∀ name, store.visible? name level = store.visible? name other) :
    (node : Node) → store.evaluate level node = store.evaluate other node
  | ⟨kind, text, line, children⟩ => by
    rw [evaluate.eq_def, evaluate.eq_def store other]
    cases kind with
    | identifier =>
      dsimp only
      rw [slotIn_congr hv children]
      exact bind_congr fun slot => fetch_congr hv line text slot
    | arithmetic =>
      dsimp only
      split
      · rename_i left right _
        rw [evaluate_congr hv left, evaluate_congr hv right]
      · rfl
    | comparison =>
      dsimp only
      split
      · rename_i left right
        rw [evaluate_congr hv left, evaluate_congr hv right]
      · rfl
    | _ => rfl

theorem slotIn_congr (hv : ∀ name, store.visible? name level = store.visible? name other)
    {name : String} {line : Nat} : (children : List Node) →
      store.slotIn level name line children = store.slotIn other name line children
  | [] => by rw [slotIn, slotIn, hv]
  | ⟨kind, text, subscriptLine, children⟩ :: _ => by
    rw [slotIn, slotIn, hv, evaluateFirst_congr hv children]

theorem evaluateFirst_congr
    (hv : ∀ name, store.visible? name level = store.visible? name other) :
    (nodes : List Node) → store.evaluateFirst level nodes = store.evaluateFirst other nodes
  | [] => by rw [evaluateFirst, evaluateFirst]
  | node :: nodes => by
    rw [evaluateFirst, evaluateFirst, evaluate_congr hv node, evaluateFirst_congr hv nodes]

end

end Store

namespace State

def onLevel (state : State) (level : Nat) : State :=
  { state with level := level }

variable {state next : State} {level : Nat}

theorem visible?_onLevel (h : state.store.Bounded state.level) (hl : state.store.Bounded level)
    (name : String) : state.store.visible? name level = state.store.visible? name state.level := by
  rw [h.visible?_eq, hl.visible?_eq]

theorem put_onLevel (h : state.store.Bounded state.level) (hl : state.store.Bounded level)
    (slot : Slot) (value : Value) :
    (state.onLevel level).put slot value = (state.put slot value).onLevel level := by
  simp only [put, onLevel, h.assign_eq hl]

/-- A condition holds or fails on both levels alike. -/
theorem test_onLevel (h : state.store.Bounded state.level) (hl : state.store.Bounded level)
    (condition : Node) : (state.onLevel level).test condition =
      ((state.test condition).1, (state.test condition).2.onLevel level) := by
  have hv := visible?_onLevel h hl
  have heval : (state.onLevel level).evaluateWithin condition = state.evaluateWithin condition := by
    show Option.getD (state.store.evaluateFirst level condition.children) _ = _
    rw [Store.evaluateFirst_congr hv]
    rfl
  rw [test, test, heval]
  split <;> rfl

/-- An assignment does the same on both levels. -/
theorem assign_onLevel (h : state.store.Bounded state.level) (hl : state.store.Bounded level)
    (stmt : Node) : (state.onLevel level).assign stmt =
      (state.assign stmt).map fun next => next.onLevel level := by
  have hv := visible?_onLevel h hl
  unfold assign
  split
  · rename_i target source _
    have hslot : (state.onLevel level).slotOf target = state.slotOf target :=
      Store.slotIn_congr hv target.children
    have heval : (state.onLevel level).evaluate source = state.evaluate source :=
      Store.evaluate_congr hv source
    rw [hslot, heval]
    cases state.slotOf target with
    | error error => rfl
    | ok slot =>
      cases state.evaluate source with
      | error error => rfl
      | ok value =>
        simp only [bind, Except.bind, putAdapted, put_onLevel h hl]
        split <;> rfl
  · rfl

end State
end BlockLang
