import BlockLang.Proofs.Decimal
import BlockLang.Proofs.Typing

/-! # Exact integers

An expression of integers is evaluated as if integers were unbounded, as long as the value of each
of its parts has 64 bits and no divisor is zero. The first part of which this is not true, the
operands of an operation before the operation, is blamed for the failure. Comparisons of such
expressions compare the exact values, although they compare decimals.
-/
namespace BlockLang
open Scope (key)

/-! ## Exact values -/

def Integer.Fits (n : Int) : Prop :=
  -2 ^ 63 ≤ n ∧ n ≤ 2 ^ 63 - 1

instance (n : Int) : Decidable (Integer.Fits n) :=
  inferInstanceAs (Decidable (_ ∧ _))

/-- An operation on unbounded integers; division truncates toward zero. -/
def exactResult? (operator : String) (l r : Int) : Option Int :=
  match operator with
  | "+" => some (l + r)
  | "-" => some (l - r)
  | "*" => some (l * r)
  | "/" => if r = 0 then none else some (l.tdiv r)
  | _ => none

def Compares (comparison : String) (l r : Int) : Prop :=
  match comparison with
  | "==" => l = r
  | "<>" => l ≠ r
  | "<" => l < r
  | ">" => l > r
  | _ => False

namespace Node

def postorder : Node → List Node
  | ⟨kind, text, line, children⟩ =>
    (match kind, children with
    | .arithmetic, [left, right] => left.postorder ++ right.postorder
    | _, _ => []) ++ [⟨kind, text, line, children⟩]

def divisor? (node : Node) : Option Node :=
  if node.kind = .arithmetic ∧ node.text = "/" then node.children[1]? else none

end Node

namespace State

def integer? (state : State) (name : String) : Option Int :=
  match (state.lookup? name).bind Binding.value with
  | some (.int n) => some n.toInt
  | _ => none

/-- The value of an expression over the unbounded integers, if no divisor is zero. -/
def exactValue? (state : State) : Node → Option Int
  | ⟨kind, text, line, children⟩ =>
    match kind with
    | .intLiteral => some (Lexeme.value text.toList)
    | .identifier =>
      match state.slotOf ⟨.identifier, text, line, children⟩ with
      | .ok slot => state.integer? slot.name
      | .error _ => none
    | .arithmetic =>
      match children with
      | [left, right] => do
        exactResult? text (← state.exactValue? left) (← state.exactValue? right)
      | _ => none
    | _ => none

/-- The error for which a part of an expression is blamed itself. -/
def fault? (state : State) (part : Node) : Option RuntimeError :=
  if part.divisor?.bind state.exactValue? = some 0 then
    some ⟨.arithmetic .divideByZero, part.line⟩
  else if (state.exactValue? part).any fun n => ¬Integer.Fits n then
    some ⟨.arithmetic .overflow, part.line⟩
  else
    none

/-- The expressions of integers: literals, variables and cells that have integer values, and
arithmetic. -/
inductive IsIntegral (state : State) : Node → Prop
  | literal {text : String} {line : Nat} {children : List Node} :
    IsIntegral state ⟨.intLiteral, text, line, children⟩
  | stored {node : Node} {header found : Binding} {index : Option Nat} :
    node.kind = .identifier → state.store.Denotes state.level node header index →
    header.kind = .int → state.lookup? (key node.text index) = some found → found.value.isSome →
    IsIntegral state node
  | arithmetic {text : String} {line : Nat} {left right : Node} :
    IsIntegral state left → IsIntegral state right →
    IsIntegral state ⟨.arithmetic, text, line, [left, right]⟩

end State

/-! ## Operations -/

namespace Integer

theorem fits_toInt (n : Int64) : Fits n.toInt :=
  ⟨n.le_toInt, Int.le_sub_one_of_lt n.toInt_lt⟩

theorem exists_ofInt? {n : Int} (h : Fits n) : ∃ m, ofInt? n = some m :=
  ⟨_, if_pos h⟩

theorem ofInt?_eq_none {n : Int} (h : ¬Fits n) : ofInt? n = none :=
  if_neg h

end Integer

theorem exactResult?_spelling (op : Operator) (l r : Int) : exactResult? op.spelling l r =
    if op = .divide ∧ r = 0 then none else some (op.onInt l r) := by
  cases op <;> by_cases h : r = 0 <;> simp [exactResult?, Operator.spelling, Operator.onInt, h]

/-- The result of an operation on 64-bit integers is the exact one, or there is a reason why there
is none. -/
theorem Operator.onIntegers_eq (op : Operator) (l r : Int64) :
    (op = .divide ∧ r = 0 ∧ op.onIntegers l r = .error .divideByZero) ∨
    (∃ n, op.onIntegers l r = .ok n ∧
      exactResult? op.spelling l.toInt r.toInt = some n.toInt) ∨
    ∃ n, op.onIntegers l r = .error .overflow ∧
      exactResult? op.spelling l.toInt r.toInt = some n ∧ ¬Integer.Fits n := by
  by_cases hzero : op = .divide ∧ r = 0
  · exact .inl ⟨hzero.1, hzero.2, if_pos hzero⟩
  · have hexact : exactResult? op.spelling l.toInt r.toInt = some (op.onInt l.toInt r.toInt) := by
      rw [exactResult?_spelling, if_neg]
      simpa [← Int64.toInt_inj] using hzero
    by_cases hfits : Integer.Fits (op.onInt l.toInt r.toInt)
    · obtain ⟨n, hn⟩ := Integer.exists_ofInt? hfits
      refine .inr (.inl ⟨n, ?_, ?_⟩)
      · simp [onIntegers, hzero, hn]
      · rw [hexact, Integer.ofInt?_eq_some_iff.1 hn]
    · refine .inr (.inr ⟨_, ?_, hexact, hfits⟩)
      simp [onIntegers, hzero, Integer.ofInt?_eq_none hfits]

/-! ## Parts -/

namespace State

variable {state : State} {text : String} {line : Nat} {left right : Node}

theorem exactValue?_arithmetic : state.exactValue? ⟨.arithmetic, text, line, [left, right]⟩ =
    (state.exactValue? left).bind fun l => (state.exactValue? right).bind fun r =>
      exactResult? text l r := by
  rw [exactValue?]
  rfl

theorem postorder_arithmetic : Node.postorder ⟨.arithmetic, text, line, [left, right]⟩ =
    left.postorder ++ right.postorder ++ [⟨.arithmetic, text, line, [left, right]⟩] := by
  rw [Node.postorder]

/-- A division by zero has no value. -/
theorem exactValue?_eq_none {part : Node} (h : part.divisor?.bind state.exactValue? = some 0) :
    state.exactValue? part = none := by
  obtain ⟨kind, text, line, children⟩ := part
  by_cases hdivision : kind = .arithmetic ∧ text = "/"
  · obtain ⟨rfl, rfl⟩ := hdivision
    rcases children with _ | ⟨left, _ | ⟨right, _ | ⟨other, rest⟩⟩⟩
    · simp [exactValue?]
    · simp [exactValue?]
    · have hright : state.exactValue? right = some 0 := by simpa [Node.divisor?] using h
      rw [exactValue?_arithmetic, hright]
      cases state.exactValue? left <;> simp [exactResult?]
    · simp [exactValue?]
  · simp [Node.divisor?, hdivision] at h

theorem fault?_eq_none {part : Node} {n : Int} (h : state.exactValue? part = some n)
    (hn : Integer.Fits n) : state.fault? part = none := by
  have hdivisor : part.divisor?.bind state.exactValue? ≠ some 0 := by
    intro hzero
    rw [exactValue?_eq_none hzero] at h
    cases h
  simp [fault?, hdivisor, h, hn]

/-- What the evaluation of an expression comes to: the exact value, if the parts have values that
fit, or the error of the first part that is to be blamed. -/
inductive Settles (state : State) (node : Node) : Prop
  | value {n : Int64} : state.evaluate node = .ok (.int n) →
    state.exactValue? node = some n.toInt →
    (∀ part ∈ node.postorder, ∃ m, state.exactValue? part = some m ∧ Integer.Fits m) →
    Settles state node
  | failure {error : RuntimeError} : state.evaluate node = .error error →
    node.postorder.findSome? state.fault? = some error → Settles state node

theorem findSome?_fault?_eq_none {parts : List Node}
    (h : ∀ part ∈ parts, ∃ m, state.exactValue? part = some m ∧ Integer.Fits m) :
    parts.findSome? state.fault? = none := by
  rw [List.findSome?_eq_none_iff]
  intro part hp
  obtain ⟨m, hm, hfits⟩ := h part hp
  exact fault?_eq_none hm hfits

/-- An expression without parts but itself. -/
theorem Settles.atom {node : Node} {n : Int64} (hk : node.kind ≠ .arithmetic)
    (he : state.evaluate node = .ok (.int n)) (hx : state.exactValue? node = some n.toInt) :
    state.Settles node := by
  have hparts : node.postorder = [node] := by
    obtain ⟨kind, text, line, children⟩ := node
    rw [Node.postorder, List.nil_append]
    rintro left right rfl
    exact absurd rfl hk
  refine .value he hx ?_
  rw [hparts, List.forall_mem_singleton]
  exact ⟨_, hx, Integer.fits_toInt n⟩

theorem Settles.arithmetic (hl : state.Settles left) (hr : state.Settles right)
    (op : Operator) (line : Nat) :
    state.Settles ⟨.arithmetic, op.spelling, line, [left, right]⟩ := by
  have heval : state.evaluate ⟨.arithmetic, op.spelling, line, [left, right]⟩ =
      state.evaluate left >>= fun l => state.evaluate right >>= fun r =>
        Value.arithmetic op line left.line right.line l r :=
    Store.evaluate_arithmetic op line left right
  cases hl with
  | failure hl hfault =>
    refine .failure (by rw [heval, hl]; rfl) ?_
    rw [postorder_arithmetic, List.append_assoc, List.findSome?_append, hfault, Option.some_or]
  | @value l hl hxl hpl =>
    have hleft := findSome?_fault?_eq_none hpl
    cases hr with
    | failure hr hfault =>
      refine .failure (by rw [heval, hl, hr]; rfl) ?_
      rw [postorder_arithmetic, List.findSome?_append, List.findSome?_append, hleft, hfault]
      rfl
    | @value r hr hxr hpr =>
      have hright := findSome?_fault?_eq_none hpr
      have hresult : state.evaluate ⟨.arithmetic, op.spelling, line, [left, right]⟩ =
          Value.settle line .int (op.onIntegers l r) := by
        rw [heval, hl, hr]
        rfl
      have hexact : state.exactValue? ⟨.arithmetic, op.spelling, line, [left, right]⟩ =
          exactResult? op.spelling l.toInt r.toInt := by
        rw [exactValue?_arithmetic, hxl, hxr]
        rfl
      have hfirst : (Node.postorder ⟨.arithmetic, op.spelling, line, [left, right]⟩).findSome?
          state.fault? = state.fault? ⟨.arithmetic, op.spelling, line, [left, right]⟩ := by
        rw [postorder_arithmetic, List.findSome?_append, List.findSome?_append, hleft, hright,
          List.findSome?_singleton]
        rfl
      obtain ⟨rfl, rfl, hdivide⟩ | ⟨n, hok, hn⟩ | ⟨n, hover, hn, hfits⟩ := op.onIntegers_eq l r
      · refine .failure (by rw [hresult, hdivide]; rfl) ?_
        rw [hfirst, fault?, if_pos]
        simp [Node.divisor?, Operator.spelling, hxr]
      · refine .value (by rw [hresult, hok]; rfl) (hexact.trans hn) ?_
        rw [postorder_arithmetic]
        simp only [List.forall_mem_append, List.forall_mem_singleton]
        exact ⟨⟨hpl, hpr⟩, _, hexact.trans hn, Integer.fits_toInt n⟩
      · have hvalue := hexact.trans hn
        have hdivisor : (Node.divisor? ⟨.arithmetic, op.spelling, line, [left, right]⟩).bind
            state.exactValue? ≠ some 0 := by
          intro hzero
          rw [exactValue?_eq_none hzero] at hvalue
          cases hvalue
        refine .failure (by rw [hresult, hover]; rfl) ?_
        rw [hfirst, fault?, if_neg hdivisor, hvalue]
        simp [hfits]

theorem settles_literal (children : List Node) (h : Lexeme.Spells .intLiteral text) :
    state.Settles ⟨.intLiteral, text, line, children⟩ := by
  obtain ⟨hinteger, hrange⟩ := h
  obtain ⟨n, hn⟩ := Integer.exists_ofInt? hrange
  have hvalue := Integer.ofInt?_eq_some_iff.1 hn
  have hread : Numeral.integer? text.toList = some n := by
    rw [Lexeme.integer?_eq hinteger, hn]
  apply Settles.atom (n := n)
  · simp
  · simp only [evaluate, Store.evaluate, hread]
  · rw [exactValue?, hvalue]

end State

/-! ## Variables and cells -/

theorem Value.eq_int_of_kind {value : Value} (h : value.kind = .int) : ∃ n, value = .int n := by
  cases value with
  | int n => exact ⟨n, rfl⟩
  | real | bool | text => cases h

namespace State

variable {state : State}

theorem settles_stored {node : Node} {header found : Binding} {index : Option Nat}
    (hs : state.store.Scoped state.level) (ht : state.store.Typed) (hk : node.kind = .identifier)
    (hd : state.store.Denotes state.level node header index) (hint : header.kind = .int)
    (hf : state.lookup? (key node.text index) = some found) (hv : found.value.isSome) :
    state.Settles node := by
  obtain ⟨value, hvalue⟩ := Option.isSome_iff_exists.1 hv
  obtain ⟨other, hother, hpart⟩ := hs.visible?_slot hd
  obtain rfl : other = found := Option.some.inj (hother.symm.trans hf)
  have hkind : value.kind = .int := by
    have hm : other ∈ state.store := (hs.ordered.visible?_eq_some.1 hother).1
    rw [ht.kind_eq other hm value hvalue, Binding.kind_of_part hpart, hint]
  obtain ⟨n, rfl⟩ := Value.eq_int_of_kind hkind
  have hslot := hd.slotOf_eq
  obtain ⟨kind, text, line, children⟩ := node
  obtain rfl : kind = .identifier := hk
  have hfetch : state.store.fetch state.level line text ⟨key text index, header.kind⟩ =
      .ok (.int n) := by
    simp only [Store.fetch, hother, Option.bind_some, hvalue]
  apply Settles.atom (n := n)
  · simp
  · rw [evaluate, Store.evaluate]
    change (state.store.slotOf state.level ⟨.identifier, text, line, children⟩ >>= _) = _
    rw [hslot]
    exact hfetch
  · rw [exactValue?, slotOf, hslot]
    simp only [integer?, hf, Option.bind_some, hvalue]

end State

/-! ## Programs -/

/-- The texts of integers, operators and comparisons are those of the language. -/
structure Node.IsSpelled (n : Node) : Prop where
  literal : n.kind = .intLiteral → Lexeme.Spells .intLiteral n.text
  arithmetic : n.kind = .arithmetic → ∃ op : Operator, n.text = op.spelling
  comparison : n.kind = .comparison → n.text ∈ ["==", "<>", "<", ">"]

namespace Parse

theorem isSpelled_ofText (text : String) {n : Node} (hn : n.OccursIn (ofText text)) :
    n.IsSpelled := by
  have hspelled := Scan.spells_ofText text
  have hbuilt := built_program (Token.alike_self (Scan.ofText text).1)
  have hlabels (hk : n.kind ≠ .error) : Labels (Scan.ofText text).1 n.kind n.text :=
    hbuilt.labels (Node.occursAmong_cons.2 (.inl hn)) hk
  have htoken (hk : n.kind.fixedText? = none) (he : n.kind ≠ .error) : ∃ token : Token,
      n.kind.takes token.kind ∧ token.text = n.text ∧
        Lexeme.Spells token.kind token.text := by
    obtain ⟨token, hm, htakes, htext⟩ := (hlabels he).of_kind hk
    exact ⟨token, htakes, htext, hspelled token hm⟩
  constructor <;> intro hk <;>
    obtain ⟨token, htakes, htext, hs⟩ := htoken (by rw [hk]; rfl) (by simp [hk]) <;>
    rw [hk] at htakes <;> rw [← htext]
  · simp only [NodeKind.takes, beq_iff_eq] at htakes
    rwa [htakes] at hs
  · simp only [NodeKind.takes, Bool.or_eq_true, beq_iff_eq] at htakes
    rcases htakes with ((hop | hop) | hop) | hop
    · exact ⟨.add, Grammar.text_eq hs (by rw [hop]; rfl)⟩
    · exact ⟨.subtract, Grammar.text_eq hs (by rw [hop]; rfl)⟩
    · exact ⟨.multiply, Grammar.text_eq hs (by rw [hop]; rfl)⟩
    · exact ⟨.divide, Grammar.text_eq hs (by rw [hop]; rfl)⟩
  · obtain ⟨spelling, hm, hspelling⟩ := Grammar.comparison_spelling htakes
    rwa [Grammar.text_eq hs hspelling]

end Parse

namespace State

variable {state : State} {node : Node}

/-- By induction on the expression. Its parts are spelled as in the language, since it stands in
a program. -/
theorem IsIntegral.settles (h : state.IsIntegral node) (hs : state.store.Scoped state.level)
    (ht : state.store.Typed) (hspelled : ∀ part : Node, part.OccursIn node → part.IsSpelled) :
    state.Settles node := by
  induction h with
  | literal => exact settles_literal _ ((hspelled _ .here).literal rfl)
  | stored hk hd hint hf hv => exact settles_stored hs ht hk hd hint hf hv
  | @arithmetic text line left right _ _ ihl ihr =>
    obtain ⟨op, hop⟩ := (hspelled _ .here).arithmetic rfl
    obtain rfl : text = op.spelling := hop
    have hl := ihl fun part hp => hspelled part (.inside (by simp) hp)
    have hr := ihr fun part hp => hspelled part (.inside (by simp) hp)
    exact hl.arithmetic hr op line

end State

/-- Decimals of integers compare as the integers do. -/
theorem Value.compare?_ofInt64 {comparison : String} (h : comparison ∈ ["==", "<>", "<", ">"])
    (l r : Int64) : ∃ holds,
      compare? comparison (Decimal.ofInt64 l) (Decimal.ofInt64 r) = some holds ∧
        (holds = true ↔ Compares comparison l.toInt r.toInt) := by
  have heqv : (Decimal.ofInt64 l).eqv (Decimal.ofInt64 r) = true ↔ l.toInt = r.toInt := by
    rw [Decimal.eqv_iff, Decimal.value_ofInt64, Decimal.value_ofInt64, Int.cast_inj]
  have hlt (m n : Int64) :
      (Decimal.ofInt64 m).lt (Decimal.ofInt64 n) = true ↔ m.toInt < n.toInt := by
    rw [Decimal.lt_iff, Decimal.value_ofInt64, Decimal.value_ofInt64, Int.cast_lt]
  simp only [List.mem_cons, List.not_mem_nil, or_false] at h
  rcases h with rfl | rfl | rfl | rfl
  · exact ⟨_, rfl, heqv⟩
  · exact ⟨_, rfl, by simp [Compares, ← heqv]⟩
  · exact ⟨_, rfl, hlt l r⟩
  · exact ⟨_, rfl, hlt r l⟩

theorem State.evaluate_comparison {state : State} {comparison : String} {left right : Node}
    {l r : Int64} {holds : Bool} (hl : state.evaluate left = .ok (.int l))
    (hr : state.evaluate right = .ok (.int r))
    (hc : Value.compare? comparison (Decimal.ofInt64 l) (Decimal.ofInt64 r) = some holds)
    (line : Nat) :
    state.evaluate ⟨.comparison, comparison, line, [left, right]⟩ = .ok (.bool holds) := by
  unfold evaluate at hl hr ⊢
  rw [Store.evaluate, hl, hr]
  simp [bind, Except.bind, Value.decimal, hc]

/-- In the states of a run, an expression of integers has its exact value if the values of all its
parts fit, which implies that no divisor is zero, and otherwise the first part behind its operands
that has no such value is blamed. A comparison of two such expressions that have values is that
of the exact values. -/
theorem integers_are_exact (text : String) (begun : State) {state : State}
    (h : (Machine.ofProgram begun (Parse.ofText text)).Passes state) :
    (∀ node : Node, node.OccursIn (Parse.ofText text) → state.IsIntegral node →
      ((∃ n, state.evaluate node = .ok (.int n)) ↔
        ∀ part ∈ node.postorder, ∃ m,
          state.exactValue? part = some m ∧ -2 ^ 63 ≤ m ∧ m ≤ 2 ^ 63 - 1) ∧
      (∀ n, state.evaluate node = .ok (.int n) → state.exactValue? node = some n.toInt) ∧
      ((¬∃ n, state.evaluate node = .ok (.int n)) → ∃ error,
        node.postorder.findSome? state.fault? = some error ∧
          state.evaluate node = .error error)) ∧
    ∀ (comparison : String) (line : Nat) (left right : Node),
      (⟨.comparison, comparison, line, [left, right]⟩ : Node).OccursIn (Parse.ofText text) →
      state.IsIntegral left → state.IsIntegral right →
      ∀ l r : Int64, state.evaluate left = .ok (.int l) → state.evaluate right = .ok (.int r) →
        ∃ holds, state.evaluate ⟨.comparison, comparison, line, [left, right]⟩ =
            .ok (.bool holds) ∧
          ∃ m n, state.exactValue? left = some m ∧ state.exactValue? right = some n ∧
            (holds = true ↔ Compares comparison m n) := by
  obtain ⟨hs, ht⟩ := (Machine.sound_ofProgram begun text).of_passes Store.typed_empty h
  have hsettles (node : Node) (ho : node.OccursIn (Parse.ofText text))
      (hi : state.IsIntegral node) : state.Settles node :=
    hi.settles hs ht fun part hp => Parse.isSpelled_ofText text (hp.trans ho)
  refine ⟨fun node ho hi => ?_, fun comparison line left right ho hil hir l r hl hr => ?_⟩
  · cases hsettles node ho hi with
    | value he hx hparts =>
      refine ⟨iff_of_true ⟨_, he⟩ hparts, fun n hn => ?_, fun hnone => absurd ⟨_, he⟩ hnone⟩
      cases he.symm.trans hn
      exact hx
    | @failure error he hfault =>
      refine ⟨iff_of_false ?_ ?_, fun n hn => ?_, fun _ => ⟨error, hfault, he⟩⟩
      · rintro ⟨n, hn⟩
        cases he.symm.trans hn
      · intro hparts
        rw [State.findSome?_fault?_eq_none hparts] at hfault
        cases hfault
      · cases he.symm.trans hn
  · have hexact {node : Node} {n : Int64} (ho : node.OccursIn (Parse.ofText text))
        (hi : state.IsIntegral node) (hn : state.evaluate node = .ok (.int n)) :
        state.exactValue? node = some n.toInt := by
      cases hsettles node ho hi with
      | value he hx =>
        cases he.symm.trans hn
        exact hx
      | failure he => cases he.symm.trans hn
    have hleft : left.OccursIn (Parse.ofText text) :=
      Node.OccursIn.trans (.inside (by simp) .here) ho
    have hright : right.OccursIn (Parse.ofText text) :=
      Node.OccursIn.trans (.inside (by simp) .here) ho
    have hcomparison := (Parse.isSpelled_ofText text ho).comparison rfl
    obtain ⟨holds, hcompare, hiff⟩ := Value.compare?_ofInt64 hcomparison l r
    refine ⟨holds, ?_, _, _, hexact hleft hil hl, hexact hright hir hr, hiff⟩
    exact State.evaluate_comparison hl hr hcompare line

/-- A quotient that is cut toward zero and compared, and the divisor of a later one that is zero. -/
theorem quotients_of_negative :
    let text := "int n = -7; if (n / 2 < -2) write(n / 2 + 9 / (n + 7));"
    let machine := Machine.ofProgram (.start (.ofFeed [])) (Parse.ofText text)
    let state := (machine.run 3).state
    let name : Node := .leaf .identifier "n" 1
    let literal (digits : String) : Node := .leaf .intLiteral digits 1
    let apply (op : String) (left right : Node) : Node := ⟨.arithmetic, op, 1, [left, right]⟩
    let half := apply "/" name (literal "2")
    let sum := apply "+" half (apply "/" (literal "9") (apply "+" name (literal "7")))
    machine.Passes state ∧ state.IsIntegral half ∧ state.IsIntegral sum ∧
      state.exactValue? half = some (-3) ∧
      state.evaluate ⟨.comparison, "<", 1, [half, literal "-2"]⟩ = .ok (.bool true) ∧
      state.evaluate sum = .error ⟨.arithmetic .divideByZero, 1⟩ := by
  intro text machine state name literal apply half sum
  have hp : machine.Passes state := .between 3
  have hlookup : state.lookup? "n" = some ⟨"n", .int, 1, 0, some (.int (-7)), none⟩ := by
    decide +kernel
  have hname : state.IsIntegral name :=
    .stored rfl (.variable rfl hlookup rfl) rfl hlookup rfl
  have hhalf : state.IsIntegral half := .arithmetic hname .literal
  have hsum : state.IsIntegral sum :=
    .arithmetic hhalf (.arithmetic .literal (.arithmetic hname .literal))
  obtain ⟨hexpressions, hcomparisons⟩ := integers_are_exact _ _ hp
  have hexact : state.exactValue? half = some (-3) := by decide +kernel
  have hcompared : state.evaluate ⟨.comparison, "<", 1, [half, literal "-2"]⟩ =
      .ok (.bool true) := by
    obtain ⟨holds, he, m, n, hm, hn, hiff⟩ := hcomparisons "<" 1 half (literal "-2")
      (by decide +kernel) hhalf .literal (-3) (-2) (by decide +kernel) (by decide +kernel)
    have hliteral : state.exactValue? (literal "-2") = some (-2) := by decide +kernel
    cases hexact.symm.trans hm
    cases hliteral.symm.trans hn
    rw [he, hiff.2 (show (-3 : Int) < -2 by decide)]
  obtain ⟨hiff, -, hotherwise⟩ := hexpressions sum (by decide +kernel) hsum
  have hundefined : state.exactValue? sum = none := by decide +kernel
  have hnone : ¬∃ n, state.evaluate sum = .ok (.int n) := by
    intro hok
    obtain ⟨m, hm, -⟩ := hiff.1 hok sum (by decide +kernel)
    cases hundefined.symm.trans hm
  obtain ⟨error, hfault, herror⟩ := hotherwise hnone
  have hfirst : sum.postorder.findSome? state.fault? =
      some ⟨.arithmetic .divideByZero, 1⟩ := by decide +kernel
  cases hfirst.symm.trans hfault
  exact ⟨hp, hhalf, hsum, hexact, hcompared, herror⟩

end BlockLang
