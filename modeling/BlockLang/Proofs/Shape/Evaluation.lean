import BlockLang.Proofs.Failure
import BlockLang.Proofs.Shape

/-! # Evaluation of shaped expressions

An expression of the right shape is never blamed for its tree, and its literals always
have values: the scanner lets no literal through that could not be read.
-/
namespace BlockLang
open Lexeme

/-! ## Literals -/

theorem integer?_isSome_of_spells {text : String} (h : Spells .intLiteral text) :
    (Numeral.integer? text.toList).isSome :=
  (integer?_isSome_iff h.1).2 h.2

theorem toLower_of_isDigit {c : Char} (h : c.isDigit) : c.toLower = c := by
  simp only [Char.isDigit, Bool.and_eq_true, decide_eq_true_eq] at h
  unfold Char.toLower
  split
  · rename_i hu
    exact absurd (UInt32.le_trans hu.1 h.2) (by decide)
  · rfl

theorem splitSign_append {sign digits : List Char} {first : Char} (hs : IsSign sign)
    (hf : first.isDigit) : (Numeral.splitSign (sign ++ first :: digits)).2 = first :: digits := by
  rcases hs with rfl | rfl
  · unfold Numeral.splitSign
    split
    · rename_i heq
      cases heq
      simp at hf
    · rename_i heq
      cases heq
      simp at hf
    · rfl
  · rfl

/-- Digits with a point among them are read as a number. -/
theorem ofUnsigned?_isSome {negative : Bool} {whole fraction : List Char} (hne : whole ≠ [])
    (hw : ∀ c ∈ whole, c.isDigit) (hf : ∀ c ∈ fraction, c.isDigit) :
    (Binary64.ofUnsigned? negative (whole ++ '.' :: fraction)).isSome := by
  have htake : (fraction ++ []).takeWhile Char.isDigit = fraction :=
    takeWhile_append_stop hf (by simp)
  have hdrop : (fraction ++ []).dropWhile Char.isDigit = [] :=
    dropWhile_append_stop hf (by simp)
  rw [List.append_nil] at htake hdrop
  simp only [Binary64.ofUnsigned?]
  rw [takeWhile_append_stop hw (by simp), dropWhile_append_stop hw (by simp)]
  simp [htake, hdrop, hne, Binary64.exponent?]

theorem ofText?_isSome_of_spells {text : String} (h : Spells .realLiteral text) :
    (Binary64.ofText? text.toList).isSome := by
  obtain ⟨sign, whole, fraction, ht, hs, hw, -, hf⟩ := h
  obtain ⟨first, rest, rfl, hd⟩ := hw.exists_eq_cons
  have hsplit : (Numeral.splitSign text.toList).2 = first :: rest ++ '.' :: fraction := by
    rw [ht, List.append_assoc]
    exact splitSign_append hs hd
  have hword (word : String) (hi : ¬(word.toList.head?.any Char.isDigit)) :
      String.ofList ((first :: rest ++ '.' :: fraction).map Char.toLower) ≠ word := by
    rintro rfl
    simp [toLower_of_isDigit hd, hd] at hi
  simp only [Binary64.ofText?, hsplit]
  rw [if_neg, if_neg]
  · exact ofUnsigned?_isSome (by simp) hw.isDigit hf
  · exact hword _ (by decide)
  · rintro (h | h)
    · exact hword _ (by decide) h
    · exact hword _ (by decide) h

/-! ## Errors -/

/-- Neither the shape of a tree nor a literal is to blame for an error. -/
def RuntimeError.IsRegular (error : RuntimeError) : Prop :=
  error.cause.kind ≠ .malformedTree ∧ ∀ text, error.cause ≠ .literalRange text

def Regular {α : Type} (result : Except RuntimeError α) : Prop :=
  ∀ error, result = .error error → error.IsRegular

section
variable {α β : Type}

theorem regular_ok (a : α) : Regular (.ok a) :=
  nofun

theorem regular_error {error : RuntimeError} (h : error.IsRegular) :
    Regular (.error error : Except RuntimeError α) := by
  rintro _ ⟨⟩
  exact h

theorem Regular.bind {result : Except RuntimeError α} {f : α → Except RuntimeError β}
    (h : Regular result) (hf : ∀ a, result = .ok a → Regular (f a)) : Regular (result >>= f) := by
  cases hr : result with
  | error error => exact regular_error (h error hr)
  | ok a => exact hf a hr

/-- An ordinary cause blames neither a tree nor a literal. -/
theorem Fails.regular {result : Except RuntimeError α}
    (h : Fails RuntimeError.Cause.IsOrdinary result) : Regular result := by
  intro error he
  have ho := h error he
  constructor
  · intro hk
    cases hc : error.cause with
    | arithmetic e =>
      rw [hc] at hk
      cases e <;> cases hk
    | unexpected | skipped => exact (hc ▸ ho).elim
    | _ =>
      rw [hc] at hk
      cases hk
  · rintro text hc
    exact (hc ▸ ho).elim

end

namespace Store
open Node

variable {store : Store} {level : Nat} {n : Node}

theorem regular_fetch (line : Nat) (name : String) (slot : Slot) :
    Regular (store.fetch level line name slot) := by
  unfold fetch
  split
  · exact regular_ok _
  · exact regular_error ⟨nofun, nofun⟩

theorem isError_of_isExpression (h : n.IsExpression) : n.isError = false := by
  cases h <;> rfl

theorem isError_of_isCondition (h : n.IsCondition) : n.isError = false := by
  cases h with
  | plain he => exact isError_of_isExpression he
  | comparison => rfl

theorem evaluateFirst_cons (h : n.isError = false) (nodes : List Node) :
    store.evaluateFirst level (n :: nodes) = some (store.evaluate level n) := by
  rw [evaluateFirst, h]
  rfl

/-- The only child of a node is evaluated with it. -/
theorem evaluateWithin_eq {kind : NodeKind} {text : String} {line : Nat} {inner : Node}
    (h : inner.isError = false) :
    store.evaluateWithin level ⟨kind, text, line, [inner]⟩ = store.evaluate level inner := by
  rw [evaluateWithin, evaluateFirst_cons h]
  rfl

theorem regular_slotIn_nil (name : String) (line : Nat) :
    Regular (store.slotIn level name line []) := by
  rw [slotIn]
  split
  · exact regular_error ⟨nofun, nofun⟩
  · split
    · exact regular_ok _
    · exact regular_error ⟨nofun, nofun⟩

theorem regular_slotIn_cons {index : Node} (hi : index.isError = false)
    (h : Regular (store.evaluate level index)) (name text : String) (line subscriptLine : Nat) :
    Regular (store.slotIn level name line [⟨.subscript, text, subscriptLine, [index]⟩]) := by
  rw [slotIn, evaluateFirst_cons hi]
  split
  · exact regular_error ⟨nofun, nofun⟩
  · rw [if_pos rfl]
    split
    · exact regular_error ⟨nofun, nofun⟩
    · exact h.bind fun _ _ => (Value.fails_checkIndex _ _ _ _).regular.bind fun _ _ => regular_ok _

theorem evaluate_arithmetic (op : Operator) (line : Nat) (left right : Node) :
    store.evaluate level ⟨.arithmetic, op.spelling, line, [left, right]⟩ =
      store.evaluate level left >>= fun l => store.evaluate level right >>= fun r =>
        Value.arithmetic op line left.line right.line l r := by
  rw [evaluate.eq_def]
  simp only [Operator.ofSpelling?_spelling]

theorem regular_evaluate (h : n.IsExpression) : Regular (store.evaluate level n) := by
  induction h with
  | int ht =>
    obtain ⟨value, hv⟩ := Option.isSome_iff_exists.1 (integer?_isSome_of_spells ht)
    simp only [leaf, evaluate, hv]
    exact regular_ok _
  | real ht =>
    obtain ⟨value, hv⟩ := Option.isSome_iff_exists.1 (ofText?_isSome_of_spells ht)
    simp only [leaf, evaluate, hv]
    exact regular_ok _
  | bool =>
    rw [leaf, evaluate]
    exact regular_ok _
  | string =>
    rw [leaf, evaluate]
    exact regular_ok _
  | scalar =>
    rw [leaf, evaluate]
    exact (regular_slotIn_nil _ _).bind fun _ _ => regular_fetch _ _ _
  | cell _ hi ih =>
    rw [evaluate]
    exact (regular_slotIn_cons (isError_of_isExpression hi) ih _ _ _ _).bind fun _ _ =>
      regular_fetch _ _ _
  | arithmetic _ _ ihl ihr =>
    rw [evaluate_arithmetic]
    exact ihl.bind fun _ _ => ihr.bind fun _ _ => (Value.fails_arithmetic _ _ _ _ _ _).regular

theorem compare?_isSome {text : String} (h : text ∈ ["==", "<>", "<", ">"]) (l r : Decimal) :
    ∃ holds, Value.compare? text l r = some holds := by
  simp only [List.mem_cons, List.not_mem_nil, or_false] at h
  rcases h with rfl | rfl | rfl | rfl <;> exact ⟨_, rfl⟩

theorem regular_evaluate_condition (h : n.IsCondition) : Regular (store.evaluate level n) := by
  cases h with
  | plain he => exact regular_evaluate he
  | comparison ht hl hr =>
    rw [evaluate]
    refine (regular_evaluate hl).bind fun _ _ => ?_
    refine (Value.fails_decimal _ _).regular.bind fun l _ => ?_
    refine (regular_evaluate hr).bind fun _ _ => ?_
    refine (Value.fails_decimal _ _).regular.bind fun r _ => ?_
    obtain ⟨holds, hc⟩ := compare?_isSome ht l r
    rw [hc]
    exact regular_ok _

theorem regular_slotOf (h : n.IsTarget) : Regular (store.slotOf level n) := by
  obtain ⟨h⟩ := h
  cases h with
  | scalar => exact regular_slotIn_nil _ _
  | cell _ hi =>
    exact regular_slotIn_cons (isError_of_isExpression hi) (regular_evaluate hi) _ _ _ _

end Store

end BlockLang
