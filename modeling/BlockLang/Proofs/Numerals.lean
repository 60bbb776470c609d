import BlockLang.Execution.State
import BlockLang.Proofs.Lexeme.Validity
import Mathlib.Computability.RegularExpressions
import Mathlib.Tactic.FinCases
import Mathlib.Tactic.IntervalCases

/-! # Numerals in programs and in input

Numbers are written in programs and in the input of `read`. The predicates on input texts decide
regular expressions, and the scanner, which cuts a run off a line before it looks at it, takes a
line for one number just if the predicates accept it and, for an integer, its value has 64 bits.
-/
namespace BlockLang

namespace Numeral
open RegularExpression Lexeme

/-! ## Patterns -/

def nonzeroDigits : List Char :=
  ['1', '2', '3', '4', '5', '6', '7', '8', '9']

def digits : List Char :=
  '0' :: nonzeroDigits

/-- `[...]` -/
def oneOf (cs : List Char) : RegularExpression Char :=
  (cs.map char).sum

/-- `-?` -/
def signPattern : RegularExpression Char :=
  1 + char '-'

/-- `0|[1-9][0-9]*` -/
def naturalPattern : RegularExpression Char :=
  char '0' + oneOf nonzeroDigits * star (oneOf digits)

/-- `-?(0|[1-9][0-9]*)` -/
def integerPattern : RegularExpression Char :=
  signPattern * naturalPattern

/-- `-?(0|[1-9][0-9]*)\.[0-9]+` -/
def realPattern : RegularExpression Char :=
  integerPattern * (char '.' * (oneOf digits * star (oneOf digits)))

variable {cs text : List Char} {c : Char}

theorem mem_char : text ∈ (char c).matches' ↔ text = [c] := by
  rw [matches'_char]
  exact Set.mem_singleton_iff

theorem mem_oneOf : text ∈ (oneOf cs).matches' ↔ ∃ c ∈ cs, text = [c] := by
  induction cs with
  | nil => simp [oneOf]
  | cons c cs ih =>
    unfold oneOf at ih ⊢
    rw [List.map_cons, List.sum_cons, matches'_add, Language.mem_add, ih, mem_char]
    simp

theorem mem_star_oneOf : text ∈ (star (oneOf cs)).matches' ↔ ∀ c ∈ text, c ∈ cs := by
  rw [matches'_star, Language.mem_kstar]
  constructor
  · rintro ⟨runs, rfl, hruns⟩ c hc
    obtain ⟨run, hrun, hc⟩ := List.mem_flatten.1 hc
    obtain ⟨d, hd, rfl⟩ := mem_oneOf.1 (hruns run hrun)
    rwa [List.mem_singleton.1 hc]
  · intro h
    refine ⟨text.map fun c => [c], by rw [← List.flatMap_def, List.flatMap_singleton'], ?_⟩
    intro run hrun
    obtain ⟨c, hc, rfl⟩ := List.mem_map.1 hrun
    exact mem_oneOf.2 ⟨c, h c hc, rfl⟩

theorem mem_digits : c ∈ digits ↔ c.isDigit := by
  constructor
  · intro h
    fin_cases h <;> rfl
  · intro h
    obtain ⟨hlow, hhigh⟩ := Bool.and_eq_true_iff.1 h
    have hlow : 48 ≤ c.toNat := UInt32.le_iff_toNat_le.1 (of_decide_eq_true hlow)
    have hhigh : c.toNat ≤ 57 := UInt32.le_iff_toNat_le.1 (of_decide_eq_true hhigh)
    rw [← Char.ofNat_toNat c]
    generalize c.toNat = code at hlow hhigh
    interval_cases code <;> decide

theorem mem_nonzeroDigits : c ∈ nonzeroDigits ↔ c.isDigit ∧ c ≠ '0' := by
  have hzero : '0' ∉ nonzeroDigits := by decide
  rw [← mem_digits, digits, List.mem_cons]
  constructor
  · intro h
    exact ⟨.inr h, fun he => hzero (he ▸ h)⟩
  · rintro ⟨he | h, hne⟩
    · exact absurd he hne
    · exact h

theorem mem_naturalPattern : text ∈ naturalPattern.matches' ↔ IsNatural text := by
  simp only [naturalPattern, matches'_add, matches'_mul, Language.mem_add, Language.mem_mul,
    mem_char, mem_oneOf, mem_star_oneOf, mem_digits, mem_nonzeroDigits, IsNatural]
  constructor
  · rintro (rfl | ⟨_, ⟨first, ⟨hd, hne⟩, rfl⟩, rest, hrest, rfl⟩)
    · exact .inl rfl
    · exact .inr ⟨first, rest, rfl, hd, hne, hrest⟩
  · rintro (rfl | ⟨first, rest, rfl, hd, hne, hrest⟩)
    · exact .inl rfl
    · exact .inr ⟨[first], ⟨first, ⟨hd, hne⟩, rfl⟩, rest, hrest, rfl⟩

theorem mem_signPattern : text ∈ signPattern.matches' ↔ IsSign text := by
  rw [signPattern, matches'_add, Language.mem_add, mem_char, matches'_epsilon, Language.mem_one,
    IsSign]

theorem mem_integerPattern : text ∈ integerPattern.matches' ↔ IsInteger text := by
  simp only [integerPattern, matches'_mul, Language.mem_mul, mem_signPattern, mem_naturalPattern,
    IsInteger]
  constructor
  · rintro ⟨sign, hs, digits, hd, rfl⟩
    exact ⟨sign, digits, rfl, hs, hd⟩
  · rintro ⟨sign, digits, rfl, hs, hd⟩
    exact ⟨sign, hs, digits, hd, rfl⟩

theorem mem_fraction : text ∈ (oneOf digits * star (oneOf digits)).matches' ↔
    text ≠ [] ∧ ∀ c ∈ text, c.isDigit := by
  simp only [matches'_mul, Language.mem_mul, mem_oneOf, mem_star_oneOf, mem_digits]
  constructor
  · rintro ⟨_, ⟨first, hd, rfl⟩, rest, hrest, rfl⟩
    simpa [hd] using hrest
  · rintro ⟨hne, hall⟩
    obtain ⟨first, rest, rfl⟩ := List.exists_cons_of_ne_nil hne
    rw [List.forall_mem_cons] at hall
    exact ⟨[first], ⟨first, hall.1, rfl⟩, rest, hall.2, rfl⟩

theorem mem_realPattern : text ∈ realPattern.matches' ↔ IsReal text := by
  rw [realPattern, matches'_mul, matches'_mul, Language.mem_mul]
  simp only [Language.mem_mul, mem_integerPattern, mem_fraction, mem_char]
  constructor
  · rintro ⟨_, ⟨sign, whole, rfl, hs, hw⟩, _, ⟨_, rfl, fraction, ⟨hne, hd⟩, rfl⟩, rfl⟩
    exact ⟨sign, whole, fraction, rfl, hs, hw, hne, hd⟩
  · rintro ⟨sign, whole, fraction, rfl, hs, hw, hne, hd⟩
    exact ⟨sign ++ whole, ⟨sign, whole, rfl, hs, hw⟩, '.' :: fraction,
      ⟨['.'], rfl, fraction, ⟨hne, hd⟩, rfl⟩, rfl⟩

end Numeral

/-! ## Scanning -/

namespace Scan
open Lexeme

/-- A text, scanned as one line with nothing before it, is one token and no error. -/
def Yields (line : Nat) (kind : TokenKind) (text : String) : Prop :=
  let result := ofLine line none none text.toList
  result.tokens.map Token.lexeme = [(kind, text)] ∧ result.errors = []

theorem yields_iff_spells {kind : TokenKind} (hk : kind = .intLiteral ∨ kind = .realLiteral)
    (line : Nat) (text : String) : Yields line kind text ↔ Spells kind text := by
  constructor
  · rintro ⟨htokens, -⟩
    obtain ⟨token, ht, hlexeme⟩ : ∃ token ∈ (ofLine line none none text.toList).tokens,
        token.lexeme = (kind, text) := by
      rw [← List.mem_map, htokens]
      exact List.mem_singleton_self _
    cases hlexeme
    apply spells_fromColumn token ht
    intro hstring
    rcases hk with hk | hk <;> cases hk.symm.trans hstring
  · intro hs
    have htext : String.ofList text.toList = text := String.ofList_toList
    have hfits : Fits false kind (String.ofList text.toList) :=
      ⟨by rcases hk with rfl | rfl <;> simp, fun _ _ => rfl⟩
    have hstops : Stops [] := nofun
    obtain ⟨c, cs, hcons, hcut⟩ := cut_number hk (htext.symm ▸ hs) hfits hstops
    rw [List.append_nil, hcons] at hcut
    have hline : ofLine line none none (c :: cs) =
        ⟨[⟨kind, String.ofList (c :: cs), ⟨line, 1⟩⟩], [], none⟩ := by
      rw [ofLine, fromColumn_cons]
      simp only [Option.any_none, hcut, fromColumn_nil]
      rfl
    unfold Yields
    rw [hcons, hline, ← hcons, htext]
    exact ⟨rfl, rfl⟩

end Scan

/-! ## Reading -/

section Reading

open Lexeme

variable {input : String}

theorem spells_integer_iff : Spells .intLiteral input ↔ Numeral.isIntegerText input.toList ∧
    -2 ^ 63 ≤ value input.toList ∧ value input.toList ≤ 2 ^ 63 - 1 := by
  rw [isIntegerText_iff]
  rfl

/-- An input for an integer variable is accepted if it is an integer of the language. -/
theorem exists_ofInput? (h : Spells .intLiteral input) :
    ∃ n, Numeral.integer? input.toList = some n ∧ Value.ofInput? .int input = some (.int n) := by
  obtain ⟨hinteger, hrange⟩ := h
  obtain ⟨n, hn⟩ := Option.isSome_iff_exists.1 ((integer?_isSome_iff hinteger).2 hrange)
  refine ⟨n, hn, ?_⟩
  rw [Value.ofInput?, if_pos (isIntegerText_iff.2 hinteger), hn]
  rfl

theorem ofInput?_eq_none (h : ¬Spells .intLiteral input) : Value.ofInput? .int input = none := by
  by_cases hinteger : Numeral.isIntegerText input.toList
  · have hvalue : ¬(Numeral.integer? input.toList).isSome := by
      rw [isIntegerText_iff] at hinteger
      rw [integer?_isSome_iff hinteger]
      exact fun hrange => h ⟨hinteger, hrange⟩
    rw [Value.ofInput?, if_pos hinteger, Option.not_isSome_iff_eq_none.1 hvalue]
    rfl
  · exact if_neg hinteger

namespace State

variable {state : State} {stmt target : Node} {slot : Slot}

theorem read_of_some (hc : stmt.content? = some target) (hs : state.slotOf target = .ok slot)
    {value : Value} (hv : Value.ofInput? slot.kind state.supply.next.1 = some value) :
    state.read stmt = { state with supply := state.supply.next.2 }.put slot value := by
  simp [read, hc, hs, hv]

theorem read_of_none (hc : stmt.content? = some target) (hs : state.slotOf target = .ok slot)
    (hv : Value.ofInput? slot.kind state.supply.next.1 = none) :
    state.read stmt = { state with supply := state.supply.next.2 }.report
      ⟨.invalidInput state.supply.next.1 slot.kind target.text, stmt.line⟩ := by
  simp [read, hc, hs, hv]

end State

end Reading

end BlockLang
