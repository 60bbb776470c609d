import BlockLang.Token.Scan

/-! # Lexemes

The texts that a token of each kind may have. A delimiter, an operator or a keyword
has its one spelling; identifiers, numbers and the contents of strings follow a pattern.
-/
namespace BlockLang

def Token.lexeme (token : Token) : TokenKind × String :=
  (token.kind, token.text)

namespace Lexeme
open Scan

/-- `0|[1-9][0-9]*` -/
def IsNatural (text : List Char) : Prop :=
  text = ['0'] ∨
    ∃ first rest, text = first :: rest ∧ first.isDigit ∧ first ≠ '0' ∧ ∀ c ∈ rest, c.isDigit

/-- `-?` -/
def IsSign (text : List Char) : Prop :=
  text = [] ∨ text = ['-']

/-- `-?(0|[1-9][0-9]*)` -/
def IsInteger (text : List Char) : Prop :=
  ∃ sign digits, text = sign ++ digits ∧ IsSign sign ∧ IsNatural digits

/-- `-?(0|[1-9][0-9]*)\.[0-9]+` -/
def IsReal (text : List Char) : Prop :=
  ∃ sign whole fraction, text = sign ++ whole ++ '.' :: fraction ∧ IsSign sign ∧
    IsNatural whole ∧ fraction ≠ [] ∧ ∀ c ∈ fraction, c.isDigit

/-- `[A-Za-z]([A-Za-z0-9_]*[A-Za-z0-9])?` -/
def IsIdentifier (text : List Char) : Prop :=
  (∃ c, text = [c] ∧ c.isAlpha) ∨
    ∃ first middle last, text = first :: middle ++ [last] ∧ first.isAlpha ∧
      (∀ c ∈ middle, c.isAlphanum ∨ c = '_') ∧ last.isAlphanum

def value : List Char → Int
  | '-' :: digits => -Numeral.natural digits
  | digits => Numeral.natural digits

/-- The texts that tokens of a kind have. -/
def Spells : TokenKind → String → Prop
  | .identifier, text => IsIdentifier text.toList ∧
      ∀ kind ∈ TokenKind.keywords, kind.spelling? ≠ some text
  | .intLiteral, text =>
    IsInteger text.toList ∧ Int64.minValue.toInt ≤ value text.toList ∧
      value text.toList ≤ Int64.maxValue.toInt
  | .realLiteral, text => IsReal text.toList
  | .stringLiteral, text => '"' ∉ text.toList ∧ '\n' ∉ text.toList
  | kind, text => kind.spelling? = some text

theorem Spells.of_spelling? {kind : TokenKind} {text : String}
    (h : kind.spelling? = some text) : Spells kind text := by
  cases kind <;> first | exact h | cases h

/-- A `-` subtracts behind a value, and is the sign of a number elsewhere. -/
def Fits (afterValue : Bool) (kind : TokenKind) (text : String) : Prop :=
  (kind = .minus → afterValue = true) ∧
    (kind = .intLiteral ∨ kind = .realLiteral → text.toList.head? = some '-' → afterValue = false)

/-- Lists of lexemes behind a token of kind `last`. Quotes and the contents of strings occur in
threes. -/
inductive Valid : Option TokenKind → List (TokenKind × String) → Prop
  | nil {last : Option TokenKind} : Valid last []
  | single {last : Option TokenKind} {kind : TokenKind} {text : String}
    {rest : List (TokenKind × String)} :
    kind ≠ .quote → kind ≠ .stringLiteral → Spells kind text →
    Fits (last.any TokenKind.endsOperand) kind text → Valid (some kind) rest →
    Valid last ((kind, text) :: rest)
  | quotation {last : Option TokenKind} {content : String} {rest : List (TokenKind × String)} :
    Spells .stringLiteral content → Valid (some .quote) rest →
    Valid last ((.quote, "\"") :: (.stringLiteral, content) :: (.quote, "\"") :: rest)

/-! ## Numbers -/

theorem isNatural_iff {text : List Char} : Numeral.isNatural text ↔ IsNatural text := by
  unfold Numeral.isNatural
  split
  · simp [IsNatural]
  · simp [IsNatural]
  · rename_i c cs hzero
    simp only [Bool.and_eq_true, bne_iff_ne, ne_eq, List.all_cons, List.all_eq_true]
    constructor
    · rintro ⟨hc, hd, hall⟩
      exact .inr ⟨c, cs, rfl, hd, hc, hall⟩
    · rintro (h | ⟨_, _, h, hd, hc, hall⟩)
      · cases h
        exact absurd rfl (hzero rfl)
      · cases h
        exact ⟨hc, hd, hall⟩

theorem IsNatural.isDigit {text : List Char} (h : IsNatural text) :
    ∀ c ∈ text, c.isDigit := by
  rcases h with rfl | ⟨first, rest, rfl, hf, -, hr⟩
  · simp
  · simpa using ⟨hf, hr⟩

theorem IsNatural.exists_eq_cons {text : List Char} (h : IsNatural text) :
    ∃ first rest, text = first :: rest ∧ first.isDigit := by
  rcases h with rfl | ⟨first, rest, rfl, hf, -, -⟩
  · exact ⟨_, _, rfl, rfl⟩
  · exact ⟨_, _, rfl, hf⟩

theorem IsNatural.unsigned_append {digits tail : List Char} (h : IsNatural digits) :
    Numeral.unsigned (digits ++ tail) = digits ++ tail := by
  obtain ⟨first, rest, rfl, hf⟩ := h.exists_eq_cons
  unfold Numeral.unsigned
  split
  · rename_i heq
    cases heq
    simp at hf
  · rfl

/-- Each text is a sign and the text without it. -/
theorem exists_sign (text : List Char) :
    ∃ sign, IsSign sign ∧ text = sign ++ Numeral.unsigned text := by
  unfold Numeral.unsigned
  split
  · exact ⟨['-'], .inr rfl, rfl⟩
  · exact ⟨[], .inl rfl, rfl⟩

theorem IsSign.unsigned_append {sign digits tail : List Char} (hs : IsSign sign)
    (h : IsNatural digits) : Numeral.unsigned (sign ++ (digits ++ tail)) = digits ++ tail := by
  rcases hs with rfl | rfl
  · exact h.unsigned_append
  · rfl

theorem isIntegerText_iff {text : List Char} : Numeral.isIntegerText text ↔ IsInteger text := by
  rw [Numeral.isIntegerText, isNatural_iff]
  constructor
  · intro h
    obtain ⟨sign, hs, ht⟩ := exists_sign text
    exact ⟨sign, _, ht, hs, h⟩
  · rintro ⟨sign, digits, rfl, hs, hd⟩
    have h : Numeral.unsigned (sign ++ (digits ++ [])) = digits ++ [] := hs.unsigned_append hd
    rw [List.append_nil] at h
    rwa [h]

theorem IsNatural.not_mem_point {digits : List Char} (h : IsNatural digits) : '.' ∉ digits :=
  fun hm => absurd (h.isDigit _ hm) (by decide)

theorem takeWhile_append_stop {p : Char → Bool} {run rest : List Char} (hr : ∀ c ∈ run, p c)
    (hs : ∀ c ∈ rest.head?, p c = false) : (run ++ rest).takeWhile p = run := by
  rw [List.takeWhile_append_of_pos hr]
  cases rest with
  | nil => simp
  | cons c cs => simp [hs c rfl]

theorem dropWhile_append_stop {p : Char → Bool} {run rest : List Char} (hr : ∀ c ∈ run, p c)
    (hs : ∀ c ∈ rest.head?, p c = false) : (run ++ rest).dropWhile p = rest := by
  rw [List.dropWhile_append_of_pos hr]
  cases rest with
  | nil => simp
  | cons c cs => simp [hs c rfl]

theorem isRealText_iff {text : List Char} : Numeral.isRealText text ↔ IsReal text := by
  constructor
  · intro h
    obtain ⟨sign, hs, ht⟩ := exists_sign text
    simp only [Numeral.isRealText] at h
    split at h
    · rename_i point fraction hdrop
      have hpoint : point = '.' := by
        have := List.head?_dropWhile_not (fun c => c != '.') (Numeral.unsigned text)
        rw [hdrop] at this
        simpa using this
      subst hpoint
      simp only [Bool.and_eq_true, Bool.not_eq_true', List.isEmpty_eq_false_iff, ne_eq,
        List.all_eq_true] at h
      refine ⟨sign, (Numeral.unsigned text).takeWhile (· != '.'), fraction, ?_, hs,
        isNatural_iff.1 h.1.1, h.1.2, h.2⟩
      rw [List.append_assoc, ← hdrop, List.takeWhile_append_dropWhile]
      exact ht
    · cases h
  · rintro ⟨sign, whole, fraction, rfl, hs, hw, hne, hf⟩
    have hu : Numeral.unsigned (sign ++ (whole ++ '.' :: fraction)) = whole ++ '.' :: fraction :=
      hs.unsigned_append hw
    have hrun : ∀ c ∈ whole, (c != '.') = true := by
      intro c hc
      have := hw.not_mem_point
      rw [bne_iff_ne]
      rintro rfl
      exact this hc
    rw [Numeral.isRealText, List.append_assoc, hu,
      takeWhile_append_stop hrun (by simp), dropWhile_append_stop hrun (by simp)]
    simpa [isNatural_iff, hw, hne] using hf

theorem integer?_eq {text : List Char} (h : IsInteger text) :
    Numeral.integer? text = Integer.ofInt? (value text) := by
  obtain ⟨sign, digits, rfl, hs, hd⟩ := h
  obtain ⟨first, rest, rfl, hf⟩ := hd.exists_eq_cons
  have hall : (first :: rest).all Char.isDigit = true := List.all_eq_true.2 hd.isDigit
  rcases hs with rfl | rfl
  · have hsplit : Numeral.splitSign (first :: rest) = (false, first :: rest) := by
      unfold Numeral.splitSign
      split
      · rename_i heq
        cases heq
        simp at hf
      · rename_i heq
        cases heq
        simp at hf
      · rfl
    have hvalue : value (first :: rest) = Numeral.natural (first :: rest) := by
      unfold value
      split
      · rename_i heq
        cases heq
        simp at hf
      · rfl
    simp [Numeral.integer?, hsplit, hall, hvalue]
  · simp [Numeral.integer?, Numeral.splitSign, hall, value]

theorem integer?_isSome_iff {text : List Char} (h : IsInteger text) :
    (Numeral.integer? text).isSome ↔
      Int64.minValue.toInt ≤ value text ∧ value text ≤ Int64.maxValue.toInt := by
  rw [integer?_eq h, Integer.ofInt?]
  split
  · rename_i hr
    exact iff_of_true rfl hr
  · rename_i hr
    exact iff_of_false (by simp) hr

end Lexeme
end BlockLang
