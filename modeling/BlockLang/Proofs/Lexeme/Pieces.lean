import BlockLang.Proofs.Lexeme
import Mathlib.Data.List.TakeWhile

/-! # Pieces and lexemes

A lexeme that the scanner cuts off is spelled as its kind demands. Conversely a
text with the spelling of a lexeme is cut off whole in front of a blank or at the
end of a line.
-/
namespace BlockLang.Scan
open Lexeme

/-! ## Words -/

theorem mem_of_keyword?_eq_some {word : String} {kind : TokenKind}
    (h : TokenKind.keyword? word = some kind) :
    kind ∈ TokenKind.keywords ∧ kind.spelling? = some word := by
  unfold TokenKind.keyword? at h
  exact ⟨List.mem_of_find?_eq_some h, by simpa using List.find?_some h⟩

theorem keyword?_eq_some {word : String} {kind : TokenKind} (hk : kind ∈ TokenKind.keywords)
    (hs : kind.spelling? = some word) : TokenKind.keyword? word = some kind := by
  simp only [TokenKind.keywords, List.mem_cons, List.not_mem_nil, or_false] at hk
  rcases hk with rfl | rfl | rfl | rfl | rfl | rfl | rfl | rfl | rfl | rfl | rfl | rfl <;>
    (cases hs; decide)

theorem keyword?_eq_none_iff {word : String} : TokenKind.keyword? word = none ↔
    ∀ kind ∈ TokenKind.keywords, kind.spelling? ≠ some word := by
  simp [TokenKind.keyword?]

theorem isWordChar_of_isAlphanum {c : Char} (h : c.isAlphanum) : isWordChar c := by
  simp [isWordChar, h]

theorem isAlphanum_of_isAlpha {c : Char} (h : c.isAlpha) : c.isAlphanum := by
  simp [Char.isAlphanum, h]

theorem isAlphanum_of_isDigit {c : Char} (h : c.isDigit) : c.isAlphanum := by
  simp [Char.isAlphanum, h]

theorem not_isDigit_of_isAlpha {c : Char} (h : c.isAlpha) : ¬c.isDigit := by
  intro hd
  have hle : c.val ≤ '9'.val := of_decide_eq_true (Bool.and_eq_true_iff.1 hd).2
  have hge : 'A'.val ≤ c.val := by
    obtain h | h : c.isUpper = true ∨ c.isLower = true := Bool.or_eq_true_iff.1 h
    · exact (of_decide_eq_true h).1
    · have hlower : 'a'.val ≤ c.val := of_decide_eq_true (Bool.and_eq_true_iff.1 h).1
      exact UInt32.le_trans (by decide) hlower
  exact absurd (UInt32.le_trans hge hle) (by decide)

theorem isWordChar_of_isIdentifier {text : List Char} (h : IsIdentifier text) :
    ∀ c ∈ text, isWordChar c := by
  rcases h with ⟨c, rfl, hc⟩ | ⟨first, middle, last, rfl, hf, hm, hl⟩
  · simpa using isWordChar_of_isAlphanum (isAlphanum_of_isAlpha hc)
  · intro c hc
    rw [List.mem_append, List.mem_cons, List.mem_singleton] at hc
    rcases hc with (rfl | hc) | rfl
    · exact isWordChar_of_isAlphanum (isAlphanum_of_isAlpha hf)
    · simpa [isWordChar] using hm c hc
    · exact isWordChar_of_isAlphanum hl

/-- A run of letters, digits and underscores is an identifier if it begins with a letter and
does not end with an underscore. -/
theorem isIdentifier_iff {text : List Char} (hw : ∀ c ∈ text, isWordChar c) :
    IsIdentifier text ↔
      (text.head?.any Char.isAlpha && text.getLast? != some '_') = true := by
  constructor
  · rintro (⟨c, rfl, hc⟩ | ⟨first, middle, last, rfl, hf, -, hl⟩)
    · have hne : c ≠ '_' := by
        rintro rfl
        simp at hc
      simp [hc, hne]
    · have hne : last ≠ '_' := by
        rintro rfl
        simp at hl
      rw [List.getLast?_concat]
      simp [hf, hne]
  · intro h
    cases text with
    | nil => cases h
    | cons first rest =>
      rcases List.eq_nil_or_concat rest with rfl | ⟨middle, last, rfl⟩
      · simp only [List.head?_cons, Option.any_some, Bool.and_eq_true] at h
        exact .inl ⟨first, rfl, h.1⟩
      · rw [List.concat_eq_append, ← List.cons_append, List.getLast?_concat] at h
        simp only [List.cons_append, List.head?_cons, Option.any_some, Bool.and_eq_true,
          bne_iff_ne, ne_eq, Option.some.injEq] at h
        refine .inr ⟨first, middle, last, by simp, h.1, fun c hc => ?_, ?_⟩
        · simpa [isWordChar] using hw c (by simp [hc])
        · simpa [isWordChar, h.2] using hw last (by simp)

theorem word_eq_identifier {text : List Char} (h : Spells .identifier (String.ofList text)) :
    word text = .lexeme .identifier text := by
  obtain ⟨hi, hk⟩ := h
  rw [String.toList_ofList] at hi
  rw [word, keyword?_eq_none_iff.2 hk]
  exact if_pos ((isIdentifier_iff (isWordChar_of_isIdentifier hi)).1 hi)

theorem word_eq_keyword {kind : TokenKind} {text : List Char} (hk : kind ∈ TokenKind.keywords)
    (hs : kind.spelling? = some (String.ofList text)) : word text = .lexeme kind text := by
  rw [word, keyword?_eq_some hk hs]

/-! ## Numbers -/

theorem number_eq_integer {text : List Char} (h : Spells .intLiteral (String.ofList text)) :
    number text = .lexeme .intLiteral text := by
  obtain ⟨hi, hv⟩ := h
  rw [String.toList_ofList] at hi hv
  rw [number, if_pos (isIntegerText_iff.2 hi), if_pos ((integer?_isSome_iff hi).2 hv)]

theorem not_mem_point_of_isInteger {text : List Char} (h : IsInteger text) : '.' ∉ text := by
  obtain ⟨sign, digits, rfl, hs, hd⟩ := h
  rcases hs with rfl | rfl
  · exact hd.not_mem_point
  · simpa using hd.not_mem_point

theorem number_eq_real {text : List Char} (h : Spells .realLiteral (String.ofList text)) :
    number text = .lexeme .realLiteral text := by
  have h : IsReal text := by simpa [Spells] using h
  have hi : ¬Numeral.isIntegerText text := by
    rw [isIntegerText_iff]
    intro hi
    obtain ⟨sign, whole, fraction, rfl, -⟩ := h
    exact not_mem_point_of_isInteger hi (by simp)
  rw [number, if_neg hi, if_pos (isRealText_iff.2 h)]

theorem isNumberChar_of_isDigit {c : Char} (h : c.isDigit) : isNumberChar c := by
  simp [isNumberChar, isWordChar_of_isAlphanum (isAlphanum_of_isDigit h)]

/-- The text of a number is a sign and a run that begins with a digit. -/
theorem exists_number_run {kind : TokenKind} {text : String}
    (hk : kind = .intLiteral ∨ kind = .realLiteral) (h : Spells kind text) :
    ∃ sign first rest, text.toList = sign ++ first :: rest ∧ IsSign sign ∧ first.isDigit ∧
      ∀ c ∈ rest, isNumberChar c := by
  rcases hk with rfl | rfl
  · obtain ⟨⟨sign, digits, ht, hs, hd⟩, -⟩ := h
    obtain ⟨first, rest, rfl, hf⟩ := hd.exists_eq_cons
    exact ⟨sign, first, rest, ht, hs, hf,
      fun c hc => isNumberChar_of_isDigit (hd.isDigit c (by simp [hc]))⟩
  · obtain ⟨sign, whole, fraction, ht, hs, hw, -, hd⟩ := h
    obtain ⟨first, rest, rfl, hf⟩ := hw.exists_eq_cons
    refine ⟨sign, first, rest ++ '.' :: fraction, by simp [ht], hs, hf, fun c hc => ?_⟩
    rw [List.mem_append, List.mem_cons] at hc
    rcases hc with hc | rfl | hc
    · exact isNumberChar_of_isDigit (hw.isDigit c (by simp [hc]))
    · decide
    · exact isNumberChar_of_isDigit (hd c hc)

/-! ## What is cut off -/

namespace Piece

/-- A piece is spelled as its kind demands, and only a string is blamed for having no end. -/
def Sound (afterValue : Bool) : Piece → Prop
  | .lexeme kind text => kind ≠ .quote ∧ kind ≠ .stringLiteral ∧
      Spells kind (String.ofList text) ∧ Fits afterValue kind (String.ofList text)
  | .quotation content => Spells .stringLiteral (String.ofList content)
  | .fault cause _ => cause.kind ≠ .unterminatedString
  | .blank _ | .lineComment _ | .commentOpening | .openQuotation _ => True

end Piece

theorem word_sound {afterValue : Bool} {text : List Char} (hw : ∀ c ∈ text, isWordChar c) :
    (word text).Sound afterValue := by
  unfold word
  split
  · rename_i kind hk
    obtain ⟨hm, hs⟩ := mem_of_keyword?_eq_some hk
    simp only [TokenKind.keywords, List.mem_cons, List.not_mem_nil, or_false] at hm
    rcases hm with rfl | rfl | rfl | rfl | rfl | rfl | rfl | rfl | rfl | rfl | rfl | rfl <;>
      exact ⟨by simp, by simp, .of_spelling? hs, by simp [Fits]⟩
  · rename_i hk
    split
    · rename_i hi
      refine ⟨by simp, by simp, ⟨?_, keyword?_eq_none_iff.1 hk⟩, by simp [Fits]⟩
      rw [String.toList_ofList]
      exact (isIdentifier_iff hw).2 hi
    · exact nofun

theorem number_sound {afterValue : Bool} {text : List Char}
    (hs : text.head? = some '-' → afterValue = false) : (number text).Sound afterValue := by
  unfold number
  split
  · rename_i hi
    rw [isIntegerText_iff] at hi
    split
    · rename_i hr
      refine ⟨by simp, by simp, ?_, by simpa [Fits] using hs⟩
      simpa [Spells] using ⟨hi, (integer?_isSome_iff hi).1 hr⟩
    · exact nofun
  · split
    · rename_i hr
      refine ⟨by simp, by simp, ?_, by simpa [Fits] using hs⟩
      simpa [Spells] using isRealText_iff.1 hr
    · exact nofun

theorem quoted_sound {afterValue : Bool} {text : List Char} (hn : '\n' ∉ text) :
    (quoted text).1.Sound afterValue := by
  unfold quoted
  split
  · trivial
  · simp only [Piece.Sound, Spells, String.toList_ofList]
    refine ⟨fun h => ?_, fun h => hn (List.takeWhile_subset _ h)⟩
    simpa using List.mem_takeWhile_imp h

theorem dash_sound {afterValue : Bool} {text : List Char} :
    (dash afterValue text).1.Sound afterValue := by
  unfold dash
  split
  · rename_i hv
    exact ⟨by simp, by simp, .of_spelling? (by decide), by simpa [Fits] using hv⟩
  · rename_i hv
    split
    · exact number_sound fun _ => by simpa using hv
    · exact nofun

theorem symbol?_sound {afterValue : Bool} {c : Char} {kind : TokenKind}
    (h : symbol? c = some kind) : (Piece.lexeme kind [c]).Sound afterValue := by
  unfold symbol? at h
  split at h <;> cases h <;> exact ⟨by simp, by simp, .of_spelling? (by decide), by simp [Fits]⟩

theorem run_word {c : Char} {text : List Char} (hc : isWordChar c) :
    ∀ d ∈ c :: text.takeWhile isWordChar, isWordChar d := by
  simpa [hc] using fun d hd => List.mem_takeWhile_imp hd

theorem cut_sound {afterValue : Bool} {c : Char} {text : List Char}
    (hn : c = '"' → '\n' ∉ text) :
    (cut afterValue c text).1.Sound afterValue := by
  unfold cut
  split
  · trivial
  · trivial
  · exact nofun
  · exact ⟨by simp, by simp, .of_spelling? (by decide), by simp [Fits]⟩
  · exact ⟨by simp, by simp, .of_spelling? (by decide), by simp [Fits]⟩
  · exact quoted_sound (hn rfl)
  · exact dash_sound
  · split
    · trivial
    · split
      · rename_i hd
        refine number_sound fun h => ?_
        cases h
        cases hd
      · split
        · rename_i hc
          exact word_sound (run_word hc)
        · split
          · rename_i hs
            exact symbol?_sound hs
          · exact nofun

theorem word_text (text : List Char) : (word text).text = text := by
  unfold word
  split
  · rfl
  · split <;> rfl

theorem number_text (text : List Char) : (number text).text = text := by
  unfold number
  split
  · split <;> rfl
  · split <;> rfl

theorem quoted_text (text : List Char) :
    (quoted text).1.text ++ (quoted text).2 = '"' :: text := by
  have happend := List.takeWhile_append_dropWhile (p := fun c => c != '"') (l := text)
  have hstop := List.head?_dropWhile_not (fun c => c != '"') text
  unfold quoted
  split
  · rename_i hdrop
    rw [hdrop] at happend
    simpa [Piece.text] using happend
  · rename_i d rest hdrop
    rw [hdrop] at happend hstop
    obtain rfl : d = '"' := by simpa using hstop
    simpa [Piece.text] using happend

/-- A piece and the text behind it are the text from which the piece was cut off. -/
theorem cut_text (afterValue : Bool) (c : Char) (text : List Char) :
    (cut afterValue c text).1.text ++ (cut afterValue c text).2 = c :: text := by
  unfold cut
  split
  · simp [Piece.text]
  · rfl
  · rfl
  · rfl
  · rfl
  · exact quoted_text _
  · unfold dash
    split
    · rfl
    · split
      · simp [number_text]
      · rfl
  · split
    · rfl
    · split
      · simp [number_text]
      · split
        · simp [word_text]
        · split <;> rfl

/-! ## What is cut off whole -/

def Stops (rest : List Char) : Prop :=
  ∀ c ∈ rest.head?, isBlank c

theorem Stops.cases {rest : List Char} (h : Stops rest) :
    rest = [] ∨ ∃ c cs, rest = c :: cs ∧ (c = ' ' ∨ c = '\r' ∨ c = '\t') := by
  cases rest with
  | nil => exact .inl rfl
  | cons c cs =>
    have hc := h c rfl
    simp only [isBlank, Bool.or_eq_true, beq_iff_eq] at hc
    exact .inr ⟨c, cs, rfl, or_assoc.1 hc⟩

theorem Stops.isNumberChar {rest : List Char} (h : Stops rest) :
    ∀ c ∈ rest.head?, isNumberChar c = false := by
  rcases h.cases with rfl | ⟨c, cs, rfl, rfl | rfl | rfl⟩ <;> simp <;> decide

theorem Stops.isWordChar {rest : List Char} (h : Stops rest) :
    ∀ c ∈ rest.head?, isWordChar c = false := by
  rcases h.cases with rfl | ⟨c, cs, rfl, rfl | rfl | rfl⟩ <;> simp <;> decide

variable {afterValue : Bool} {c : Char} {text rest : List Char}

theorem cut_digit (hc : c.isDigit) : cut afterValue c text =
    (number (c :: text.takeWhile isNumberChar), text.dropWhile isNumberChar) := by
  unfold cut
  split <;> try cases hc
  have hb : ¬isBlank c := fun h => by
    simp only [isBlank, Bool.or_eq_true, beq_iff_eq] at h
    rcases h with (rfl | rfl) | rfl <;> cases hc
  rw [if_neg hb, if_pos hc]

theorem cut_letter (hc : c.isAlpha) : cut afterValue c text =
    (word (c :: text.takeWhile isWordChar), text.dropWhile isWordChar) := by
  unfold cut
  split <;> try cases hc
  have hb : ¬isBlank c := fun h => by
    simp only [isBlank, Bool.or_eq_true, beq_iff_eq] at h
    rcases h with (rfl | rfl) | rfl <;> cases hc
  rw [if_neg hb, if_neg (not_isDigit_of_isAlpha hc),
    if_pos (isWordChar_of_isAlphanum (isAlphanum_of_isAlpha hc))]

theorem cut_number {kind : TokenKind} (hk : kind = .intLiteral ∨ kind = .realLiteral)
    (hs : Spells kind (String.ofList text)) (hf : Fits afterValue kind (String.ofList text))
    (hr : Stops rest) :
    ∃ c cs, text = c :: cs ∧ cut afterValue c (cs ++ rest) = (.lexeme kind text, rest) := by
  have hnumber : number text = .lexeme kind text := by
    rcases hk with rfl | rfl
    · exact number_eq_integer hs
    · exact number_eq_real hs
  obtain ⟨sign, first, run, ht, hsign, hd, hrun⟩ := exists_number_run hk hs
  rw [String.toList_ofList] at ht
  subst ht
  rcases hsign with rfl | rfl
  · refine ⟨first, run, rfl, ?_⟩
    rw [cut_digit hd, takeWhile_append_stop hrun hr.isNumberChar,
      dropWhile_append_stop hrun hr.isNumberChar]
    exact congrArg (·, rest) hnumber
  · refine ⟨'-', first :: run, rfl, ?_⟩
    have hv : afterValue = false := hf.2 hk (by simp)
    have hrun' : ∀ d ∈ first :: run, isNumberChar d := by
      simpa [isNumberChar_of_isDigit hd] using hrun
    have hdash : cut afterValue '-' (first :: run ++ rest) =
        dash afterValue (first :: run ++ rest) := by
      rfl
    rw [hdash, dash, hv, if_neg (by simp), if_pos (by simpa using hd),
      takeWhile_append_stop hrun' hr.isNumberChar, dropWhile_append_stop hrun' hr.isNumberChar]
    exact congrArg (·, rest) hnumber

theorem cut_word {kind : TokenKind} (hw : word text = .lexeme kind text)
    (hrun : ∀ c ∈ text, isWordChar c) (hc : text.head?.any Char.isAlpha) (hr : Stops rest) :
    ∃ c cs, text = c :: cs ∧ cut afterValue c (cs ++ rest) = (.lexeme kind text, rest) := by
  cases text with
  | nil => cases hc
  | cons c cs =>
    refine ⟨c, cs, rfl, ?_⟩
    have hcs : ∀ d ∈ cs, isWordChar d := fun d hd => hrun d (by simp [hd])
    rw [cut_letter (by simpa using hc), takeWhile_append_stop hcs hr.isWordChar,
      dropWhile_append_stop hcs hr.isWordChar, hw]

/-- A keyword is a word that starts with a letter. -/
theorem keyword_spelling {kind : TokenKind} (hk : kind ∈ TokenKind.keywords) {spelling : String}
    (hs : kind.spelling? = some spelling) :
    spelling.toList.all isWordChar = true ∧ spelling.toList.head?.any Char.isAlpha = true := by
  simp only [TokenKind.keywords, List.mem_cons, List.not_mem_nil, or_false] at hk
  rcases hk with rfl | rfl | rfl | rfl | rfl | rfl | rfl | rfl | rfl | rfl | rfl | rfl <;>
    cases hs <;> exact ⟨by decide, by decide⟩

theorem cut_keyword {kind : TokenKind} (hk : kind ∈ TokenKind.keywords)
    (hs : kind.spelling? = some (String.ofList text)) (hr : Stops rest) :
    ∃ c cs, text = c :: cs ∧ cut afterValue c (cs ++ rest) = (.lexeme kind text, rest) := by
  obtain ⟨hrun, hfirst⟩ := keyword_spelling hk hs
  rw [String.toList_ofList] at hrun hfirst
  exact cut_word (word_eq_keyword hk hs) (List.all_eq_true.1 hrun) hfirst hr

theorem cut_lexeme {kind : TokenKind} (hq : kind ≠ .quote) (hl : kind ≠ .stringLiteral)
    (hs : Spells kind (String.ofList text)) (hf : Fits afterValue kind (String.ofList text))
    (hr : Stops rest) :
    ∃ c cs, text = c :: cs ∧ cut afterValue c (cs ++ rest) = (.lexeme kind text, rest) := by
  cases kind with
  | quote => exact absurd rfl hq
  | stringLiteral => exact absurd rfl hl
  | identifier =>
    have hi : IsIdentifier text := by simpa using hs.1
    refine cut_word (word_eq_identifier hs) (isWordChar_of_isIdentifier hi) ?_ hr
    rw [isIdentifier_iff (isWordChar_of_isIdentifier hi), Bool.and_eq_true] at hi
    exact hi.1
  | intLiteral => exact cut_number (.inl rfl) hs hf hr
  | realLiteral => exact cut_number (.inr rfl) hs hf hr
  | minus =>
    have ht : text = ['-'] := String.ofList_injective (Option.some.inj hs).symm
    subst ht
    refine ⟨'-', [], rfl, ?_⟩
    rw [hf.1 rfl]
    rfl
  | ifWord | elseWord | whileWord | forWord | readWord | writeWord | intWord | realWord |
      boolWord | stringWord | trueWord | falseWord =>
    exact cut_keyword (by decide) hs hr
  | _ =>
    obtain rfl := String.ofList_injective (Option.some.inj hs).symm
    refine ⟨_, _, rfl, ?_⟩
    rcases hr.cases with rfl | ⟨c, cs, rfl, rfl | rfl | rfl⟩ <;> rfl

theorem not_mem_of_run {p : Char → Bool} {text : List Char} {c : Char}
    (hrun : ∀ d ∈ text, p d) (hc : p c = false) : c ∉ text :=
  fun h => by simp [hrun c h] at hc

/-- Only a string can contain a line break. -/
theorem not_mem_of_spells {kind : TokenKind} {text : String} {c : Char}
    (hc : c = '\n' ∨ c = '\r') (hq : kind ≠ .stringLiteral) (hs : Spells kind text) :
    c ∉ text.toList := by
  have number (hk : kind = .intLiteral ∨ kind = .realLiteral) : c ∉ text.toList := by
    obtain ⟨sign, first, rest, ht, hsign, hd, hrun⟩ := exists_number_run hk hs
    rw [ht, List.mem_append, not_or]
    constructor
    · rcases hsign with rfl | rfl <;> rcases hc with rfl | rfl <;> simp
    · refine not_mem_of_run (p := isNumberChar) ?_ (by rcases hc with rfl | rfl <;> decide)
      simpa [isNumberChar_of_isDigit hd] using hrun
  cases kind with
  | stringLiteral => exact absurd rfl hq
  | identifier =>
    exact not_mem_of_run (isWordChar_of_isIdentifier hs.1)
      (by rcases hc with rfl | rfl <;> decide)
  | intLiteral => exact number (.inl rfl)
  | realLiteral => exact number (.inr rfl)
  | _ =>
    obtain rfl := Option.some.inj hs
    rcases hc with rfl | rfl <;> decide

theorem cut_quotation {content : List Char} (hq : '"' ∉ content) :
    cut afterValue '"' (content ++ '"' :: rest) = (.quotation content, rest) := by
  have hrun : ∀ c ∈ content, (c != '"') = true := by
    intro c hc
    rw [bne_iff_ne]
    rintro rfl
    exact hq hc
  have hcut : cut afterValue '"' (content ++ '"' :: rest) = quoted (content ++ '"' :: rest) := rfl
  rw [hcut, quoted, takeWhile_append_stop hrun (by simp), dropWhile_append_stop hrun (by simp)]

end BlockLang.Scan
