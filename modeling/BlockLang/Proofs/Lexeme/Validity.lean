import BlockLang.Proofs.Lexeme.Pieces
import BlockLang.Proofs.Scan.Position

/-! # Scanned lexemes are valid

What the scanner yields for a text is a valid list of lexemes, unless the text has a
string without an end. Only such a string leaves a quote that is alone.
-/
namespace BlockLang.Scan
open Lexeme

/-- No error is a string without an end. -/
def Closed (errors : List LexicalError) : Prop :=
  ∀ error ∈ errors, error.cause.kind ≠ .unterminatedString

def Opens (lexemes : List (TokenKind × String)) : Prop :=
  ∀ lexeme ∈ lexemes.head?, lexeme.1 ≠ .stringLiteral

def lexemes (tokens : List Token) : List (TokenKind × String) :=
  tokens.map Token.lexeme

variable {last : Option TokenKind} {rest : List (TokenKind × String)}

theorem closed_nil : Closed [] :=
  List.forall_mem_nil _

theorem closed_append {errors others : List LexicalError} :
    Closed (errors ++ others) ↔ Closed errors ∧ Closed others :=
  List.forall_mem_append

theorem lexemes_append (tokens others : List Token) :
    lexemes (tokens ++ others) = lexemes tokens ++ lexemes others :=
  List.map_append

theorem valid_single_iff {kind : TokenKind} {text : String} (hq : kind ≠ .quote)
    (hl : kind ≠ .stringLiteral) (hs : Spells kind text)
    (hf : Fits (last.any TokenKind.endsOperand) kind text) :
    Valid last ((kind, text) :: rest) ↔ Valid (some kind) rest := by
  constructor
  · intro h
    cases h with
    | single _ _ _ _ h => exact h
    | quotation => exact absurd rfl hq
  · exact .single hq hl hs hf

theorem valid_quotation_iff {content : String} (hs : Spells .stringLiteral content) :
    Valid last ((.quote, "\"") :: (.stringLiteral, content) :: (.quote, "\"") :: rest) ↔
      Valid (some .quote) rest := by
  constructor
  · intro h
    cases h with
    | single hq => exact absurd rfl hq
    | quotation _ h => exact h
  · exact .quotation hs

theorem not_valid_quote (hr : Opens rest) : ¬Valid last ((.quote, "\"") :: rest) := by
  intro h
  cases h with
  | single hq => exact absurd rfl hq
  | quotation => exact hr _ rfl rfl

/-- A piece adds a valid unit, unless it is a string without an end. -/
theorem valid_tokens_iff {piece : Piece} (hp : piece.Sound (last.any TokenKind.endsOperand))
    (hr : Opens rest) (place : Place) :
    Valid last (lexemes (piece.tokens place) ++ rest) ↔
      Closed (piece.errors place) ∧ Valid (piece.lastKind last) rest := by
  cases piece with
  | lexeme kind text =>
    obtain ⟨hq, hl, hs, hf⟩ := hp
    exact (valid_single_iff hq hl hs hf).trans (and_iff_right closed_nil).symm
  | quotation content =>
    exact (valid_quotation_iff hp).trans (and_iff_right closed_nil).symm
  | openQuotation content =>
    have hne : ¬Closed (Piece.errors place (.openQuotation content)) := fun h =>
      h _ (List.mem_singleton_self _) rfl
    exact iff_of_false (not_valid_quote hr) fun h => hne h.1
  | fault cause text =>
    have hc : Closed (Piece.errors place (.fault cause text)) := List.forall_mem_singleton.2 hp
    exact (and_iff_right hc).symm
  | blank | lineComment | commentOpening => exact (and_iff_right closed_nil).symm

theorem opens_tokens {afterValue : Bool} {piece : Piece} (hp : piece.Sound afterValue)
    (hr : Opens rest) (place : Place) : Opens (lexemes (piece.tokens place) ++ rest) := by
  cases piece with
  | lexeme kind text =>
    rintro _ ⟨⟩
    exact hp.2.1
  | quotation | openQuotation =>
    rintro _ ⟨⟩
    exact nofun
  | _ => exact hr

/-! ## Lines and texts -/

/-- In front of later lexemes, those of a result are valid as far as its errors allow it. -/
def Result.Extends (last : Option TokenKind) (result : Result)
    (rest : List (TokenKind × String)) : Prop :=
  (Valid last (lexemes result.tokens ++ rest) ↔
    Closed result.errors ∧ Valid (lastKind last result.tokens) rest) ∧
  Opens (lexemes result.tokens ++ rest)

theorem extends_empty (hr : Opens rest) (comment : Option Place) :
    Result.Extends last ⟨[], [], comment⟩ rest :=
  ⟨(and_iff_right closed_nil).symm, hr⟩

theorem Result.Extends.append {first later : Result}
    (hl : later.Extends (lastKind last first.tokens) rest)
    (hf : first.Extends last (lexemes later.tokens ++ rest)) :
    (later.after first.tokens first.errors).Extends last rest := by
  obtain ⟨hv, ho⟩ := hf
  simp only [Result.Extends, Result.after, lexemes_append, List.append_assoc, closed_append,
    lastKind_append]
  exact ⟨by rw [hv, hl.1, and_assoc], ho⟩

theorem extends_piece {piece : Piece} (hp : piece.Sound (last.any TokenKind.endsOperand))
    (hr : Opens rest) (place : Place) (comment : Option Place) :
    Result.Extends last ⟨piece.tokens place, piece.errors place, comment⟩ rest := by
  refine ⟨?_, opens_tokens hp hr place⟩
  rw [lastKind_tokens]
  exact valid_tokens_iff hp hr place

/-- The column behind a comment counts the characters of the comment. -/
theorem exists_of_commentEnd? {column next : Nat} {text tail : List Char}
    (h : commentEnd? column text = some (next, tail)) :
    ∃ skipped, text = skipped ++ tail ∧ next = column + skipped.length := by
  fun_induction commentEnd? column text with
  | case1 column rest =>
    cases h
    exact ⟨['*', '/'], rfl, rfl⟩
  | case2 column c rest _ ih =>
    obtain ⟨skipped, rfl, rfl⟩ := ih h
    exact ⟨c :: skipped, rfl, by rw [List.length_cons, Nat.add_right_comm, Nat.add_assoc]⟩
  | case3 => cases h

theorem suffix_of_commentEnd? {column next : Nat} {text tail : List Char}
    (h : commentEnd? column text = some (next, tail)) : tail <:+ text := by
  obtain ⟨skipped, rfl, -⟩ := exists_of_commentEnd? h
  exact List.suffix_append skipped tail

theorem extends_fromColumn {line column : Nat} {comment : Option Place} {text : List Char}
    (hn : '\n' ∉ text) (hr : Opens rest) :
    (fromColumn line comment last column text).Extends last rest := by
  fun_induction fromColumn line comment last column text with
  | case1 => exact extends_empty hr _
  | case2 _ _ _ _ _ _ hend ih => exact ih fun h => hn ((suffix_of_commentEnd? hend).subset h)
  | case3 => exact extends_empty hr _
  | case4 last column c cs place first ih =>
    have hsuffix : first.2 <:+ c :: cs := ⟨_, cut_text _ c cs⟩
    have hlater := ih fun h => hn (hsuffix.subset h)
    rw [← lastKind_tokens first.1 place] at hlater
    have hsound : first.1.Sound (last.any TokenKind.endsOperand) :=
      cut_sound fun _ h => hn (List.mem_cons_of_mem c h)
    have hall := hlater.append (extends_piece hsound hlater.2 place none)
    rwa [lastKind_tokens] at hall

theorem extends_ofLines {line : Nat} {comment : Option Place} {lines : List (List Char)}
    (hn : ∀ text ∈ lines, '\n' ∉ text) :
    (ofLines line comment last lines).Extends last [] := by
  induction lines generalizing line comment last with
  | nil => exact extends_empty (by simp [Opens]) comment
  | cons text texts ih =>
    rw [List.forall_mem_cons] at hn
    exact (ih hn.2).append (extends_fromColumn hn.1 (ih hn.2).2)

theorem not_mem_of_linesFrom {reversed text : List Char} (hr : '\n' ∉ reversed) :
    ∀ line ∈ linesFrom reversed text, '\n' ∉ line := by
  fun_induction linesFrom reversed text with
  | case1 => simp
  | case2 => simpa using hr
  | case3 reversed cs ih =>
    rw [List.forall_mem_cons]
    refine ⟨?_, ih (by simp)⟩
    unfold chomp
    split <;> simp_all
  | case4 reversed c cs hn ih =>
    refine ih ?_
    rw [List.mem_cons, not_or]
    exact ⟨fun h => hn h.symm, hr⟩

theorem closed_ofText_iff {text : String} : Closed (ofText text).2 ↔
    Closed (ofLines 1 none none (linesOf text.toList)).errors := by
  rw [ofText, closed_append, and_iff_left]
  intro error he
  obtain ⟨place, -, rfl⟩ := List.mem_map.1 he
  exact nofun

theorem not_mem_of_linesOf (text : List Char) : ∀ line ∈ linesOf text, '\n' ∉ line :=
  not_mem_of_linesFrom List.not_mem_nil

/-- A text has valid lexemes just if each of its strings has an end. -/
theorem valid_ofText_iff {text : String} :
    Valid none (lexemes (ofText text).1) ↔ Closed (ofText text).2 := by
  have hv : Result.Extends none (ofLines 1 none none (linesOf text.toList)) [] :=
    extends_ofLines (not_mem_of_linesOf _)
  have hall := hv.1
  rw [List.append_nil] at hall
  rw [closed_ofText_iff]
  exact hall.trans (and_iff_left .nil)

/-! ## Spelling -/

theorem Piece.Sound.spells {afterValue : Bool} {piece : Piece} (hp : piece.Sound afterValue)
    (place : Place) : ∀ token ∈ piece.tokens place, Spells token.kind token.text := by
  cases piece with
  | lexeme kind text => exact List.forall_mem_singleton.2 hp.2.2.1
  | quotation content =>
    simp only [Piece.tokens, List.forall_mem_cons]
    exact ⟨.of_spelling? rfl, hp, .of_spelling? rfl, by simp⟩
  | openQuotation content => exact List.forall_mem_singleton.2 (.of_spelling? rfl)
  | _ => exact List.forall_mem_nil _

theorem spells_quoted {text : List Char} {place : Place} {token : Token}
    (hk : token.kind ≠ .stringLiteral) (ht : token ∈ (quoted text).1.tokens place) :
    Spells token.kind token.text := by
  unfold quoted at ht
  split at ht <;> simp only [Piece.tokens, List.mem_cons, List.not_mem_nil, or_false] at ht
  · rw [ht]
    exact .of_spelling? rfl
  · rcases ht with rfl | rfl | rfl
    · exact .of_spelling? rfl
    · exact absurd rfl hk
    · exact .of_spelling? rfl

/-- Only the content of a string could have characters that its kind does not allow. -/
theorem spells_fromColumn {line column : Nat} {comment : Option Place} {text : List Char} :
    ∀ token ∈ (fromColumn line comment last column text).tokens,
      (token.kind = .stringLiteral → '\n' ∉ text) → Spells token.kind token.text := by
  fun_induction fromColumn line comment last column text with
  | case1 => exact List.forall_mem_nil _
  | case2 _ _ _ _ _ _ hend ih =>
    intro token ht hn
    exact ih token ht fun hk h => hn hk ((suffix_of_commentEnd? hend).subset h)
  | case3 => exact List.forall_mem_nil _
  | case4 last column c cs place first ih =>
    intro token ht hn
    obtain ht | ht := List.mem_append.1 ht
    · by_cases hquote : c = '"' ∧ token.kind ≠ .stringLiteral
      · obtain ⟨rfl, hk⟩ := hquote
        exact spells_quoted hk ht
      · refine Piece.Sound.spells (cut_sound fun hc h => ?_) place token ht
        exact hn (by_contra fun hk => hquote ⟨hc, hk⟩) (List.mem_cons_of_mem c h)
    · have hsuffix : first.2 <:+ c :: cs := ⟨_, cut_text _ c cs⟩
      exact ih token ht fun hk h => hn hk (hsuffix.subset h)

/-- Every token has a text that its kind allows, also in a faulty text. -/
theorem spells_ofText (text : String) :
    ∀ token ∈ (ofText text).1, Spells token.kind token.text := by
  have hlines (line : Nat) (comment : Option Place) (last : Option TokenKind)
      (lines : List (List Char)) (hn : ∀ text ∈ lines, '\n' ∉ text) :
      ∀ token ∈ (ofLines line comment last lines).tokens, Spells token.kind token.text := by
    induction lines generalizing line comment last with
    | nil => exact List.forall_mem_nil _
    | cons text texts ih =>
      rw [List.forall_mem_cons] at hn
      exact List.forall_mem_append.2
        ⟨fun token ht => spells_fromColumn token ht fun _ => hn.1, ih _ _ _ hn.2⟩
  exact hlines 1 none none _ (not_mem_of_linesOf _)

end BlockLang.Scan
