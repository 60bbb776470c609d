import BlockLang.Proofs.Lexeme.Validity

/-! # Spans

A token is at the place where its text stands in the line, counted in characters, and the texts
of the tokens of a line stand one behind the other. Each error is blamed on the first character
of the piece that is at fault. All this comes from the pieces: they tile the line, and a piece says
where its tokens stand in its own text.
-/
namespace BlockLang

/-- A place is another one or comes before it in a text. -/
def Place.IsUpTo (place other : Place) : Prop :=
  place.line < other.line ∨ place.line = other.line ∧ place.column ≤ other.column

namespace Scan
open Lexeme

/-- A lexeme stands at a column of a text whose first character is at the column `start`. -/
def StandsAt (start : Nat) (text lexeme : List Char) (column : Nat) : Prop :=
  ∃ before behind, text = before ++ lexeme ++ behind ∧ column = start + before.length

variable {line start column : Nat} {text rest lexeme : List Char} {tokens others : List Token}
  {errors faults : List LexicalError}

theorem StandsAt.append_right (h : StandsAt start text lexeme column) (rest : List Char) :
    StandsAt start (text ++ rest) lexeme column := by
  obtain ⟨before, behind, rfl, rfl⟩ := h
  exact ⟨before, behind ++ rest, by simp, rfl⟩

theorem StandsAt.append_left (h : StandsAt (start + text.length) rest lexeme column) :
    StandsAt start (text ++ rest) lexeme column := by
  obtain ⟨before, behind, rfl, rfl⟩ := h
  exact ⟨text ++ before, behind, by simp, by rw [List.length_append, Nat.add_assoc]⟩

theorem StandsAt.bounds (h : StandsAt start text lexeme column) :
    start ≤ column ∧ column + lexeme.length ≤ start + text.length := by
  obtain ⟨before, behind, rfl, rfl⟩ := h
  simp only [List.length_append]
  omega

theorem StandsAt.take_drop (h : StandsAt 1 text lexeme column) :
    (text.drop (column - 1)).take lexeme.length = lexeme := by
  obtain ⟨before, behind, rfl, rfl⟩ := h
  rw [Nat.add_sub_cancel_left, List.append_assoc, List.drop_left, List.take_left]

/-- Tokens and errors have their places in a part of a line that begins at a column. The tokens
stand one behind the other, and so do the errors. -/
structure Located (line start : Nat) (text : List Char) (tokens : List Token)
    (errors : List LexicalError) : Prop where
  token : ∀ token ∈ tokens, token.place.line = line ∧
    StandsAt start text token.text.toList token.place.column
  apart : tokens.Pairwise fun token later =>
    token.place.column + token.text.length ≤ later.place.column
  error : ∀ error ∈ errors, error.place.line = line ∧
    start ≤ error.place.column ∧ error.place.column < start + text.length
  increasing : errors.Pairwise fun error later => error.place.column < later.place.column

theorem Located.nil : Located line start text [] [] :=
  ⟨List.forall_mem_nil _, .nil, List.forall_mem_nil _, .nil⟩

theorem Located.bounds (h : Located line start text tokens errors) {token : Token}
    (ht : token ∈ tokens) : start ≤ token.place.column ∧
      token.place.column + token.text.length ≤ start + text.length := by
  rw [← String.length_toList]
  exact (h.token token ht).2.bounds

/-- What has its places in two parts of a line, one behind the other, has them in the whole. -/
theorem Located.append (h : Located line start text tokens errors)
    (hl : Located line (start + text.length) rest others faults) :
    Located line start (text ++ rest) (tokens ++ others) (errors ++ faults) where
  token := by
    refine List.forall_mem_append.2 ⟨fun token ht => ?_, fun token ht => ?_⟩
    · exact (h.token token ht).imp_right fun hs => hs.append_right rest
    · exact (hl.token token ht).imp_right StandsAt.append_left
  apart := by
    refine List.pairwise_append.2 ⟨h.apart, hl.apart, fun token ht later hlater => ?_⟩
    exact (h.bounds ht).2.trans (hl.bounds hlater).1
  error := by
    rw [List.length_append]
    refine List.forall_mem_append.2 ⟨fun error he => ?_, fun error he => ?_⟩
    · have hb := h.error error he
      omega
    · have hb := hl.error error he
      omega
  increasing := by
    refine List.pairwise_append.2 ⟨h.increasing, hl.increasing, fun error he later hlater => ?_⟩
    exact Nat.lt_of_lt_of_le (h.error error he).2.2 (hl.error later hlater).2.1

/-! ## Pieces -/

theorem located_piece {piece : Piece} (h : piece.text ≠ []) (place : Place) :
    Located place.line place.column piece.text (piece.tokens place) (piece.errors place) := by
  have hpos : place.column < place.column + piece.text.length :=
    Nat.lt_add_of_pos_right (List.length_pos_iff.2 h)
  have hquote : "\"".toList = ['"'] := by decide
  cases piece with
  | lexeme kind text =>
    refine ⟨List.forall_mem_singleton.2 ⟨rfl, [], [], ?_, rfl⟩, List.pairwise_singleton _ _,
      List.forall_mem_nil _, .nil⟩
    simp [Piece.text]
  | quotation content =>
    refine ⟨List.forall_mem_cons.2 ⟨⟨rfl, [], content ++ ['"'], ?_, rfl⟩,
      List.forall_mem_cons.2 ⟨⟨rfl, ['"'], ['"'], ?_, rfl⟩,
      List.forall_mem_singleton.2 ⟨rfl, '"' :: content, [], ?_, ?_⟩⟩⟩,
      ?_, List.forall_mem_nil _, .nil⟩
    · rw [hquote]
      rfl
    · simp [Piece.text]
    · simp [Piece.text, hquote]
    · rw [List.length_cons, Nat.add_assoc, Nat.add_comm 1]
    · have hone : "\"".length = 1 := by decide
      have hlength : (String.ofList content).length = content.length := String.length_ofList
      refine List.pairwise_cons.2 ⟨List.forall_mem_cons.2 ⟨?_, List.forall_mem_singleton.2 ?_⟩,
        List.pairwise_cons.2 ⟨List.forall_mem_singleton.2 ?_, List.pairwise_singleton _ _⟩⟩
      all_goals dsimp only
      all_goals omega
  | openQuotation content =>
    refine ⟨List.forall_mem_singleton.2 ⟨rfl, [], content, ?_, rfl⟩, List.pairwise_singleton _ _,
      List.forall_mem_singleton.2 ⟨rfl, Nat.le_refl _, hpos⟩, List.pairwise_singleton _ _⟩
    rw [hquote]
    rfl
  | fault cause text =>
    exact ⟨List.forall_mem_nil _, .nil, List.forall_mem_singleton.2 ⟨rfl, Nat.le_refl _, hpos⟩,
      List.pairwise_singleton _ _⟩
  | blank | lineComment | commentOpening => exact .nil

theorem cut_text_ne_nil (afterValue : Bool) (c : Char) (text : List Char) :
    (cut afterValue c text).1.text ≠ [] := by
  intro h
  have htext := cut_text afterValue c text
  rw [h, List.nil_append] at htext
  have hle := cut_length_le afterValue c text
  rw [htext] at hle
  exact Nat.not_succ_le_self _ hle

/-- The content of a string has no quote, also in a line of any characters. -/
theorem not_mem_of_cut {afterValue : Bool} {c : Char} {place : Place} {token : Token}
    (ht : token ∈ (cut afterValue c text).1.tokens place) (hk : token.kind = .stringLiteral) :
    '"' ∉ token.text.toList := by
  by_cases hc : c = '"'
  · subst hc
    have hquoted : cut afterValue '"' text = quoted text := rfl
    rw [hquoted] at ht
    unfold quoted at ht
    split at ht <;> simp only [Piece.tokens, List.mem_cons, List.not_mem_nil, or_false] at ht
    · rw [ht] at hk
      cases hk
    · rcases ht with rfl | rfl | rfl
      · cases hk
      · rw [String.toList_ofList]
        intro hm
        simpa using List.mem_takeWhile_imp hm
      · cases hk
  · have hs : Spells token.kind token.text := (cut_sound fun h => absurd h hc).spells place token ht
    rw [hk] at hs
    exact hs.1

/-! ## Lines and texts -/

theorem located_fromColumn {comment : Option Place} {last : Option TokenKind} :
    Located line column text (fromColumn line comment last column text).tokens
      (fromColumn line comment last column text).errors := by
  fun_induction fromColumn line comment last column text with
  | case1 => exact .nil
  | case2 last column text opening next rest hend ih =>
    obtain ⟨skipped, rfl, rfl⟩ := exists_of_commentEnd? hend
    exact Located.append .nil ih
  | case3 => exact .nil
  | case4 last column c cs place first ih =>
    have hpiece := located_piece (cut_text_ne_nil (last.any TokenKind.endsOperand) c cs) place
    have hall := hpiece.append ih
    rwa [cut_text] at hall

theorem not_mem_of_fromColumn {comment : Option Place} {last : Option TokenKind} :
    ∀ token ∈ (fromColumn line comment last column text).tokens,
      token.kind = .stringLiteral → '"' ∉ token.text.toList := by
  fun_induction fromColumn line comment last column text with
  | case1 => exact List.forall_mem_nil _
  | case2 _ _ _ _ _ _ _ ih => exact ih
  | case3 => exact List.forall_mem_nil _
  | case4 last column c cs place first ih =>
    exact List.forall_mem_append.2 ⟨fun token ht => not_mem_of_cut ht, ih⟩

/-- Each token has its text from one of the lines. -/
theorem exists_line_of_ofLines {comment : Option Place} {last : Option TokenKind}
    {lines : List (List Char)} : ∀ token ∈ (ofLines line comment last lines).tokens,
      ∃ text ∈ lines, token.text.toList <:+: text := by
  induction lines generalizing line comment last with
  | nil => exact List.forall_mem_nil _
  | cons text texts ih =>
    let first := ofLine line comment last text
    have hfirst : Located line 1 text first.tokens first.errors := located_fromColumn
    refine List.forall_mem_append.2 ⟨fun token ht => ?_, fun token ht => ?_⟩
    · obtain ⟨-, before, behind, htext, -⟩ := hfirst.token token ht
      exact ⟨text, List.mem_cons_self, before, behind, htext.symm⟩
    · obtain ⟨line, hline, hin⟩ := ih token ht
      exact ⟨line, List.mem_cons_of_mem _ hline, hin⟩

/-- The tokens of lines that are numbered from `line` on are in the order of their places. -/
theorem places_ofLines {comment : Option Place} {last : Option TokenKind}
    {lines : List (List Char)} : let tokens := (ofLines line comment last lines).tokens
    (∀ token ∈ tokens, line ≤ token.place.line) ∧
      tokens.Pairwise fun token later => token.place.IsUpTo later.place := by
  induction lines generalizing line comment last with
  | nil => exact ⟨List.forall_mem_nil _, .nil⟩
  | cons text texts ih =>
    intro tokens
    let first := ofLine line comment last text
    have hfirst : Located line 1 text first.tokens first.errors := located_fromColumn
    obtain ⟨hlines, hlater⟩ := @ih (line + 1) first.comment (lastKind last first.tokens)
    have hline : ∀ token ∈ first.tokens, token.place.line = line :=
      fun token ht => (hfirst.token token ht).1
    constructor
    · refine List.forall_mem_append.2 ⟨fun token ht => (hline token ht).ge, fun token ht => ?_⟩
      exact Nat.le_of_succ_le (hlines token ht)
    · refine List.pairwise_append.2 ⟨?_, hlater, fun token ht later hl => .inl ?_⟩
      · refine hfirst.apart.imp_of_mem fun ht hl hapart => .inr ?_
        exact ⟨(hline _ ht).trans (hline _ hl).symm, Nat.le_of_add_right_le hapart⟩
      · rw [hline token ht]
        exact hlines later hl

/-- The tokens of a line have the texts that stand at their places, one behind the other, and
texts that their kinds allow. The errors are on the line, one behind the other. So it is
with every line, whatever is wrong there, wherever it begins and whatever came before it. -/
theorem places_are_faithful (line : Nat) (comment : Option Place) (earlier : List Token)
    (text : List Char) :
    let scanned := ofLine line comment (lastKind none earlier) text
    (∀ token ∈ scanned.tokens, token.place.line = line ∧ 1 ≤ token.place.column ∧
      token.place.column - 1 + token.text.length ≤ text.length ∧
      (text.drop (token.place.column - 1)).take token.text.length = token.text.toList) ∧
    (scanned.tokens.Pairwise fun token later =>
      token.place.column + token.text.length ≤ later.place.column) ∧
    (∀ token ∈ scanned.tokens, (token.kind ≠ .stringLiteral → Spells token.kind token.text) ∧
      (token.kind = .stringLiteral → '"' ∉ token.text.toList)) ∧
    (∀ error ∈ scanned.errors, error.place.line = line ∧ 1 ≤ error.place.column ∧
      error.place.column ≤ text.length) ∧
    scanned.errors.Pairwise fun error later => error.place.column < later.place.column := by
  intro scanned
  have h : Located line 1 text scanned.tokens scanned.errors := located_fromColumn
  refine ⟨fun token ht => ?_, h.apart, fun token ht => ⟨fun hk => ?_, ?_⟩, fun error he => ?_,
    h.increasing⟩
  · obtain ⟨hline, hstands⟩ := h.token token ht
    have hb := h.bounds ht
    have htake := hstands.take_drop
    rw [String.length_toList] at htake
    exact ⟨hline, hb.1, by omega, htake⟩
  · exact spells_fromColumn token ht fun h => absurd h hk
  · exact not_mem_of_fromColumn token ht
  · have hb := h.error error he
    omega

/-- Columns count characters, also behind a character that no token begins with. -/
example : (ofLine 2 none none "é \"añ\"x".toList).tokens =
    [⟨.quote, "\"", ⟨2, 3⟩⟩, ⟨.stringLiteral, "añ", ⟨2, 4⟩⟩, ⟨.quote, "\"", ⟨2, 6⟩⟩,
      ⟨.identifier, "x", ⟨2, 7⟩⟩] := by
  decide +kernel

end Scan
end BlockLang
