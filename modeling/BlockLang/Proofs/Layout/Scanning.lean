import BlockLang.Proofs.Layout
import BlockLang.Proofs.Lexeme.Validity

/-! # Scanning a layout

Scanning goes through a text from its end to its front: in front of a text that
yields some lexemes, a filler yields nothing more and a unit yields its own lexemes.
-/
namespace BlockLang.Layout
open Scan Lexeme

def Yields (result : Result) (lexemes : List (TokenKind × String)) : Prop :=
  result.tokens.map Token.lexeme = lexemes ∧ result.errors = [] ∧ result.comment = none

/-- A text yields some lexemes wherever it stands behind a token of kind `last`. -/
def Scans (last : Option TokenKind) (text : List Char)
    (lexemes : List (TokenKind × String)) : Prop :=
  ∀ line column, Yields (fromPosition line none last column text) lexemes

def ScansInComment (last : Option TokenKind) (text : List Char)
    (lexemes : List (TokenKind × String)) : Prop :=
  ∀ line column opening, Yields (fromPosition line (some opening) last column text) lexemes

variable {last : Option TokenKind} {text : List Char} {lexemes : List (TokenKind × String)}

theorem Yields.after {result : Result} {tokens : List Token} (h : Yields result lexemes) :
    Yields (result.after tokens []) (tokens.map Token.lexeme ++ lexemes) := by
  obtain ⟨ht, he, hc⟩ := h
  exact ⟨by simp [Result.after, ht], by simp [Result.after, he], hc⟩

theorem scans_nil : Scans last [] [] := by
  intro line column
  rw [fromPosition_nil]
  exact ⟨rfl, rfl, rfl⟩

theorem Scans.piece {c : Char} {cs rest : List Char} {piece : Piece}
    {unit : List (TokenKind × String)} (hn : c ≠ '\n')
    (hr : c = '\r' → cs.head? ≠ some '\n')
    (hcut : cut (last.any TokenKind.endsOperand) c (current cs) = (piece, current rest))
    (hl : later cs = later rest) (he : ∀ place, piece.errors place = [])
    (hc : ∀ place, piece.comment? place = none)
    (ht : ∀ place, (piece.tokens place).map Token.lexeme = unit)
    (h : Scans (piece.lastKind last) rest lexemes) : Scans last (c :: cs) (unit ++ lexemes) := by
  intro line column
  rw [fromPosition_piece hn hr hcut hl, he, hc, ← ht ⟨line, column⟩]
  exact (h _ _).after

/-! ## Fillers -/

theorem Scans.newline (h : Scans last text lexemes) : Scans last ('\n' :: text) lexemes := by
  intro line column
  rw [fromPosition_newline]
  exact h _ _

theorem Scans.white {c : Char} (hc : IsWhite c) (h : Scans last text lexemes) :
    Scans last (c :: text) lexemes := by
  intro line column
  by_cases hn : c = '\n'
  · subst hn
    exact h.newline _ _
  by_cases hr : c = '\r' ∧ text.head? = some '\n'
  · obtain ⟨rfl, hhead⟩ := hr
    obtain ⟨rest, rfl⟩ := List.head?_eq_some_iff.1 hhead
    rw [fromPosition_return]
    exact h _ _
  have hcut : cut (last.any TokenKind.endsOperand) c (current text) =
      (.blank c, current text) := by
    rcases hc with rfl | rfl | rfl | rfl
    · rfl
    · rfl
    · rfl
    · exact absurd rfl hn
  exact Scans.piece hn (fun hc hh => hr ⟨hc, hh⟩) hcut rfl (fun _ => rfl) (fun _ => rfl)
    (fun _ => rfl) h line column

theorem ScansInComment.newline (h : ScansInComment last text lexemes) :
    ScansInComment last ('\n' :: text) lexemes := by
  intro line column opening
  rw [fromPosition_newline]
  exact h _ _ _

/-- The end of a comment is sought character by character. -/
theorem commentEnd?_cons {column : Nat} {c : Char} (he : c = '*' → text.head? ≠ some '/') :
    commentEnd? column (c :: current text) = commentEnd? (column + 1) (current text) := by
  rw [commentEnd?.eq_def]
  split
  · rename_i heq
    obtain ⟨rfl, hrest⟩ := List.cons.inj heq
    exact absurd (head?_of_current hrest) (he rfl)
  · rename_i heq
    cases heq
    rfl
  · rename_i heq
    cases heq

theorem ScansInComment.cons {c : Char} (he : c = '*' → text.head? ≠ some '/')
    (h : ScansInComment last text lexemes) : ScansInComment last (c :: text) lexemes := by
  intro line column opening
  by_cases hn : c = '\n'
  · subst hn
    exact h.newline _ _ _
  by_cases hr : c = '\r' ∧ text.head? = some '\n'
  · obtain ⟨rfl, hhead⟩ := hr
    obtain ⟨rest, rfl⟩ := List.head?_eq_some_iff.1 hhead
    rw [fromPosition_return]
    exact h _ _ _
  have hmove : fromPosition line (some opening) last column (c :: text) =
      fromPosition line (some opening) last (column + 1) text := by
    rw [fromPosition, current_cons hn fun hc hh => hr ⟨hc, hh⟩, later_cons hn,
      fromColumn_comment, commentEnd?_cons he, ← fromColumn_comment]
    rfl
  rw [hmove]
  exact h _ _ _

theorem ScansInComment.close (h : Scans last text lexemes) :
    ScansInComment last ('*' :: '/' :: text) lexemes := by
  intro line column opening
  have hmove : fromPosition line (some opening) last column ('*' :: '/' :: text) =
      fromPosition line none last (column + 2) text := by
    rw [fromPosition, current_cons (by simp) (by simp), current_cons (by simp) (by simp),
      later_cons (by simp), later_cons (by simp), fromColumn_comment]
    rfl
  rw [hmove]
  exact h _ _

theorem ScansInComment.content {content : List Char} (hf : ¬['*', '/'] <:+: content)
    (h : Scans last text lexemes) :
    ScansInComment last (content ++ '*' :: '/' :: text) lexemes := by
  induction content with
  | nil => exact .close h
  | cons c cs ih =>
    refine .cons ?_ (ih fun hi => hf (hi.trans (List.suffix_cons c cs).isInfix))
    rintro rfl hhead
    cases cs with
    | nil => cases hhead
    | cons d ds =>
      cases hhead
      exact hf ⟨[], ds, rfl⟩

theorem Scans.blockComment (h : ScansInComment last text lexemes) :
    Scans last ('/' :: '*' :: text) lexemes := by
  intro line column
  have hcut : cut (last.any TokenKind.endsOperand) '/' (current ('*' :: text)) =
      (.commentOpening, current text) := by
    rw [current_cons (by simp) (by simp)]
    rfl
  rw [fromPosition_piece (by simp) (by simp) hcut (later_cons (by simp))]
  exact (h _ _ _).after

theorem Scans.lineComment {content : List Char} (hn : '\n' ∉ content)
    (h : Scans last text lexemes) :
    Scans last ('/' :: '/' :: (content ++ '\n' :: text)) lexemes := by
  have hcut : cut (last.any TokenKind.endsOperand) '/'
      (current ('/' :: (content ++ '\n' :: text))) =
      (.lineComment ('/' :: '/' :: current (content ++ '\n' :: text)),
        current ('\n' :: text)) := by
    rw [current_cons (by simp) (by simp)]
    rfl
  have hl : later ('/' :: (content ++ '\n' :: text)) = later ('\n' :: text) := by
    rw [later_cons (by simp), later_append hn]
  exact .piece (by simp) (by simp) hcut hl (fun _ => rfl) (fun _ => rfl) (fun _ => rfl) h.newline

theorem Scans.filler (filler : Filler) (h : Scans last text lexemes) :
    Scans last (filler.text ++ text) lexemes := by
  cases filler with
  | white c hc => exact h.white hc
  | blockComment content hf =>
    simpa [Filler.text] using Scans.blockComment (.content hf h)
  | lineComment content hn => simpa [Filler.text] using Scans.lineComment hn h

theorem Scans.fillers (fillers : List Filler) (h : Scans last text lexemes) :
    Scans last (fillers.flatMap Filler.text ++ text) lexemes := by
  induction fillers with
  | nil => exact h
  | cons filler fillers ih =>
    rw [List.flatMap_cons, List.append_assoc]
    exact ih.filler filler

theorem Scans.separator (separator : Separator) (h : Scans last text lexemes) :
    Scans last (separator.text ++ text) lexemes :=
  (h.fillers separator.others).white separator.isWhite

/-! ## Units -/

theorem Separator.stops (separator : Separator) (rest : List Char) :
    Stops (current (separator.text ++ rest)) := by
  intro c hc
  obtain ⟨cs, hcs⟩ := List.head?_eq_some_iff.1 hc
  have hhead := head?_of_current hcs
  rw [Separator.text, List.cons_append, List.head?_cons, Option.some.injEq] at hhead
  subst hhead
  rcases separator.isWhite with h | h | h | h
  · rw [h]; rfl
  · rw [h]; rfl
  · rw [h]; rfl
  · rw [Separator.text, List.cons_append, h, current_newline] at hcs
    cases hcs

theorem Continuation.stops (h : Continuation lexemes text) : Stops (current text) := by
  cases h with
  | nil => simp [Stops]
  | trailing separator => simpa using separator.stops []
  | cons separator => simpa using separator.stops _

theorem Scans.single {kind : TokenKind} {spelling : String} (hq : kind ≠ .quote)
    (hl : kind ≠ .stringLiteral) (hs : Spells kind spelling)
    (hf : Fits (last.any TokenKind.endsOperand) kind spelling) (hr : Stops (current text))
    (h : Scans (some kind) text lexemes) :
    Scans last (spelling.toList ++ text) ((kind, spelling) :: lexemes) := by
  have hn := not_mem_of_spells (.inl rfl) hl hs
  have hret := not_mem_of_spells (.inr rfl) hl hs
  rw [← String.ofList_toList (s := spelling)] at hs hf
  obtain ⟨c, cs, ht, hcut⟩ := cut_lexeme hq hl hs hf hr
  rw [ht] at hn hret ⊢
  rw [List.mem_cons, not_or] at hn hret
  have hlast : cs.getLast? ≠ some '\r' := fun h => hret.2 (List.mem_of_getLast? h)
  rw [← current_append hn.2 hlast] at hcut
  change Scans last (c :: (cs ++ text)) ([(kind, spelling)] ++ lexemes)
  refine .piece (Ne.symm hn.1) (fun h => absurd h.symm hret.1) hcut (later_append hn.2)
    (fun _ => rfl) (fun _ => rfl) (fun _ => ?_) h
  simp only [Piece.tokens, List.map_cons, List.map_nil, Token.lexeme, String.ofList_toList]

theorem Scans.quotation {content : String} (hs : Spells .stringLiteral content)
    (h : Scans (some .quote) text lexemes) :
    Scans last ('"' :: content.toList ++ ['"'] ++ text)
      ((.quote, "\"") :: (.stringLiteral, content) :: (.quote, "\"") :: lexemes) := by
  obtain ⟨hq, hn⟩ := hs
  have hend : '\n' ∉ content.toList ++ ['"'] := by simpa using hn
  have hcurrent : current (content.toList ++ ['"'] ++ text) =
      content.toList ++ ['"'] ++ current text := current_append hend (by simp)
  have hcut : cut (last.any TokenKind.endsOperand) '"'
      (current (content.toList ++ ['"'] ++ text)) =
      (.quotation content.toList, current text) := by
    rw [hcurrent, List.append_assoc]
    exact cut_quotation hq
  change Scans last ('"' :: (content.toList ++ ['"'] ++ text))
    ([(.quote, "\""), (.stringLiteral, content), (.quote, "\"")] ++ lexemes)
  refine .piece (by simp) (by simp) hcut (later_append hend) (fun _ => rfl) (fun _ => rfl)
    (fun _ => ?_) h
  simp [Piece.tokens, Token.lexeme]

theorem Scans.unit {unit : List (TokenKind × String)} {written : List Char}
    (hu : Unit unit written) (hv : Valid last (unit ++ lexemes)) (hr : Stops (current text))
    (h : ∀ next, Valid next lexemes → Scans next text lexemes) :
    Scans last (written ++ text) (unit ++ lexemes) := by
  cases hu with
  | single hq hl =>
    cases hv with
    | single _ _ hs hf hv => exact .single hq hl hs hf hr (h _ hv)
    | quotation => exact absurd rfl hq
  | quotation =>
    cases hv with
    | single hq => exact absurd rfl hq
    | quotation hs hv => exact .quotation hs (h _ hv)

theorem Scans.continuation (hc : Continuation lexemes text) (hv : Valid last lexemes) :
    Scans last text lexemes := by
  induction hc generalizing last with
  | nil => exact scans_nil
  | trailing separator => simpa using scans_nil.separator separator
  | cons separator hu hrest ih =>
    rw [List.append_assoc]
    exact .separator separator (.unit hu hv hrest.stops fun _ => ih)

theorem Scans.rendering (hr : Rendering lexemes text) (hv : Valid last lexemes) :
    Scans last text lexemes := by
  cases hr with
  | nil leading => simpa using scans_nil.fillers leading
  | cons leading hu hrest =>
    rw [List.append_assoc]
    exact .fillers leading (.unit hu hv hrest.stops fun _ => .continuation hrest)

/-- Valid lexemes can be written down, with a blank between units. -/
theorem exists_continuation (hv : Valid last lexemes) : ∃ text, Continuation lexemes text := by
  induction hv with
  | nil => exact ⟨_, .nil⟩
  | single hq hl _ _ _ ih =>
    obtain ⟨rest, hrest⟩ := ih
    exact ⟨_, .cons ⟨' ', .inl rfl, []⟩ (.single hq hl) hrest⟩
  | quotation _ _ ih =>
    obtain ⟨rest, hrest⟩ := ih
    exact ⟨_, .cons ⟨' ', .inl rfl, []⟩ .quotation hrest⟩

theorem exists_rendering (hv : Valid last lexemes) : ∃ text, Rendering lexemes text := by
  obtain ⟨text, h⟩ := exists_continuation hv
  cases h with
  | nil => exact ⟨_, .nil []⟩
  | trailing separator => exact ⟨_, .nil []⟩
  | cons separator hu hrest => exact ⟨_, .cons [] hu hrest⟩

theorem ofText_of_scans (h : Scans none text lexemes) :
    (ofText (String.ofList text)).1.map Token.lexeme = lexemes ∧
      (ofText (String.ofList text)).2 = [] := by
  obtain ⟨ht, he, hc⟩ := h 1 1
  rw [ofText, String.toList_ofList, ofLines_linesOf, hc, he]
  exact ⟨ht, rfl⟩

/-- Valid lexemes can be written down, and scanning any text in which they are written down
gives them back without an error. The lexemes of a text are valid just if no string of the
text lacks its end. -/
theorem scanning_undoes_rendering :
    (∀ lexemes, Valid none lexemes → (∃ text, Rendering lexemes text) ∧
      ∀ text, Rendering lexemes text →
        (ofText (String.ofList text)).1.map Token.lexeme = lexemes ∧
          (ofText (String.ofList text)).2 = []) ∧
    ∀ text, Valid none ((ofText text).1.map Token.lexeme) ↔
      ∀ error ∈ (ofText text).2, error.cause.kind ≠ .unterminatedString :=
  ⟨fun _ hv => ⟨exists_rendering hv, fun _ hr => ofText_of_scans (.rendering hr hv)⟩,
    fun _ => valid_ofText_iff⟩

theorem scanning_undoes_rendering_difference :
    (ofText "a - //-\n1").1.map Token.lexeme =
        [(.identifier, "a"), (.minus, "-"), (.intLiteral, "1")] ∧
      (ofText "a - //-\n1").2 = [] := by
  have ha : Spells .identifier "a" := ⟨.inl ⟨'a', rfl, rfl⟩, by decide⟩
  have hone : Spells .intLiteral "1" :=
    ⟨⟨[], ['1'], rfl, .inl rfl, .inr ⟨'1', [], rfl, rfl, by decide, by simp⟩⟩, by decide⟩
  have hv : Valid none [(.identifier, "a"), (.minus, "-"), (.intLiteral, "1")] :=
    .single (by decide) (by decide) ha (by simp [Fits])
      (.single (by decide) (by decide) (.of_spelling? rfl) (by simp [Fits]; rfl)
        (.single (by decide) (by decide) hone (by simp [Fits]) .nil))
  have hr : Rendering ([(.identifier, "a")] ++ ([(.minus, "-")] ++ ([(.intLiteral, "1")] ++ [])))
      "a - //-\n1".toList :=
    .cons [] (.single (by decide) (by decide))
      (.cons ⟨' ', .inl rfl, []⟩ (.single (by decide) (by decide))
        (.cons ⟨' ', .inl rfl, [.lineComment ['-'] (by decide)]⟩
          (.single (by decide) (by decide)) .nil))
  exact (scanning_undoes_rendering.1 _ hv).2 _ hr

end BlockLang.Layout
