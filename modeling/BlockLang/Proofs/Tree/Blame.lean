import BlockLang.Proofs.Scan.Spans
import BlockLang.Proofs.Tree.Procedures

/-! # Blamed tokens

A failure is blamed on the token before the cursor or on the one behind it, and the cursor only
moves on. So each error of a text has the place of one of its tokens, and a later error never
that of an earlier token, because a tree is built by recording errors at cursors that are passed
one after the other.
-/
namespace BlockLang

namespace Cursor

variable {start next : Cursor} {tokens : List Token}

def BlamesLast (c : Cursor) : Prop :=
  match c.rest, c.last with
  | next :: _, some last => next.line ≠ last.line
  | _ :: _, none => False
  | [], _ => True

instance (c : Cursor) : Decidable c.BlamesLast := by
  unfold BlamesLast
  split <;> infer_instance

/-- The number of the token that a failure is blamed on, among all tokens. -/
def mark (tokens : List Token) (c : Cursor) : Nat :=
  tokens.length - c.rest.length - if c.BlamesLast then 1 else 0

theorem mark_le_mark (h : start.Reaches next) : start.mark tokens ≤ next.mark tokens := by
  obtain ⟨read, hrest, hlast⟩ := h
  cases read with
  | nil =>
    have heq : start = next := by
      obtain ⟨startLast, startRest⟩ := start
      obtain ⟨nextLast, nextRest⟩ := next
      obtain rfl : startRest = nextRest := hrest
      obtain rfl : nextLast = startLast := hlast
      rfl
    rw [heq]
  | cons token read =>
    have hlength := congrArg List.length hrest
    rw [List.length_append, List.length_cons] at hlength
    unfold mark
    split <;> split <;> omega

/-- Before a cursor in a text is nothing at its beginning, and else the token that was read last. -/
theorem reaches_none_iff {last : Option Token} {rest : List Token} :
    Reaches ⟨none, tokens⟩ ⟨last, rest⟩ ↔ last = none ∧ tokens = rest ∨
      ∃ read token, last = some token ∧ tokens = read ++ token :: rest := by
  constructor
  · rintro ⟨read, hrest, hlast⟩
    obtain rfl | ⟨before, token, rfl⟩ := List.eq_nil_or_concat read
    · exact .inl ⟨hlast, hrest⟩
    · refine .inr ⟨before, token, by simpa using hlast, ?_⟩
      simpa using hrest
  · rintro (⟨rfl, rfl⟩ | ⟨read, token, rfl, rfl⟩)
    · exact .refl _
    · exact ⟨read ++ [token], by simp, by simp⟩

theorem getElem?_mark {c : Cursor} (h : Reaches ⟨none, tokens⟩ c) (hne : tokens ≠ []) :
    ∃ token, tokens[c.mark tokens]? = some token ∧ token.place = c.blame := by
  obtain ⟨last, rest⟩ := c
  obtain ⟨rfl, rfl⟩ | ⟨read, token, rfl, rfl⟩ := reaches_none_iff.1 h
  · cases tokens with
    | nil => exact absurd rfl hne
    | cons next rest => exact ⟨next, by simp [mark, BlamesLast], rfl⟩
  · cases rest with
    | nil => exact ⟨token, by simp [mark, BlamesLast], rfl⟩
    | cons next rest =>
      by_cases hl : next.line = token.line
      · refine ⟨next, ?_, by simp [blame, hl]⟩
        have hmark : mark (read ++ token :: next :: rest) ⟨some token, next :: rest⟩ =
            read.length + 1 := by
          simp [mark, BlamesLast, hl]
          omega
        rw [hmark, List.getElem?_append_right (Nat.le_succ _)]
        simp
      · refine ⟨token, ?_, by simp [blame, hl]⟩
        have hmark : mark (read ++ token :: next :: rest) ⟨some token, next :: rest⟩ =
            read.length := by
          simp [mark, BlamesLast, hl]
          omega
        rw [hmark, List.getElem?_append_right (Nat.le_refl _)]
        simp

end Cursor

/-- Errors that are recorded on the way have the places of tokens between two marks. -/
theorem Built.exists_marks {tokens : List Token} {s t : Stretch} (h : Built tokens s t)
    (hs : Cursor.Reaches ⟨none, tokens⟩ s.start) (hne : tokens ≠ []) :
    ∃ marks : List (Fin tokens.length),
      s.errors.map SyntaxError.place = (marks.map fun mark => tokens[mark].place) ∧
        marks.Pairwise (· ≤ ·) ∧
        ∀ mark ∈ marks, s.start.mark tokens ≤ mark ∧ mark ≤ s.next.mark tokens := by
  induction h with
  | quiet => exact ⟨[], rfl, .nil, List.forall_mem_nil _⟩
  | @append c _ between _ next _ _ _ _ _ _ _ _ _ h hl ih ihl =>
    have hbetween : c.Reaches between := h.reaches
    have hnext : between.Reaches next := hl.reaches
    obtain ⟨marks, hmap, hup, hbounds⟩ := ih hs
    obtain ⟨more, hmore, hmup, hmbounds⟩ := ihl (hs.trans hbetween)
    refine ⟨marks ++ more, ?_, ?_, ?_⟩
    · rw [List.map_append, List.map_append, hmap, hmore]
    · refine List.pairwise_append.2 ⟨hup, hmup, fun mark hm later hlater => ?_⟩
      exact (hbounds mark hm).2.trans (hmbounds later hlater).1
    · refine List.forall_mem_append.2 ⟨fun mark hm => ?_, fun mark hm => ?_⟩
      · exact ⟨(hbounds mark hm).1, (hbounds mark hm).2.trans (Cursor.mark_le_mark hnext)⟩
      · exact ⟨(Cursor.mark_le_mark hbetween).trans (hmbounds mark hm).1, (hmbounds mark hm).2⟩
  | node _ _ ih => exact ih hs
  | @failure c _ next _ cause _ _ errors _ _ h ih =>
    have hnext : c.Reaches next := h.reaches
    obtain ⟨marks, hmap, hup, hbounds⟩ := ih hs
    obtain ⟨token, hm, hp⟩ := Cursor.getElem?_mark (hs.trans hnext) hne
    obtain ⟨hlt, ht⟩ := List.getElem?_eq_some_iff.1 hm
    refine ⟨marks ++ [⟨next.mark tokens, hlt⟩], ?_, ?_, ?_⟩
    · have hplace : tokens[next.mark tokens].place = next.blame := by rw [ht, hp]
      rw [List.map_append, List.map_append, hmap]
      simp [hplace]
    · refine List.pairwise_append.2 ⟨hup, List.pairwise_singleton _ _, fun mark hm => ?_⟩
      exact List.forall_mem_singleton.2 (hbounds mark hm).2
    · refine List.forall_mem_append.2 ⟨hbounds, List.forall_mem_singleton.2 ?_⟩
      exact ⟨Cursor.mark_le_mark hnext, Nat.le_refl _⟩

namespace Parse

theorem exists_marks_program (tokens : List Token) : ∃ marks : List (Fin tokens.length),
    (program tokens).2.map SyntaxError.place = (marks.map fun mark => tokens[mark].place) ∧
      marks.Pairwise (· ≤ ·) := by
  by_cases hne : tokens = []
  · subst hne
    refine ⟨[], ?_, .nil⟩
    rw [program, statements]
    rfl
  · obtain ⟨marks, hmap, hup, -⟩ :=
      (built_program (Token.alike_self tokens)).exists_marks (.refl _) hne
    exact ⟨marks, hmap, hup⟩

/-- Each error of a list of tokens has the place of one of them, and that of a later error is no
earlier token. So the errors of a text come in the order of their places. -/
theorem errors_are_at_tokens :
    (∀ tokens : List Token, ∃ marks : List (Fin tokens.length),
      (program tokens).2.map SyntaxError.place = (marks.map fun mark => tokens[mark].place) ∧
        marks.Pairwise (· ≤ ·)) ∧
    ∀ text : String, (program (Scan.ofText text).1).2.Pairwise fun error later =>
      error.place.IsUpTo later.place := by
  refine ⟨exists_marks_program, fun text => ?_⟩
  have hplaces : (Scan.ofText text).1.Pairwise fun token later => token.place.IsUpTo later.place :=
    Scan.places_ofLines.2
  obtain ⟨marks, hmap, hup⟩ := exists_marks_program (Scan.ofText text).1
  rw [← List.pairwise_map (R := Place.IsUpTo) (f := SyntaxError.place), hmap, List.pairwise_map]
  refine hup.imp fun {mark later} hle => ?_
  obtain heq | hlt := Nat.eq_or_lt_of_le hle
  · rw [Fin.ext heq]
    exact .inr ⟨rfl, Nat.le_refl _⟩
  · exact List.pairwise_iff_getElem.1 hplaces mark later mark.2 later.2 hlt

end Parse
end BlockLang
