import BlockLang.Token.Scan
import Mathlib.Data.List.Induction

/-! # Scanning from the middle of a line

Scanning goes line by line. Here it goes on from any place of a whole text: the rest
of the current line is scanned, and then the lines after it.
-/
namespace BlockLang.Scan

/-- The rest of the current line. -/
def current : List Char → List Char
  | [] => []
  | '\n' :: _ => []
  | '\r' :: '\n' :: _ => []
  | c :: cs => c :: current cs

def later : List Char → List (List Char)
  | [] => []
  | '\n' :: cs => linesOf cs
  | _ :: cs => later cs

@[simp] theorem current_nil : current [] = [] := rfl

@[simp] theorem later_nil : later [] = [] := rfl

@[simp] theorem current_newline (text : List Char) : current ('\n' :: text) = [] := rfl

@[simp] theorem later_newline (text : List Char) : later ('\n' :: text) = linesOf text := rfl

theorem current_cons {c : Char} {text : List Char} (hn : c ≠ '\n')
    (hr : c = '\r' → text.head? ≠ some '\n') : current (c :: text) = c :: current text := by
  rw [current.eq_def]
  split
  · rename_i h
    cases h
  · rename_i h
    cases h
    exact absurd rfl hn
  · rename_i h
    cases h
    exact absurd rfl (hr rfl)
  · rename_i h
    cases h
    rfl

theorem head?_of_current {c : Char} {cs text : List Char} (h : current text = c :: cs) :
    text.head? = some c := by
  unfold current at h
  split at h <;> cases h
  rfl

theorem later_cons {c : Char} {text : List Char} (hn : c ≠ '\n') :
    later (c :: text) = later text := by
  rw [later.eq_def]
  split
  · rename_i h
    cases h
  · rename_i h
    cases h
    exact absurd rfl hn
  · rename_i h
    cases h
    rfl

theorem current_append {run text : List Char} (hn : '\n' ∉ run)
    (hl : run.getLast? ≠ some '\r') : current (run ++ text) = run ++ current text := by
  induction run with
  | nil => rfl
  | cons c cs ih =>
    rw [List.mem_cons, not_or] at hn
    cases cs with
    | nil =>
      refine current_cons (Ne.symm hn.1) fun h => ?_
      subst h
      exact absurd rfl hl
    | cons d ds =>
      rw [List.getLast?_cons_cons] at hl
      have hd : c = '\r' → (d :: ds ++ text).head? ≠ some '\n' := by
        rintro - h
        cases h
        exact hn.2 (by simp)
      rw [List.cons_append, current_cons (Ne.symm hn.1) hd, ih hn.2 hl]
      rfl

theorem later_append {run text : List Char} (hn : '\n' ∉ run) :
    later (run ++ text) = later text := by
  induction run with
  | nil => rfl
  | cons c cs ih =>
    rw [List.mem_cons, not_or] at hn
    rw [List.cons_append, later_cons (Ne.symm hn.1), ih hn.2]

theorem linesFrom_eq {reversed text : List Char} (h : reversed ≠ [] ∨ text ≠ [])
    (hc : reversed.head? = some '\r' → text.head? ≠ some '\n') :
    linesFrom reversed text = (reversed.reverse ++ current text) :: later text := by
  induction text generalizing reversed with
  | nil =>
    cases reversed with
    | nil => simp at h
    | cons => simp [linesFrom]
  | cons c cs ih =>
    by_cases hn : c = '\n'
    · subst hn
      rw [linesFrom, chomp.eq_def]
      split
      · exact absurd rfl (hc rfl)
      · simp [linesOf]
    · rw [linesFrom.eq_def, later_cons hn]
      split
      · rename_i heq
        cases heq
      · rename_i heq
        cases heq
        exact absurd rfl hn
      · rename_i heq
        cases heq
        by_cases hr : c = '\r' ∧ cs.head? = some '\n'
        · obtain ⟨rfl, hhead⟩ := hr
          obtain ⟨tail, rfl⟩ := List.head?_eq_some_iff.1 hhead
          simp [linesFrom, chomp, current, linesOf]
        · rw [ih (.inl (by simp)) fun h hh => hr ⟨by simpa using h, hh⟩,
            current_cons hn fun h hh => hr ⟨h, hh⟩]
          simp

def fromPosition (line : Nat) (comment : Option Place) (last : Option TokenKind) (column : Nat)
    (text : List Char) : Result :=
  let first := fromColumn line comment last column (current text)
  (ofLines (line + 1) first.comment (lastKind last first.tokens) (later text)).after
    first.tokens first.errors

variable {line column : Nat} {comment : Option Place} {last : Option TokenKind}
  {text : List Char}

@[simp] theorem fromColumn_nil : fromColumn line comment last column [] = ⟨[], [], comment⟩ := by
  cases comment with
  | none => simp [fromColumn]
  | some opening =>
    rw [fromColumn]
    split
    · rfl
    · rename_i h
      cases h

theorem fromColumn_comment (opening : Place) : fromColumn line (some opening) last column text =
    match commentEnd? column text with
    | none => ⟨[], [], some opening⟩
    | some (next, rest) => fromColumn line none last next rest := by
  rw [fromColumn]
  split <;> simp [*]

@[simp] theorem lastKind_nil : lastKind last [] = last := rfl

theorem fromPosition_nil : fromPosition line comment last column [] = ⟨[], [], comment⟩ := by
  simp [fromPosition, ofLines, Result.after]

theorem ofLines_linesOf :
    ofLines line comment last (linesOf text) = fromPosition line comment last 1 text := by
  cases text with
  | nil => rw [fromPosition_nil]; rfl
  | cons c cs =>
    rw [linesOf, linesFrom_eq (.inr (by simp)) (by simp)]
    rfl

theorem fromPosition_newline : fromPosition line comment last column ('\n' :: text) =
    fromPosition (line + 1) comment last 1 text := by
  rw [← ofLines_linesOf]
  simp [fromPosition, Result.after]

/-- A carriage return before a newline belongs to the end of the line. -/
theorem fromPosition_return : fromPosition line comment last column ('\r' :: '\n' :: text) =
    fromPosition line comment last column ('\n' :: text) := rfl

theorem lastKind_append {xs ys : List Token} :
    lastKind last (xs ++ ys) = lastKind (lastKind last xs) ys := by
  cases ys using List.reverseRecOn with
  | nil => simp
  | append_singleton => simp [lastKind]

theorem lastKind_tokens (piece : Piece) (place : Place) :
    lastKind last (piece.tokens place) = piece.lastKind last := by
  cases piece <;> rfl

theorem after_after (tokens others : List Token) (errors faults : List LexicalError)
    (result : Result) : (result.after others faults).after tokens errors =
      result.after (tokens ++ others) (errors ++ faults) := by
  simp [Result.after]

theorem fromColumn_cons (c : Char) (cs : List Char) :
    let place : Place := ⟨line, column⟩
    let first := cut (last.any TokenKind.endsOperand) c cs
    fromColumn line none last column (c :: cs) =
      (fromColumn line (first.1.comment? place) (first.1.lastKind last)
        (column + first.1.text.length) first.2).after (first.1.tokens place)
        (first.1.errors place) := by
  rw [fromColumn]

/-- A piece that ends in the current line is cut off a text. -/
theorem fromPosition_piece {c : Char} {cs rest : List Char} {piece : Piece} (hn : c ≠ '\n')
    (hr : c = '\r' → cs.head? ≠ some '\n')
    (hcut : cut (last.any TokenKind.endsOperand) c (current cs) = (piece, current rest))
    (hl : later cs = later rest) :
    fromPosition line none last column (c :: cs) =
      (fromPosition line (piece.comment? ⟨line, column⟩) (piece.lastKind last)
        (column + piece.text.length) rest).after (piece.tokens ⟨line, column⟩)
        (piece.errors ⟨line, column⟩) := by
  simp only [fromPosition]
  rw [current_cons hn hr, later_cons hn, hl, fromColumn_cons, hcut, after_after]
  simp only [Result.after, lastKind_append, lastKind_tokens]

end BlockLang.Scan
