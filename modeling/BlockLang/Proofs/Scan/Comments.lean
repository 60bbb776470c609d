import BlockLang.Proofs.Lexeme.Pieces
import BlockLang.Proofs.Scan.Position

/-! # Comments

Where comments begin and end can be told without any tokens. A plain machine goes over the
characters of a line, knows nothing of numbers, words or operators, and hands on no more
than the place of an open comment. The scanner is in step with it on every line, whatever
is wrong there.
-/
namespace BlockLang.Scan

inductive Mode where
  | program
  | string
  | comment (opening : Place)

namespace Mode

def ofComment : Option Place → Mode
  | none => .program
  | some opening => .comment opening

/-- The comment that is open at the end of a line, of which a text is left from a column on. -/
def openAfter (line : Nat) : Mode → (column : Nat) → (text : List Char) → Option Place
  | .program, _, '/' :: '/' :: _ => none
  | .program, column, '/' :: '*' :: text =>
    openAfter line (.comment ⟨line, column⟩) (column + 2) text
  | .program, column, '*' :: '/' :: text => openAfter line .program (column + 2) text
  | .program, column, '"' :: text => openAfter line .string (column + 1) text
  | .program, column, _ :: text => openAfter line .program (column + 1) text
  | .program, _, [] => none
  | .string, column, '"' :: text => openAfter line .program (column + 1) text
  | .string, column, _ :: text => openAfter line .string (column + 1) text
  | .string, _, [] => none
  | .comment _, column, '*' :: '/' :: text => openAfter line .program (column + 2) text
  | .comment opening, column, _ :: text => openAfter line (.comment opening) (column + 1) text
  | .comment opening, _, [] => some opening

end Mode

def openAfterLine (line : Nat) (comment : Option Place) (text : List Char) : Option Place :=
  (Mode.ofComment comment).openAfter line 1 text

def openAfterLines (line : Nat) (comment : Option Place) : List (List Char) → Option Place
  | [] => comment
  | text :: texts => openAfterLines (line + 1) (openAfterLine line comment text) texts

namespace Mode

variable {line column : Nat} {c : Char} {text : List Char}

/-- A character that neither begins nor ends anything. -/
def IsPlain (c : Char) : Prop :=
  c ≠ '/' ∧ c ≠ '*' ∧ c ≠ '"'

/-- A character is passed over unless a comment or a string begins with it, or a stray `*/`. -/
theorem openAfter_cons (hl : ∀ rest, c = '/' → text ≠ '/' :: rest)
    (ho : ∀ rest, c = '/' → text ≠ '*' :: rest) (hc : ∀ rest, c = '*' → text ≠ '/' :: rest)
    (hq : c ≠ '"') :
    openAfter line .program column (c :: text) = openAfter line .program (column + 1) text := by
  rw [openAfter]
  · exact hl
  · exact ho
  · exact hc
  · exact hq

theorem openAfter_plain (h : IsPlain c) :
    openAfter line .program column (c :: text) = openAfter line .program (column + 1) text :=
  openAfter_cons (fun _ hc => absurd hc h.1) (fun _ hc => absurd hc h.1)
    (fun _ hc => absurd hc h.2.1) h.2.2

theorem openAfter_run {run : List Char} (h : ∀ c ∈ run, IsPlain c) :
    openAfter line .program column (run ++ text) =
      openAfter line .program (column + run.length) text := by
  induction run generalizing column with
  | nil => rfl
  | cons c cs ih =>
    rw [List.forall_mem_cons] at h
    rw [List.cons_append, openAfter_plain h.1, ih h.2, List.length_cons, Nat.add_right_comm]
    rfl

/-- A string hides everything before the quote that ends it. -/
theorem openAfter_hidden {content : List Char} (h : ∀ c ∈ content, (c != '"') = true) :
    openAfter line .string column (content ++ text) =
      openAfter line .string (column + content.length) text := by
  induction content generalizing column with
  | nil => rfl
  | cons c cs ih =>
    rw [List.forall_mem_cons] at h
    rw [List.cons_append, openAfter, ih h.2, List.length_cons, Nat.add_right_comm]
    · rfl
    · exact bne_iff_ne.1 h.1

theorem openAfter_comment {opening : Place} : openAfter line (.comment opening) column text =
    match commentEnd? column text with
    | none => some opening
    | some (next, rest) => openAfter line .program next rest := by
  fun_induction commentEnd? column text with
  | case1 => rfl
  | case2 column c rest hend ih =>
    rw [openAfter, ih]
    exact hend
  | case3 => rfl

/-- A line of which nothing is left ends as the mode says. -/
theorem openAfter_nil (comment : Option Place) :
    openAfter line (.ofComment comment) column [] = comment := by
  cases comment <;> rfl

end Mode

/-! ## Pieces -/

open Mode

/-- Going over a piece and on from behind it is going over the text from which it was cut off. -/
def InStep (line column : Nat) (text : List Char) (cut : Piece × List Char) : Prop :=
  openAfter line .program column text =
    openAfter line (.ofComment (cut.1.comment? ⟨line, column⟩)) (column + cut.1.text.length) cut.2

variable {line column : Nat} {afterValue : Bool} {c : Char} {text : List Char}

theorem isPlain_of_isNumberChar (h : isNumberChar c) : IsPlain c := by
  refine ⟨?_, ?_, ?_⟩ <;> rintro rfl <;> cases h

theorem isPlain_of_isWordChar (h : isWordChar c) : IsPlain c :=
  isPlain_of_isNumberChar (by simp [isNumberChar, h])

theorem word_comment? (text : List Char) (place : Place) : (word text).comment? place = none := by
  unfold word
  split
  · rfl
  · split <;> rfl

theorem number_comment? (text : List Char) (place : Place) :
    (number text).comment? place = none := by
  unfold number
  split
  · split <;> rfl
  · split <;> rfl

/-- A run in which nothing begins or ends is passed over. -/
theorem inStep_run {piece : Piece} {p : Char → Bool} (hc : IsPlain c) (hp : ∀ d, p d → IsPlain d)
    (ht : piece.text = c :: text.takeWhile p) (ho : piece.comment? ⟨line, column⟩ = none) :
    InStep line column (c :: text) (piece, text.dropWhile p) := by
  have hrun : ∀ d ∈ piece.text, IsPlain d := by
    rw [ht]
    exact List.forall_mem_cons.2 ⟨hc, fun d hd => hp d (List.mem_takeWhile_imp hd)⟩
  have htext : c :: text = piece.text ++ text.dropWhile p := by
    rw [ht, List.cons_append, List.takeWhile_append_dropWhile]
  rw [InStep, ho, htext]
  exact openAfter_run hrun

theorem inStep_quoted : InStep line column ('"' :: text) (quoted text) := by
  have hcontent : ∀ c ∈ text.takeWhile (· != '"'), (c != '"') = true :=
    fun c hc => by simpa using List.mem_takeWhile_imp hc
  have hstop := List.head?_dropWhile_not (· != '"') text
  have hbegun : openAfter line .program column ('"' :: text) =
      openAfter line .string (column + 1 + (text.takeWhile (· != '"')).length)
        (text.dropWhile (· != '"')) := by
    rw [← openAfter_hidden hcontent, List.takeWhile_append_dropWhile]
    rfl
  rw [InStep, hbegun]
  unfold quoted
  split
  · rename_i hdrop
    rw [hdrop]
    exact (openAfter_nil none).symm
  · rename_i d rest hdrop
    rw [hdrop] at hstop ⊢
    obtain rfl : d = '"' := by simpa using hstop
    have hlength : (Piece.quotation (text.takeWhile (· != '"'))).text.length =
        1 + (text.takeWhile (· != '"')).length + 1 := by
      simp [Piece.text, Nat.add_comm]
    rw [hlength, openAfter, ← Nat.add_assoc, ← Nat.add_assoc]
    rfl

theorem inStep_dash : InStep line column ('-' :: text) (dash afterValue text) := by
  unfold dash
  split
  · rfl
  · split
    · exact inStep_run (by simp [IsPlain]) (fun _ => isPlain_of_isNumberChar) (number_text _)
        (number_comment? _ _)
    · rfl

/-- Maximal munch hides nothing from the machine: all that it looks for begins a piece. -/
theorem inStep_cut : InStep line column (c :: text) (cut afterValue c text) := by
  unfold cut
  split
  · rfl
  · rfl
  · rfl
  · rfl
  · rfl
  · exact inStep_quoted
  · exact inStep_dash
  · rename_i hq _ hl ho hc _ _
    have hone : openAfter line .program column (c :: text) =
        openAfter line .program (column + 1) text := openAfter_cons hl ho hc hq
    split
    · exact hone
    · split
      · rename_i hd
        have hnumber := isNumberChar_of_isDigit hd
        exact inStep_run (isPlain_of_isNumberChar hnumber) (fun _ => isPlain_of_isNumberChar)
          (number_text _) (number_comment? _ _)
      · split
        · rename_i hw
          exact inStep_run (isPlain_of_isWordChar hw) (fun _ => isPlain_of_isWordChar)
            (word_text _) (word_comment? _ _)
        · split <;> exact hone

/-! ## Lines and texts -/

variable {comment : Option Place} {last : Option TokenKind}

theorem comment_fromColumn : (fromColumn line comment last column text).comment =
    (Mode.ofComment comment).openAfter line column text := by
  fun_induction fromColumn line comment last column text with
  | case1 last column text opening hend =>
    exact (openAfter_comment.trans (by rw [hend])).symm
  | case2 last column text opening next rest hend ih =>
    exact ih.trans (openAfter_comment.trans (by rw [hend]; rfl)).symm
  | case3 => rfl
  | case4 last column c cs place first ih =>
    exact ih.trans inStep_cut.symm

theorem comment_ofLine : (ofLine line comment last text).comment =
    openAfterLine line comment text :=
  comment_fromColumn

theorem comment_ofLines {texts : List (List Char)} : (ofLines line comment last texts).comment =
    openAfterLines line comment texts := by
  induction texts generalizing line comment last with
  | nil => rfl
  | cons text texts ih =>
    rw [openAfterLines, ← comment_ofLine]
    exact ih

/-! ## Reports -/

def NoneOpen (errors : List LexicalError) : Prop :=
  ∀ error ∈ errors, error.cause.kind ≠ .unterminatedComment

theorem noneOpen_singleton {error : LexicalError}
    (h : (error.cause.kind == .unterminatedComment) = false) : NoneOpen [error] :=
  List.forall_mem_singleton.2 (ne_of_beq_false h)

theorem noneOpen_word (text : List Char) (place : Place) :
    NoneOpen ((word text).errors place) := by
  unfold word
  split
  · exact List.forall_mem_nil _
  · split
    · exact List.forall_mem_nil _
    · exact noneOpen_singleton rfl

theorem noneOpen_number (text : List Char) (place : Place) :
    NoneOpen ((number text).errors place) := by
  unfold number
  split
  · split
    · exact List.forall_mem_nil _
    · exact noneOpen_singleton rfl
  · split
    · exact List.forall_mem_nil _
    · exact noneOpen_singleton rfl

theorem noneOpen_cut (c : Char) (text : List Char) (place : Place) :
    NoneOpen ((cut afterValue c text).1.errors place) := by
  unfold cut
  split
  · exact List.forall_mem_nil _
  · exact List.forall_mem_nil _
  · exact noneOpen_singleton rfl
  · exact List.forall_mem_nil _
  · exact List.forall_mem_nil _
  · unfold quoted
    split
    · exact noneOpen_singleton rfl
    · exact List.forall_mem_nil _
  · unfold dash
    split
    · exact List.forall_mem_nil _
    · split
      · exact noneOpen_number _ _
      · exact noneOpen_singleton rfl
  · split
    · exact List.forall_mem_nil _
    · split
      · exact noneOpen_number _ _
      · split
        · exact noneOpen_word _ _
        · split
          · exact List.forall_mem_nil _
          · exact noneOpen_singleton rfl

theorem noneOpen_fromColumn : NoneOpen (fromColumn line comment last column text).errors := by
  fun_induction fromColumn line comment last column text with
  | case1 => exact List.forall_mem_nil _
  | case2 _ _ _ _ _ _ _ ih => exact ih
  | case3 => exact List.forall_mem_nil _
  | case4 last column c cs place first ih =>
    exact List.forall_mem_append.2 ⟨noneOpen_cut c cs place, ih⟩

theorem noneOpen_ofLines {texts : List (List Char)} :
    NoneOpen (ofLines line comment last texts).errors := by
  induction texts generalizing line comment last with
  | nil => exact List.forall_mem_nil _
  | cons text texts ih => exact List.forall_mem_append.2 ⟨noneOpen_fromColumn, ih⟩

/-- The scanner is in step with the machine: it hands on the same comment after each line, wherever
it begins, and after all lines of a text. A comment that is open in the end is reported once, as the
last error and at its opening, and otherwise no error of this kind is reported. -/
theorem comments_in_step :
    (∀ (line : Nat) (comment : Option Place) (last : Option TokenKind) (text : List Char),
      (ofLine line comment last text).comment = openAfterLine line comment text) ∧
    (∀ (line : Nat) (comment : Option Place) (last : Option TokenKind) (texts : List (List Char)),
      (ofLines line comment last texts).comment = openAfterLines line comment texts) ∧
    ∀ text : String,
      let errors := (ofText text).2
      let reported : List LexicalError :=
        (openAfterLines 1 none (linesOf text.toList)).toList.map (⟨.unclosedComment, ·⟩)
      reported <:+ errors ∧
        errors.filter (fun error => error.cause.kind = .unterminatedComment) = reported := by
  refine ⟨fun _ _ _ _ => comment_ofLine, fun _ _ _ _ => comment_ofLines, fun text => ?_⟩
  intro errors reported
  have herrors : errors = (ofLines 1 none none (linesOf text.toList)).errors ++ reported := by
    simp only [errors, reported, ofText, comment_ofLines]
  have hnone : (ofLines 1 none none (linesOf text.toList)).errors.filter
      (fun error => error.cause.kind = .unterminatedComment) = [] := by
    rw [List.filter_eq_nil_iff]
    intro error he
    simpa using noneOpen_ofLines error he
  have hall : reported.filter (fun error => error.cause.kind = .unterminatedComment) =
      reported := by
    rw [List.filter_eq_self]
    intro error he
    obtain ⟨place, -, rfl⟩ := List.mem_map.1 he
    rfl
  rw [herrors, List.filter_append, hnone, hall]
  exact ⟨List.suffix_append _ _, rfl⟩

/-- A string and a stray `*/` hide what would open a comment, and `/*/` does not close its own. -/
example : openAfterLines 1 none ["\"/*\" */* 1 /*/".toList, "x".toList] = some ⟨1, 12⟩ := by
  decide

end BlockLang.Scan
