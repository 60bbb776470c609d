import BlockLang.Proofs.Scan.Comments

/-! # Stripped lines

What a line says can be told without any tokens: its comments are left out, and so are the
blanks outside of strings. The texts of the tokens of a line are just this, one after the
other, unless there is something to report. So the scanner passes over nothing but blanks
and comments without saying so.
-/
namespace BlockLang.Scan

mutual

/-- A line without its comments and, outside of strings, without its blanks. -/
def stripped : List Char → List Char
  | '/' :: '/' :: _ => []
  | '/' :: '*' :: text => strippedComment text
  | '"' :: text => '"' :: strippedString text
  | c :: text => if c ∈ [' ', '\t', '\r'] then stripped text else c :: stripped text
  | [] => []

def strippedString : List Char → List Char
  | '"' :: text => '"' :: stripped text
  | c :: text => c :: strippedString text
  | [] => []

def strippedComment : List Char → List Char
  | '*' :: '/' :: text => stripped text
  | _ :: text => strippedComment text
  | [] => []

end

def strippedBehind (comment : Option Place) (text : List Char) : List Char :=
  if comment.isSome then strippedComment text else stripped text

def spelling (tokens : List Token) : List Char :=
  tokens.flatMap fun token => token.text.toList

variable {line column : Nat} {place : Place} {afterValue : Bool} {c : Char} {text : List Char}

theorem spelling_append (tokens others : List Token) :
    spelling (tokens ++ others) = spelling tokens ++ spelling others :=
  List.flatMap_append

@[simp] theorem stripped_nil : stripped [] = [] := by
  rw [stripped]

/-- A character that is left wherever it stands outside of comments. -/
def IsKept (c : Char) : Prop :=
  c ≠ '/' ∧ c ≠ '"' ∧ c ∉ [' ', '\t', '\r']

/-- A character outside of strings is dropped if it is a blank, and kept if it is not, unless
a comment or a string begins with it. -/
theorem stripped_cons (hl : ∀ rest, c = '/' → text ≠ '/' :: rest)
    (ho : ∀ rest, c = '/' → text ≠ '*' :: rest) (hq : c ≠ '"') :
    stripped (c :: text) =
      if c ∈ [' ', '\t', '\r'] then stripped text else c :: stripped text := by
  rw [stripped]
  · exact hl
  · exact ho
  · exact hq

theorem stripped_kept (h : IsKept c) : stripped (c :: text) = c :: stripped text := by
  rw [stripped_cons (fun _ hc => absurd hc h.1) (fun _ hc => absurd hc h.1) h.2.1, if_neg h.2.2]

theorem stripped_run {run : List Char} (h : ∀ c ∈ run, IsKept c) :
    stripped (run ++ text) = run ++ stripped text := by
  induction run with
  | nil => rfl
  | cons c cs ih =>
    rw [List.forall_mem_cons] at h
    rw [List.cons_append, stripped_kept h.1, ih h.2, List.cons_append]

theorem strippedString_content {content : List Char} (h : ∀ c ∈ content, (c != '"') = true) :
    strippedString (content ++ text) = content ++ strippedString text := by
  induction content with
  | nil => rfl
  | cons c cs ih =>
    rw [List.forall_mem_cons] at h
    rw [List.cons_append, strippedString, ih h.2, List.cons_append]
    exact bne_iff_ne.1 h.1

theorem strippedComment_eq : strippedComment text =
    match commentEnd? column text with
    | none => []
    | some (_, rest) => stripped rest := by
  fun_induction commentEnd? column text with
  | case1 => rw [strippedComment]
  | case2 column c rest hend ih =>
    rw [strippedComment, ih]
    exact hend
  | case3 => rw [strippedComment]

/-! ## Pieces -/

/-- If there is nothing to report on a piece, what is left of a text is what the tokens of the
piece say, and what is left of the text behind it. -/
def Tiles (place : Place) (text : List Char) (cut : Piece × List Char) : Prop :=
  cut.1.errors place = [] → stripped text =
    spelling (cut.1.tokens place) ++ strippedBehind (cut.1.comment? place) cut.2

theorem isBlank_iff : isBlank c ↔ c ∈ [' ', '\t', '\r'] := by
  simp [isBlank, or_assoc, or_comm]

theorem isKept_of_isNumberChar (h : isNumberChar c) : IsKept c := by
  refine ⟨?_, ?_, fun hm => ?_⟩
  · rintro rfl
    cases h
  · rintro rfl
    cases h
  · simp only [List.mem_cons, List.not_mem_nil, or_false] at hm
    obtain rfl | rfl | rfl := hm <;> cases h

theorem isKept_of_isWordChar (h : isWordChar c) : IsKept c :=
  isKept_of_isNumberChar (by simp [isNumberChar, h])

def IsRun (piece : Piece) (text : List Char) : Prop :=
  (∃ kind, piece = .lexeme kind text) ∨ ∃ cause, piece = .fault cause text

theorem isRun_word (text : List Char) : IsRun (word text) text := by
  unfold word
  split
  · exact .inl ⟨_, rfl⟩
  · split
    · exact .inl ⟨_, rfl⟩
    · exact .inr ⟨_, rfl⟩

theorem isRun_number (text : List Char) : IsRun (number text) text := by
  unfold number
  split
  · split
    · exact .inl ⟨_, rfl⟩
    · exact .inr ⟨_, rfl⟩
  · split
    · exact .inl ⟨_, rfl⟩
    · exact .inr ⟨_, rfl⟩

theorem spelling_lexeme (kind : TokenKind) (text : List Char) :
    spelling (Piece.tokens place (.lexeme kind text)) = text := by
  simp [spelling, Piece.tokens]

/-- A lexeme is kept whole. -/
theorem tiles_lexeme {kind : TokenKind} {lexeme rest : List Char}
    (h : stripped text = lexeme ++ stripped rest) :
    Tiles place text (.lexeme kind lexeme, rest) := by
  intro _
  rw [spelling_lexeme]
  exact h

theorem tiles_fault {cause : LexicalError.Cause} {faulty rest : List Char} :
    Tiles place text (.fault cause faulty, rest) :=
  fun h => absurd h (List.cons_ne_nil _ _)

theorem tiles_run {piece : Piece} {p : Char → Bool} (hc : IsKept c) (hp : ∀ d, p d → IsKept d)
    (h : IsRun piece (c :: text.takeWhile p)) :
    Tiles place (c :: text) (piece, text.dropWhile p) := by
  have hrun : ∀ d ∈ c :: text.takeWhile p, IsKept d := by
    exact List.forall_mem_cons.2 ⟨hc, fun d hd => hp d (List.mem_takeWhile_imp hd)⟩
  have htext : c :: text = (c :: text.takeWhile p) ++ text.dropWhile p := by
    rw [List.cons_append, List.takeWhile_append_dropWhile]
  obtain ⟨kind, rfl⟩ | ⟨cause, rfl⟩ := h
  · refine tiles_lexeme ?_
    rw [htext]
    exact stripped_run hrun
  · exact tiles_fault

theorem tiles_quoted : Tiles place ('"' :: text) (quoted text) := by
  have hcontent : ∀ c ∈ text.takeWhile (· != '"'), (c != '"') = true :=
    fun c hc => by simpa using List.mem_takeWhile_imp hc
  have hstop := List.head?_dropWhile_not (· != '"') text
  have hbegun : stripped ('"' :: text) = '"' :: (text.takeWhile (· != '"') ++
      strippedString (text.dropWhile (· != '"'))) := by
    rw [← strippedString_content hcontent, List.takeWhile_append_dropWhile, stripped]
  unfold quoted
  split
  · exact fun h => absurd h (List.cons_ne_nil _ _)
  · rename_i d rest hdrop
    rw [hdrop] at hstop hbegun
    obtain rfl : d = '"' := by simpa using hstop
    intro _
    rw [hbegun, strippedString]
    simp [spelling, Piece.tokens, Piece.comment?, strippedBehind]

theorem tiles_dash : Tiles place ('-' :: text) (dash afterValue text) := by
  have hkept : IsKept '-' := by simp [IsKept]
  unfold dash
  split
  · exact tiles_lexeme (stripped_kept hkept)
  · split
    · exact tiles_run hkept (fun _ => isKept_of_isNumberChar) (isRun_number _)
    · exact tiles_fault

/-- Each token routine keeps what it takes up, whatever the token before. -/
theorem tiles_cut : Tiles place (c :: text) (cut afterValue c text) := by
  unfold cut
  split
  · intro _
    rw [stripped]
    rfl
  · intro _
    rw [stripped]
    rfl
  · exact tiles_fault
  · have hrun : ∀ c ∈ ['=', '='], IsKept c := by simp [IsKept]
    exact tiles_lexeme (stripped_run hrun)
  · have hrun : ∀ c ∈ ['<', '>'], IsKept c := by simp [IsKept]
    exact tiles_lexeme (stripped_run hrun)
  · exact tiles_quoted
  · exact tiles_dash
  · rename_i hq _ hl ho _ _ _
    have hone := stripped_cons hl ho hq
    split
    · rename_i hb
      intro _
      rw [hone, if_pos (isBlank_iff.1 hb)]
      rfl
    · rename_i hb
      rw [if_neg (mt isBlank_iff.2 hb)] at hone
      split
      · rename_i hd
        have hnumber := isNumberChar_of_isDigit hd
        exact tiles_run (isKept_of_isNumberChar hnumber) (fun _ => isKept_of_isNumberChar)
          (isRun_number _)
      · split
        · rename_i hw
          exact tiles_run (isKept_of_isWordChar hw) (fun _ => isKept_of_isWordChar) (isRun_word _)
        · split
          · exact tiles_lexeme hone
          · exact tiles_fault

/-! ## Lines -/

theorem spelling_fromColumn {comment : Option Place} {last : Option TokenKind}
    (h : (fromColumn line comment last column text).errors = []) :
    spelling (fromColumn line comment last column text).tokens = strippedBehind comment text := by
  fun_induction fromColumn line comment last column text with
  | case1 last column text opening hend =>
    exact (strippedComment_eq.trans (by rw [hend]; rfl)).symm
  | case2 last column text opening next rest hend ih =>
    exact (ih h).trans (strippedComment_eq.trans (by rw [hend]; rfl)).symm
  | case3 => exact stripped_nil.symm
  | case4 last column c cs place first ih =>
    obtain ⟨hfirst, hlater⟩ := List.append_eq_nil_iff.1 h
    have htiles : Tiles place (c :: cs) first := tiles_cut
    exact (spelling_append _ _).trans ((congrArg _ (ih hlater)).trans (htiles hfirst).symm)

/-- Unless there is something to report on a line, the texts of its tokens are the line without
comments and, outside of strings, without blanks, wherever the line begins and whatever came
before it. -/
theorem nothing_is_dropped (line : Nat) (comment : Option Place) (last : Option TokenKind)
    (text : List Char) (h : (ofLine line comment last text).errors = []) :
    (ofLine line comment last text).tokens.flatMap (fun token => token.text.toList) =
      if comment.isSome then strippedComment text else stripped text :=
  spelling_fromColumn h

/-- A line that begins inside a comment, with a sign, a subtraction and a string on it. -/
theorem nothing_is_dropped_behind_comment :
    let text := "*/ x=-1 -y+\"a // b\"/* c".toList
    let scanned := ofLine 2 (some ⟨1, 4⟩) (some .semicolon) text
    scanned.errors = [] ∧
      scanned.tokens.flatMap (fun token => token.text.toList) = "x=-1-y+\"a // b\"".toList := by
  intro text scanned
  have herrors : scanned.errors = [] := by decide +kernel
  refine ⟨herrors, (nothing_is_dropped 2 (some ⟨1, 4⟩) (some .semicolon) text herrors).trans ?_⟩
  decide +kernel

end BlockLang.Scan
