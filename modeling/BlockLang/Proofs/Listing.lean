import BlockLang.Proofs.Placement
import BlockLang.Proofs.Scan.Spans
import BlockLang.Proofs.Tree.Procedures
import BlockLang.Token.Listing
import BlockLang.Tree.Outline

/-! # What listings tell

A listing of tokens or of a tree says all but the lines of the nodes, as long as no text goes over
the end of a line. It is read from left to right. Each column is a run of characters that
stops where another kind of character begins, and the least widths do no harm, since they only
add spaces. The children of a node are the lines behind it that are indented further.
-/
namespace BlockLang
open Lexeme

def IsOneLine (text : String) : Prop :=
  '\n' ∉ text.toList

instance (text : String) : Decidable (IsOneLine text) :=
  inferInstanceAs (Decidable (_ ∉ _))

theorem IsOneLine.append {text other : String} (h : IsOneLine text) (ho : IsOneLine other) :
    IsOneLine (text ++ other) := by
  rw [IsOneLine, String.toList_append, List.mem_append, not_or]
  exact ⟨h, ho⟩

/-- Two runs of characters of a kind are the same if the texts that they begin are, and both stop
at a character of another kind. -/
theorem append_inj_of_stop {p : Char → Bool} {run other rest more : List Char}
    (hr : ∀ c ∈ run, p c) (ho : ∀ c ∈ other, p c) (hrest : ∀ c ∈ rest.head?, p c = false)
    (hmore : ∀ c ∈ more.head?, p c = false) (h : run ++ rest = other ++ more) :
    run = other ∧ rest = more := by
  have htake := congrArg (List.takeWhile p) h
  have hdrop := congrArg (List.dropWhile p) h
  rw [takeWhile_append_stop hr hrest, takeWhile_append_stop ho hmore] at htake
  rw [dropWhile_append_stop hr hrest, dropWhile_append_stop ho hmore] at hdrop
  exact ⟨htake, hdrop⟩

/-- The end of a line tells two texts apart from what stands behind them. -/
theorem append_newline_inj {line other rest more : List Char} (hl : '\n' ∉ line)
    (ho : '\n' ∉ other) (h : line ++ '\n' :: rest = other ++ '\n' :: more) :
    line = other ∧ rest = more := by
  have hp : ∀ {cs : List Char}, '\n' ∉ cs → ∀ c ∈ cs, decide (c ≠ '\n') = true :=
    fun hcs c hc => decide_eq_true fun he => hcs (he ▸ hc)
  obtain ⟨hline, hrest⟩ := append_inj_of_stop (hp hl) (hp ho) (by simp) (by simp) h
  exact ⟨hline, (List.cons.inj hrest).2⟩

/-! ## Rows of tokens -/

namespace Token

variable {width : Nat} {rest more : List Char} {token other : Token}

theorem isDigit_of_mem_toString {n : Nat} : ∀ c ∈ (toString n).toList, c.isDigit := by
  intro c hc
  rw [Nat.toString_eq_repr, Nat.toList_repr] at hc
  exact Nat.isDigit_of_mem_toDigits (by decide) (by decide) hc

/-- A number is read up to the first character that is no digit. -/
theorem toString_append_inj {m n : Nat} (hr : ∀ c ∈ rest.head?, c.isDigit = false)
    (hm : ∀ c ∈ more.head?, c.isDigit = false)
    (h : (toString m).toList ++ rest = (toString n).toList ++ more) : m = n ∧ rest = more := by
  obtain ⟨hdigits, hrest⟩ :=
    append_inj_of_stop isDigit_of_mem_toString isDigit_of_mem_toString hr hm h
  rw [String.toList_inj, Nat.toString_eq_repr, Nat.toString_eq_repr] at hdigits
  exact ⟨Nat.repr_injective hdigits, hrest⟩

/-- A number begins with a digit. -/
theorem isDigit_of_head?_toString {n : Nat} :
    ∀ c ∈ ((toString n).toList ++ rest).head?, c.isDigit := by
  intro c hc
  have hne : (toString n).toList ≠ [] := by
    rw [Nat.toString_eq_repr, Nat.toList_repr]
    exact Nat.toDigits_ne_nil
  rw [List.head?_append_of_ne_nil _ hne] at hc
  exact isDigit_of_mem_toString c (List.mem_of_mem_head? hc)

theorem toList_padLeft (width : Nat) (text : String) :
    (padLeft width text).toList = List.replicate (width - text.length) ' ' ++ text.toList := by
  rw [padLeft, String.toList_append, String.toList_ofList]

theorem toList_padRight (width : Nat) (text : String) :
    (padRight width text).toList = text.toList ++ List.replicate (width - text.length) ' ' := by
  rw [padRight, String.toList_append, String.toList_ofList]

/-- The spaces before a number stop at its first digit. -/
theorem padLeft_append_inj {m n : Nat} (hr : ∀ c ∈ rest.head?, c.isDigit = false)
    (hm : ∀ c ∈ more.head?, c.isDigit = false)
    (h : (padLeft width (toString m)).toList ++ rest =
      (padLeft width (toString n)).toList ++ more) : m = n ∧ rest = more := by
  have hspaces : ∀ count, ∀ c ∈ List.replicate count ' ', (c == ' ') = true :=
    fun count c hc => beq_iff_eq.2 (List.eq_of_mem_replicate hc)
  have hstop : ∀ (n : Nat) (rest : List Char),
      ∀ c ∈ ((toString n).toList ++ rest).head?, (c == ' ') = false := by
    intro n rest c hc
    have hd := isDigit_of_head?_toString c hc
    apply beq_false_of_ne
    rintro rfl
    cases hd
  rw [toList_padLeft, toList_padLeft, List.append_assoc, List.append_assoc] at h
  exact toString_append_inj hr hm
    (append_inj_of_stop (hspaces _) (hspaces _) (hstop m rest) (hstop n more) h).2

/-- The spaces behind a number are as many as its digits leave over. -/
theorem padRight_append_inj {m n : Nat}
    (h : (padRight width (toString m)).toList ++ ' ' :: rest =
      (padRight width (toString n)).toList ++ ' ' :: more) : m = n ∧ rest = more := by
  have hstop : ∀ (count : Nat) (rest : List Char),
      ∀ c ∈ (List.replicate count ' ' ++ ' ' :: rest).head?, c.isDigit = false := by
    rintro (_ | count) rest c hc <;> cases hc <;> rfl
  rw [toList_padRight, toList_padRight, List.append_assoc, List.append_assoc] at h
  obtain ⟨rfl, hrest⟩ := toString_append_inj (hstop _ _) (hstop _ _) h
  exact ⟨rfl, (List.cons.inj (List.append_cancel_left hrest)).2⟩

theorem toList_row (token : Token) :
    token.row.toList = (padLeft 4 (toString token.place.line)).toList ++ ':' ::
      ((padRight 4 (toString token.place.column)).toList ++ ' ' ::
      ((padLeft 3 (toString token.kind.code)).toList ++ ' ' :: ' ' ::
      ((padRight 16 token.kind.tokenClass.name).toList ++ ' ' ::
      (token.text.toList ++ ['\n'])))) := by
  simp [row]

/-- A row says all about its token, and where the next row begins. -/
theorem row_append_inj (ht : IsOneLine token.text) (ho : IsOneLine other.text)
    (h : token.row.toList ++ rest = other.row.toList ++ more) : token = other ∧ rest = more := by
  obtain ⟨kind, text, line, column⟩ := token
  obtain ⟨kind', text', line', column'⟩ := other
  simp only [toList_row, List.append_assoc, List.cons_append, List.nil_append] at h
  obtain ⟨hline, hbehind⟩ := padLeft_append_inj (by simp) (by simp) h
  rw [List.cons.injEq] at hbehind
  obtain ⟨hcolumn, hnext⟩ := padRight_append_inj hbehind.2
  obtain ⟨hcode, hname⟩ := padLeft_append_inj (by simp) (by simp) hnext
  have hkind : kind = kind' := by
    have hsome := congrArg TokenKind.ofCode? hcode
    rwa [TokenKind.ofCode?_code, TokenKind.ofCode?_code, Option.some.injEq] at hsome
  subst hline hcolumn hkind
  simp only [List.cons.injEq, true_and, List.append_cancel_left_eq] at hname
  obtain ⟨htext, hrest⟩ := append_newline_inj ht ho hname
  obtain rfl : text = text' := String.toList_inj.1 htext
  exact ⟨rfl, hrest⟩

theorem listing_inj {tokens others : List Token} (ht : ∀ token ∈ tokens, IsOneLine token.text)
    (ho : ∀ token ∈ others, IsOneLine token.text) (h : listing tokens = listing others) :
    tokens = others := by
  have hrow : ∀ token : Token, token.row.toList ≠ [] := fun token => by simp [toList_row]
  rw [listing, listing, ← String.toList_inj, String.toList_join, String.toList_join] at h
  induction tokens generalizing others with
  | nil =>
    cases others with
    | nil => rfl
    | cons other others => simp [hrow] at h
  | cons token tokens ih =>
    cases others with
    | nil => simp [hrow] at h
    | cons other others =>
      rw [List.forall_mem_cons] at ht ho
      rw [List.map_cons, List.map_cons, List.flatMap_cons, List.flatMap_cons] at h
      obtain ⟨rfl, hrest⟩ := row_append_inj ht.1 ho.1 h
      rw [ih ht.2 ho.2 hrest]

end Token

/-! ## Lines of trees -/

namespace NodeKind

theorem isAlpha_of_mem_name (kind : NodeKind) : ∀ c ∈ kind.name.toList, c.isAlpha := by
  apply List.all_eq_true.1
  cases kind <;> decide

theorem name_injective : Function.Injective name := by
  intro kind other h
  cases kind <;> cases other <;> first | rfl | exact absurd h (by decide)

end NodeKind

namespace Node

variable {depth : Nat} {n m : Node} {nodes : List Node} {rest : List Char}

/-- A text does not go on with a line of a depth, or of a greater one. -/
def EndsAt (depth : Nat) (rest : List Char) : Prop :=
  ∀ behind, rest = (indent depth).toList ++ behind → behind = []

theorem endsAt_nil (depth : Nat) : EndsAt depth [] :=
  fun _ h => (List.append_eq_nil_iff.1 h.symm).2

theorem toList_indent (depth : Nat) : (indent depth).toList = List.replicate (4 * depth) ' ' := by
  rw [indent, String.toList_ofList]

theorem indent_succ (depth : Nat) :
    (indent (depth + 1)).toList = (indent depth).toList ++ List.replicate 4 ' ' := by
  rw [toList_indent, toList_indent, Nat.mul_succ, List.replicate_add]

theorem EndsAt.succ (h : EndsAt depth rest) : EndsAt (depth + 1) rest := by
  intro behind hbehind
  rw [indent_succ, List.append_assoc] at hbehind
  exact (List.append_eq_nil_iff.1 (h _ hbehind)).2

theorem toList_heading (n : Node) : n.heading.toList = n.kind.name.toList ++
    if n.text.isEmpty then [] else ' ' :: '[' :: (n.text.toList ++ [']']) := by
  unfold heading
  split <;> simp

/-- The name of a kind stops where there is a text, if there is one. -/
theorem heading_inj (h : n.heading = m.heading) : n.kind = m.kind ∧ n.text = m.text := by
  have hstop : ∀ n : Node, ∀ c ∈ (if n.text.isEmpty then []
      else ' ' :: '[' :: (n.text.toList ++ [']'])).head?, c.isAlpha = false := by
    intro n c hc
    split at hc <;> cases hc
    rfl
  rw [← String.toList_inj, toList_heading, toList_heading] at h
  obtain ⟨hname, htext⟩ := append_inj_of_stop n.kind.isAlpha_of_mem_name
    m.kind.isAlpha_of_mem_name (hstop n) (hstop m) h
  refine ⟨NodeKind.name_injective (String.toList_inj.1 hname), ?_⟩
  by_cases hn : n.text = "" <;> by_cases hm : m.text = ""
  · rw [hn, hm]
  · simp [hn, hm] at htext
  · simp [hn, hm] at htext
  · simpa [hn, hm, String.toList_inj] using htext

theorem isOneLine_heading (h : IsOneLine n.text) : IsOneLine n.heading := by
  have hname : '\n' ∉ n.kind.name.toList :=
    fun hm => absurd (n.kind.isAlpha_of_mem_name _ hm) (by decide)
  have htext : '\n' ∉ n.text.toList := h
  rw [IsOneLine, toList_heading]
  split <;> simp [hname, htext]

theorem head?_heading (n : Node) (rest : List Char) :
    (n.heading.toList ++ rest).head? ≠ some ' ' := by
  rw [toList_heading]
  cases n.kind <;> exact nofun

theorem toList_outlinesAt_cons (depth : Nat) (node : Node) (nodes : List Node) :
    (outlinesAt depth (node :: nodes)).toList =
      (indent depth).toList ++ (node.heading.toList ++ '\n' ::
        ((outlinesAt (depth + 1) node.children).toList ++ (outlinesAt depth nodes).toList)) := by
  obtain ⟨kind, text, line, children⟩ := node
  simp [outlinesAt, outlineAt]

/-- The children of a node end where its next sibling begins, since they are indented further. -/
theorem endsAt_outlinesAt (h : EndsAt depth rest) :
    EndsAt (depth + 1) ((outlinesAt depth nodes).toList ++ rest) := by
  cases nodes with
  | nil => simpa [outlinesAt] using h.succ
  | cons node nodes =>
    intro behind hbehind
    simp only [toList_outlinesAt_cons, indent_succ, List.append_assoc,
      List.append_cancel_left_eq] at hbehind
    exact absurd (congrArg List.head? hbehind) (head?_heading node _)

theorem EndsAt.ne_outlinesAt (h : EndsAt depth rest) (node : Node) (nodes : List Node)
    (more : List Char) : rest ≠ (outlinesAt depth (node :: nodes)).toList ++ more := by
  intro hrest
  rw [toList_outlinesAt_cons, List.append_assoc] at hrest
  simpa using h _ hrest

/-- Lines of trees say all about the trees but the lines where they stand, and where the trees
end. The induction is on the first trees, each followed by its siblings. -/
theorem outlinesAt_append_inj (depth : Nat) {rest more : List Char} : (nodes others : List Node) →
    (∀ n : Node, n.OccursAmong nodes → IsOneLine n.text) →
    (∀ n : Node, n.OccursAmong others → IsOneLine n.text) → EndsAt depth rest → EndsAt depth more →
    (outlinesAt depth nodes).toList ++ rest = (outlinesAt depth others).toList ++ more →
    nodes.map withoutLines = others.map withoutLines ∧ rest = more
  | [], [], _, _, _, _, h => ⟨rfl, h⟩
  | [], node :: nodes, _, _, hrest, _, h => absurd h (hrest.ne_outlinesAt node nodes more)
  | node :: nodes, [], _, _, _, hmore, h => absurd h.symm (hmore.ne_outlinesAt node nodes rest)
  | ⟨kind, text, line, children⟩ :: nodes, ⟨kind', text', line', children'⟩ :: others, hn, ho,
    hrest, hmore, h => by
    simp only [occursAmong_cons, occursIn_iff] at hn ho
    have hheading := isOneLine_heading (hn _ (.inl (.inl rfl)))
    have hother := isOneLine_heading (ho _ (.inl (.inl rfl)))
    simp only [toList_outlinesAt_cons, List.append_assoc, List.cons_append,
      List.append_cancel_left_eq] at h
    obtain ⟨hsame, hbehind⟩ := append_newline_inj hheading hother h
    obtain ⟨hchildren, hnext⟩ := outlinesAt_append_inj (depth + 1) children children'
      (fun n h => hn n (.inl (.inr h))) (fun n h => ho n (.inl (.inr h)))
      (endsAt_outlinesAt hrest) (endsAt_outlinesAt hmore) hbehind
    obtain ⟨hnodes, hend⟩ := outlinesAt_append_inj depth nodes others
      (fun n h => hn n (.inr h)) (fun n h => ho n (.inr h)) hrest hmore hnext
    obtain ⟨rfl, rfl⟩ : kind = kind' ∧ text = text' := heading_inj (String.toList_inj.1 hsame)
    refine ⟨?_, hend⟩
    rw [List.map_cons, List.map_cons, hnodes, withoutLines, withoutLines, withoutLinesAll_eq_map,
      withoutLinesAll_eq_map, hchildren]
termination_by nodes => sizeOf nodes
decreasing_by all_goals simp only [List.cons.sizeOf_spec, mk.sizeOf_spec]; omega

theorem outline_inj (hn : ∀ k : Node, k.OccursIn n → IsOneLine k.text)
    (hm : ∀ k : Node, k.OccursIn m → IsOneLine k.text) (h : n.outline = m.outline) :
    n.withoutLines = m.withoutLines := by
  have hone : ∀ k : Node, outlinesAt 0 [k] = k.outline := fun k => by simp [outlinesAt, outline]
  have hroots : (outlinesAt 0 [n]).toList ++ [] = (outlinesAt 0 [m]).toList ++ [] := by
    rw [hone, hone, h]
  obtain ⟨htrees, -⟩ := outlinesAt_append_inj 0 [n] [m] (by simpa using hn) (by simpa using hm)
    (endsAt_nil 0) (endsAt_nil 0) hroots
  exact List.head_eq_of_cons_eq htrees

end Node

/-! ## Texts of a program -/

/-- Messages have the ends of lines only from what they repeat. -/
theorem SyntaxError.Cause.isOneLine_message (cause : SyntaxError.Cause)
    (h : ∀ text ∈ cause.found, IsOneLine text) : IsOneLine cause.message := by
  cases cause with
  | unexpectedAfter found name =>
    obtain ⟨hfound, hnames⟩ := List.forall_mem_cons.1 h
    have hname := List.forall_mem_singleton.1 hnames
    refine .append (.append (.append (.append ?_ hfound) ?_) hname) ?_ <;> decide
  | noAssign text | statementStart text | valueStart text =>
    have htext := List.forall_mem_singleton.1 h
    refine .append (.append ?_ htext) ?_ <;> decide
  | _ => decide +kernel

theorem Labels.isOneLine {tokens : List Token} {kind : NodeKind} {text : String}
    (h : Labels tokens kind text) (ht : ∀ token ∈ tokens, IsOneLine token.text) :
    IsOneLine text := by
  cases h with
  | token hm _ => exact ht _ hm
  | fixed hf => cases kind <;> cases hf <;> decide

theorem Scan.isOneLine_of_ofText (text : String) :
    ∀ token ∈ (ofText text).1, IsOneLine token.text := by
  intro token ht hn
  obtain ⟨line, hline, hin⟩ := exists_line_of_ofLines token ht
  exact not_mem_of_linesOf _ line hline (hin.subset hn)

theorem Parse.isOneLine_of_program {tokens : List Token}
    (h : ∀ token ∈ tokens, IsOneLine token.text) {n : Node}
    (hn : n.OccursIn (program tokens).1) : IsOneLine n.text := by
  rcases (built_program (Token.alike_self tokens)).texts (Node.occursAmong_cons.2 (.inl hn)) with
    hl | ⟨-, cause, htext, hfound⟩
  · exact hl.isOneLine h
  · rw [htext]
    refine cause.isOneLine_message fun text ht => ?_
    obtain ⟨token, hm, rfl⟩ := hfound text ht
    exact h token hm

/-- If no text in two trees has the end of a line and their outlines are the same, they are the
same trees up to lines; and if none of two lists of tokens has one and their listings are the same,
they are the same lists. What is scanned and parsed of a program has no such text, also if there
are errors. -/
theorem listings_are_lossless :
    (∀ tree other : Node, (∀ n : Node, n.OccursIn tree → IsOneLine n.text) →
      (∀ n : Node, n.OccursIn other → IsOneLine n.text) → tree.outline = other.outline →
      tree.withoutLines = other.withoutLines) ∧
    (∀ tokens others : List Token, (∀ token ∈ tokens, IsOneLine token.text) →
      (∀ token ∈ others, IsOneLine token.text) → Token.listing tokens = Token.listing others →
      tokens = others) ∧
    ∀ text : String, let tokens := (Scan.ofText text).1
      (∀ token ∈ tokens, IsOneLine token.text) ∧
      ∀ n : Node, n.OccursIn (Parse.program tokens).1 → IsOneLine n.text := by
  refine ⟨fun tree other => Node.outline_inj, fun tokens others => Token.listing_inj,
    fun text => ⟨Scan.isOneLine_of_ofText text, fun n => ?_⟩⟩
  exact Parse.isOneLine_of_program (Scan.isOneLine_of_ofText text)

/-- A program and the same one on other lines have the same outline, with brackets and the name of
a kind in a string, and a list of tokens has the listing of the tokens of the program. -/
theorem outlines_of_broken_lines :
    let tokens := (Scan.ofText "write(\"Read [a] \"); = b;").1
    let tree := (Parse.program tokens).1
    let other := (Parse.program (Scan.ofText "write(\n\"Read [a] \");\n= b;").1).1
    let others : List Token := [⟨.writeWord, "write", ⟨1, 1⟩⟩, ⟨.leftParen, "(", ⟨1, 6⟩⟩,
      ⟨.quote, "\"", ⟨1, 7⟩⟩, ⟨.stringLiteral, "Read [a] ", ⟨1, 8⟩⟩, ⟨.quote, "\"", ⟨1, 17⟩⟩,
      ⟨.rightParen, ")", ⟨1, 18⟩⟩, ⟨.semicolon, ";", ⟨1, 19⟩⟩, ⟨.assign, "=", ⟨1, 21⟩⟩,
      ⟨.identifier, "b", ⟨1, 23⟩⟩, ⟨.semicolon, ";", ⟨1, 24⟩⟩]
    tree ≠ other ∧ tree.outline = other.outline ∧ tree.withoutLines = other.withoutLines ∧
      Token.listing tokens = Token.listing others ∧ tokens = others := by
  intro tokens tree other others
  obtain ⟨houtline, hlisting, htexts⟩ := listings_are_lossless
  have hsame : tree ≠ other ∧ tree.outline = other.outline ∧
      Token.listing tokens = Token.listing others ∧
      ∀ token ∈ others, IsOneLine token.text := by decide +kernel
  obtain ⟨hne, htree, hlist, hothers⟩ := hsame
  exact ⟨hne, htree, houtline tree other (htexts _).2 (htexts _).2 htree, hlist,
    hlisting tokens others (htexts _).1 hothers hlist⟩

end BlockLang
