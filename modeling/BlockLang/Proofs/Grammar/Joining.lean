import BlockLang.Proofs.Grammar.SilentStatements
import BlockLang.Proofs.Grammar.Statements
import BlockLang.Token.Scan

/-! # Joined programs

A program without errors is read to its last token and no further, but for an `else` that
might follow. What stands behind it is parsed as if it stood alone; only the token before
it can be blamed for a first token with which no statement begins.
-/
namespace BlockLang

/-- The last token that has been read is the one before the cursor. -/
theorem Parsed.Reads.next_eq_append {α : Type} {last : Option Token} {ts rest : List Token}
    {parsed : Parsed α ⟨last, ts ++ rest⟩} {value : α} (h : parsed.Reads value rest) :
    parsed.next = ⟨ts.getLast?.or last, rest⟩ := by
  obtain ⟨read, hrest, hlast⟩ := parsed.reaches
  rw [h.rest_eq] at hrest
  rw [← List.append_cancel_right hrest] at hlast
  exact congr (congrArg Cursor.mk hlast) h.rest_eq

namespace Parse
open Grammar Parsed

/-- Statements are parsed one after the other. -/
theorem statements_cons (last : Option Token) (token : Token) (tokens : List Token) :
    let first := statement last token tokens
    let all := statements ⟨last, token :: tokens⟩
    all.value = first.value :: (statements first.next).value ∧
      all.errors = first.errors ++ (statements first.next).errors := by
  rw [statements]
  exact ⟨rfl, rfl⟩

theorem getLast?_cons_append (last : Option Token) (token : Token) (tokens rest : List Token) :
    (token :: tokens ++ rest).getLast?.or last =
      rest.getLast?.or (tokens.getLast?.or (some token)) := by
  rw [List.getLast?_append, List.getLast?_cons]
  cases rest.getLast? <;> cases tokens.getLast? <;> rfl

/-- Derived statements are read in front of whatever follows, and then that is parsed. -/
theorem statements_append {part : Part} {isOpen : Bool} {ts us : List Token} {ns : List Node}
    (h : Derives true part isOpen ts ns) (hp : part = .statements)
    (hu : NotNext [.elseWord] us) (last : Option Token) :
    let joined := statements ⟨last, ts ++ us⟩
    let later := statements ⟨ts.getLast?.or last, us⟩
    joined.value = ns ++ later.value ∧ joined.errors = later.errors := by
  induction h generalizing last with
  | nil => exact ⟨rfl, rfl⟩
  | @cons ts rest n ns first isOpen hd hds _ ih =>
    obtain ⟨token, tokens, rfl, hs⟩ := readsPart hd n (rest ++ us) rfl
      fun _ => notNext_else hds hu
    have hfirst := hs last
    obtain ⟨hvalue, herrors⟩ := statements_cons last token (tokens ++ (rest ++ us))
    obtain ⟨hlater, hfaults⟩ := ih rfl (tokens.getLast?.or (some token))
    rw [hfirst.next_eq_append] at hvalue herrors
    rw [getLast?_cons_append, List.append_assoc, List.cons_append]
    dsimp only
    rw [hvalue, herrors, hfirst.value_eq, hfirst.errors_eq, hlater, hfaults]
    exact ⟨rfl, rfl⟩
  | _ => cases hp

/-- The token before a statement matters only if no statement begins as it does. -/
theorem statement_behind (token : Token) (tokens : List Token) :
    (∀ last before, statement last token tokens = statement before token tokens) ∨
      ∀ last,
        let cause := SyntaxError.Cause.statementStart token.text
        let place := Cursor.blame ⟨last, token :: tokens⟩
        statement last token tokens =
          ⟨.leaf .error cause.message place.line, [⟨cause, place⟩], ⟨some token, tokens⟩,
            .refl _⟩ := by
  cases hk : token.kind with
  | identifier | intWord | realWord | boolWord | stringWord | readWord | writeWord | ifWord |
      whileWord | forWord =>
    left
    intro last before
    rw [statement, statement]
    simp only [hk]
  | _ =>
    right
    intro last
    rw [statement]
    simp only [hk]
    rfl

/-- What is parsed behind one token is what is parsed behind another, but for the place of one
error: that of a first token with which no statement begins. -/
theorem statements_behind (last before : Option Token) (us : List Token) :
    let parsed := statements ⟨last, us⟩
    let other := statements ⟨before, us⟩
    (parsed.value = other.value ∧ parsed.errors = other.errors) ∨
      ∃ token tokens nodes errors, us = token :: tokens ∧
        let cause := SyntaxError.Cause.statementStart token.text
        let place := Cursor.blame ⟨last, us⟩
        let elsewhere := Cursor.blame ⟨before, us⟩
        parsed.value = .leaf .error cause.message place.line :: nodes ∧
          parsed.errors = ⟨cause, place⟩ :: errors ∧
          other.value = .leaf .error cause.message elsewhere.line :: nodes ∧
          other.errors = ⟨cause, elsewhere⟩ :: errors := by
  cases us with
  | nil =>
    left
    rw [statements, statements]
    exact ⟨rfl, rfl⟩
  | cons token tokens =>
    have hl := statements_cons last token tokens
    have hb := statements_cons before token tokens
    obtain hsame | hrejected := statement_behind token tokens
    · left
      rw [hsame last before] at hl
      exact ⟨hl.1.trans hb.1.symm, hl.2.trans hb.2.symm⟩
    · right
      rw [hrejected last] at hl
      rw [hrejected before] at hb
      let later := statements ⟨some token, tokens⟩
      exact ⟨token, tokens, later.value, later.errors, rfl, hl.1, hl.2, hb.1, hb.2⟩

/-- Behind a program without errors, tokens that do not begin with an `else` are parsed as if they
stood alone: their statements follow those of the program, and there are no errors but theirs. If
no statement begins with the first of them, then this one error and its leaf are where the parser
blames it behind the last token of the program, and not on that first token. -/
theorem program_append {ts us : List Token} (h : (program ts).2 = [])
    (hu : ∀ token ∈ us.head?, token.kind ≠ .elseWord) :
    let front := (program ts).1.children
    let back := (program us).1.children
    let joined := program (ts ++ us)
    (joined.1.children = front ++ back ∧ joined.2 = (program us).2) ∨
      ∃ token tokens nodes errors, us = token :: tokens ∧
        let cause := SyntaxError.Cause.statementStart token.text
        let place := Cursor.blame ⟨ts.getLast?, us⟩
        joined.1.children = front ++ .leaf .error cause.message place.line :: nodes ∧
          joined.2 = ⟨cause, place⟩ :: errors ∧
          back = .leaf .error cause.message token.line :: nodes ∧
          (program us).2 = ⟨cause, token.place⟩ :: errors := by
  intro front back joined
  have hnext : NotNext [.elseWord] us := fun token ht hk => hu token ht (List.mem_singleton.1 hk)
  obtain ⟨hds⟩ := derives_of_program h
  have hjoined := statements_append hds rfl hnext none
  rw [Option.or_none] at hjoined
  obtain ⟨hvalue, herrors⟩ := hjoined
  obtain ⟨hv, he⟩ | ⟨token, tokens, nodes, errors, rfl, hv, he, hback, hfaults⟩ :=
    statements_behind ts.getLast? none us
  · exact .inl ⟨hvalue.trans (congrArg (front ++ ·) hv), herrors.trans he⟩
  · exact .inr ⟨token, tokens, nodes, errors, rfl, hvalue.trans (congrArg (front ++ ·) hv),
      herrors.trans he, hback, hfaults⟩

/-- An `if` without an `else` is followed by a stray parenthesis on the next line. -/
theorem stray_token_behind_program :
    let ts := (Scan.ofText "int x; if (true) x = 2;").1
    let us := (Scan.ofText "\n) x = 3; y").1
    (program ts).2 = [] ∧ (∀ token ∈ us.head?, token.kind ≠ .elseWord) ∧
      (program (ts ++ us)).1.children.length = 5 ∧
      (program (ts ++ us)).2.map SyntaxError.cause = [.statementStart ")", .noAssign "y"] := by
  intro ts us
  have hparts : (program ts).2 = [] ∧ (∀ token ∈ us.head?, token.kind ≠ .elseWord) ∧
      (program ts).1.children.length = 2 ∧ (program us).1.children.length = 3 ∧
      (program us).2.map SyntaxError.cause = [.statementStart ")", .noAssign "y"] := by
    decide +kernel
  obtain ⟨hsilent, hu, hfront, hback, hcauses⟩ := hparts
  refine ⟨hsilent, hu, ?_⟩
  obtain ⟨hc, he⟩ | ⟨token, tokens, nodes, errors, -, hc, he, hb, hf⟩ :=
    program_append hsilent hu
  · rw [hc, he, List.length_append, hfront, hback]
    exact ⟨rfl, hcauses⟩
  · rw [hb, List.length_cons] at hback
    rw [hf, List.map_cons] at hcauses
    rw [hc, he, List.length_append, List.length_cons, hfront, hback, List.map_cons]
    exact ⟨rfl, hcauses⟩

end Parse
end BlockLang
