import BlockLang.Proofs.Descent.Progress

/-! # Stands and cursors

A stand corresponds to a cursor with the same tokens before it and behind it. A procedure gives a
parsed result if it comes to an end with the same value and the same errors, at a stand that
corresponds to the cursor which is left. There is a law for each step of a procedure and the
combinator of the parser that does the same.
-/
namespace BlockLang

namespace Stand

variable {tokens : List Token} {stand : Stand tokens} {c : Cursor}

/-- The cursor has the same tokens before it and behind it. -/
structure At (stand : Stand tokens) (c : Cursor) : Prop where
  last_eq : stand.last? = c.last
  rest_eq : tokens.drop stand.position = c.rest
  position_le : stand.position ≤ tokens.length

def cursor (stand : Stand tokens) : Cursor :=
  ⟨stand.last?, tokens.drop stand.position⟩

theorem at_cursor (h : stand.position ≤ tokens.length) : stand.At stand.cursor :=
  ⟨rfl, rfl, h⟩

theorem at_start (tokens : List Token) (errors : List SyntaxError.Notice) :
    At (⟨0, errors⟩ : Stand tokens) ⟨none, tokens⟩ :=
  ⟨rfl, rfl, Nat.zero_le _⟩

theorem At.next?_eq (h : stand.At c) : stand.next? = c.rest.head? := by
  rw [← h.rest_eq, List.head?_drop]
  rfl

theorem At.isNext_eq (h : stand.At c) (kind : TokenKind) :
    stand.isNext kind = c.rest.head?.any fun token => token.kind == kind := by
  rw [isNext, h.next?_eq]

theorem At.isAtEnd_eq (h : stand.At c) : stand.isAtEnd = c.rest.isEmpty := by
  rw [Bool.eq_iff_iff, isAtEnd_iff, List.isEmpty_iff, ← h.rest_eq, List.drop_eq_nil_iff]

theorem At.line_eq (h : stand.At c) : stand.line = c.line := by
  rw [Stand.line, h.next?_eq, h.last_eq]
  rfl

theorem At.blame_eq (h : stand.At c) : stand.blame = c.blame := by
  rw [blame, h.next?_eq, h.last_eq]
  obtain ⟨last, rest⟩ := c
  cases rest <;> cases last <;> rfl

theorem At.record (h : stand.At c) (notice : SyntaxError.Notice) : (stand.record notice).At c :=
  ⟨h.last_eq, h.rest_eq, h.position_le⟩

theorem At.advance {last : Option Token} {token : Token} {rest : List Token}
    (h : stand.At ⟨last, token :: rest⟩) : stand.advance.At ⟨some token, rest⟩ := by
  have hnext : stand.next? = some token := h.next?_eq
  have hlt := position_lt hnext
  have hpos := position_advance hlt
  refine ⟨?_, ?_, position_advance_le h.position_le⟩
  · rw [last?, hpos]
    exact hnext
  · rw [hpos, ← List.tail_drop, h.rest_eq]
    rfl

theorem At.skip (h : stand.At c) : stand.advance.At c.skip := by
  obtain ⟨last, rest⟩ := c
  cases rest with
  | cons token rest => exact h.advance
  | nil =>
    have hend : ¬ stand.position < tokens.length := by
      have hlength := congrArg List.length h.rest_eq
      simp only [List.length_drop, List.length_nil] at hlength
      omega
    rw [Stand.advance, if_neg hend]
    exact h

theorem errors_advance (stand : Stand tokens) : stand.advance.errors = stand.errors := by
  unfold advance
  split <;> rfl

/-- The stand is where a result has been parsed, its errors behind earlier ones. -/
def Follows {α : Type} (earlier : List SyntaxError.Notice) (parsed : Parsed α c)
    (stand : Stand tokens) : Prop :=
  stand.At parsed.next ∧ stand.errors = earlier ++ parsed.errors.map SyntaxError.notice

section

open Parsed

variable {α β : Type} {earlier : List SyntaxError.Notice} {before : Parsed α c}

theorem At.follows (h : stand.At c) (value : α) :
    stand.Follows stand.errors (give value : Parsed α c) :=
  ⟨h, (List.append_nil _).symm⟩

theorem Follows.andThen {parsed : Parsed β before.next} {later : Stand tokens}
    (h : stand.Follows earlier before) (hl : later.Follows stand.errors parsed) :
    later.Follows earlier (before.andThen parsed) := by
  refine ⟨hl.1, ?_⟩
  rw [hl.2, h.2, Parsed.andThen, List.map_append, List.append_assoc]

theorem Follows.behind {last : Option Token} {token : Token} {rest : List Token}
    {parsed : Parsed α ⟨some token, rest⟩} (h : stand.Follows earlier parsed) :
    stand.Follows earlier (parsed.behind : Parsed α ⟨last, token :: rest⟩) :=
  h

theorem Follows.skip (h : stand.Follows earlier before) :
    stand.advance.Follows earlier before.skip :=
  ⟨h.1.skip, (errors_advance stand).trans h.2⟩

end

end Stand

namespace Descent
open Parsed

variable {tokens : List Token} {α β : Type} {c : Cursor} {stand : Stand tokens}
  {earlier : List SyntaxError.Notice}

/-- A procedure gives a parsed result, its errors behind earlier ones. -/
def Gives (earlier : List SyntaxError.Notice) (procedure : Descent tokens α) (stand : Stand tokens)
    (parsed : Parsed α c) : Prop :=
  Ends procedure stand fun value later => value = parsed.value ∧ later.Follows earlier parsed

/-! ## Steps -/

theorem gives_pure {parsed : Parsed α c} (h : stand.Follows earlier parsed) :
    Gives earlier (pure parsed.value) stand parsed :=
  ends_pure ⟨rfl, h⟩

theorem gives_give (h : stand.At c) (value : α) :
    Gives stand.errors (pure value) stand (give value : Parsed α c) :=
  gives_pure (h.follows value)

theorem gives_fail (h : stand.At c) (cause : SyntaxError.Cause) :
    Gives stand.errors (fail cause) stand (Parsed.fail cause : Parsed Node c) := by
  refine ⟨_, stand.record ⟨cause.kind, cause.message, stand.blame⟩, rfl, ?_, h.record _, ?_⟩
  · rw [h.blame_eq]
    rfl
  · simp [Stand.record, Parsed.fail, SyntaxError.notice, h.blame_eq]

theorem Gives.bind {d : Cursor} {parsed : Parsed α c} {whole : Parsed β d}
    {procedure : Descent tokens α} {next : α → Descent tokens β}
    (h : Gives earlier procedure stand parsed)
    (hn : ∀ later : Stand tokens, later.Follows earlier parsed →
      Gives earlier (next parsed.value) later whole) :
    Gives earlier (procedure >>= next) stand whole := by
  refine Ends.bind h ?_
  rintro _ later ⟨rfl, hl⟩
  exact hn later hl

/-- What a procedure gives behind a result is the last part of what is parsed. -/
theorem gives_andThen {before : Parsed α c} {parsed : Parsed β before.next}
    {procedure : Descent tokens β} (h : stand.Follows earlier before)
    (hp : stand.At before.next → Gives stand.errors procedure stand parsed) :
    Gives earlier procedure stand (before.andThen parsed) :=
  Ends.mono (hp h.1) fun _ _ hl => ⟨hl.1, h.andThen hl.2⟩

theorem gives_advance {parsed : Parsed α c} {next : Unit → Descent tokens α}
    (h : Gives stand.advance.errors (next ()) stand.advance parsed) :
    Gives stand.errors (advance >>= next) stand parsed := by
  rw [Stand.errors_advance] at h
  exact h

theorem gives_nil {last : Option Token} {parsed : Parsed α c}
    {next : Option Token → Descent tokens α} (h : stand.At ⟨last, []⟩)
    (hn : Gives earlier (next none) stand parsed) :
    Gives earlier (look Stand.next? >>= next) stand parsed := by
  change Gives earlier (next stand.next?) stand parsed
  rw [h.next?_eq]
  exact hn

theorem gives_cons {last : Option Token} {token : Token} {rest : List Token} {parsed : Parsed α c}
    {next : Option Token → Descent tokens α} (h : stand.At ⟨last, token :: rest⟩)
    (hn : Gives earlier (next (some token)) stand parsed) :
    Gives earlier (look Stand.next? >>= next) stand parsed := by
  change Gives earlier (next stand.next?) stand parsed
  rw [h.next?_eq]
  exact hn

theorem gives_line {d : Cursor} {parsed : Parsed α d} {next : Nat → Descent tokens α}
    (h : stand.At c) (hn : Gives earlier (next c.line) stand parsed) :
    Gives earlier (look Stand.line >>= next) stand parsed := by
  rw [← h.line_eq] at hn
  exact hn

theorem gives_isNext {d : Cursor} {kind : TokenKind} {parsed : Parsed α d}
    {next : Bool → Descent tokens α} (h : stand.At c)
    (hn : Gives earlier (next (c.rest.head?.any fun token => token.kind == kind)) stand parsed) :
    Gives earlier (look (Stand.isNext kind) >>= next) stand parsed := by
  rw [← h.isNext_eq] at hn
  exact hn

/-- A failure that moves past a token. -/
theorem gives_failPast (h : stand.At c) (cause : SyntaxError.Cause) :
    Gives stand.errors (failPast cause) stand (Parsed.fail cause : Parsed Node c).skip :=
  (gives_fail h cause).bind fun _ hl => ends_advance.2 (ends_pure ⟨rfl, hl.skip⟩)

theorem gives_isAtEnd {d : Cursor} {parsed : Parsed α d} {next : Bool → Descent tokens α}
    (h : stand.At c) (hn : Gives earlier (next c.rest.isEmpty) stand parsed) :
    Gives earlier (look Stand.isAtEnd >>= next) stand parsed := by
  rw [← h.isAtEnd_eq] at hn
  exact hn

theorem gives_accept_nil {d : Cursor} {last : Option Token} {kind : TokenKind} {parsed : Parsed α d}
    {next : Bool → Descent tokens α} (h : stand.At ⟨last, []⟩)
    (hn : Gives earlier (next false) stand parsed) :
    Gives earlier (accept kind >>= next) stand parsed := by
  rw [Gives, Ends, run_accept_bind, h.isNext_eq]
  exact hn

theorem gives_accept_cons {d : Cursor} {last : Option Token} {token : Token} {rest : List Token}
    {kind : TokenKind} {parsed : Parsed α d} {next : Bool → Descent tokens α}
    (h : stand.At ⟨last, token :: rest⟩)
    (ht : token.kind = kind → stand.advance.At ⟨some token, rest⟩ →
      Gives stand.advance.errors (next true) stand.advance parsed)
    (hf : token.kind ≠ kind → Gives stand.errors (next false) stand parsed) :
    Gives stand.errors (accept kind >>= next) stand parsed := by
  rw [Gives, Ends, run_accept_bind, h.isNext_eq]
  simp only [List.head?_cons, Option.any_some, beq_iff_eq]
  split
  · rename_i hk
    have hg := ht hk h.advance
    rw [Stand.errors_advance] at hg
    exact hg
  · rename_i hk
    exact hf hk

theorem gives_accept {d : Cursor} {before : Parsed α c} {parsed : Parsed β d} {kind : TokenKind}
    {next : Bool → Descent tokens β} (h : stand.Follows earlier before)
    (ht : before.accept? kind = some before.skip → stand.advance.Follows earlier before.skip →
      Gives earlier (next true) stand.advance parsed)
    (hf : before.accept? kind = none → Gives earlier (next false) stand parsed) :
    Gives earlier (accept kind >>= next) stand parsed := by
  rw [Gives, Ends, run_accept_bind, h.1.isNext_eq]
  split
  · rename_i hk
    exact ht (if_pos hk) h.skip
  · rename_i hk
    exact hf (if_neg hk)

theorem gives_expect {children : Parsed (List Node) c} (h : stand.Follows earlier children)
    (kind : TokenKind) (cause : SyntaxError.Cause) (nodeKind : NodeKind) (text : String)
    (line : Nat) : Gives earlier (expect kind cause ⟨nodeKind, text, line, children.value⟩) stand
      ((children.delimit kind cause).node nodeKind text line) := by
  refine gives_accept h (fun ha hs => ?_) fun ha => ?_
  · rw [delimit, ha]
    exact ends_pure ⟨rfl, hs⟩
  · rw [delimit, ha]
    refine (gives_andThen h fun hc => gives_fail hc cause).bind fun later hl => ?_
    exact ends_pure ⟨rfl, hl⟩

theorem gives_expect_bind {children : Parsed (List Node) c} {kind : TokenKind}
    {cause : SyntaxError.Cause} {node : Node} {nodeKind : NodeKind} {text : String} {line : Nat}
    {d : Cursor} {parsed : Parsed α d} {next : Node → Descent tokens α}
    (h : stand.Follows earlier children) (hnode : node = ⟨nodeKind, text, line, children.value⟩)
    (hn : ∀ later : Stand tokens, later.Follows earlier (children.delimit kind cause) →
      Gives earlier (next ⟨nodeKind, text, line, (children.delimit kind cause).value⟩) later
        parsed) :
    Gives earlier (expect kind cause node >>= next) stand parsed := by
  subst hnode
  exact (gives_expect h kind cause nodeKind text line).bind hn

/-- What is parsed behind a token, seen from before it. -/
theorem Gives.behind {last : Option Token} {token : Token} {rest : List Token}
    {parsed : Parsed α ⟨some token, rest⟩} {procedure : Descent tokens α}
    (h : Gives earlier procedure stand parsed) :
    Gives earlier procedure stand (parsed.behind : Parsed α ⟨last, token :: rest⟩) :=
  h

/-- One more child of a node. -/
theorem gives_child {children : Parsed (List Node) c} {child : Parsed Node children.next}
    {d : Cursor} {procedure : Descent tokens Node} {parsed : Parsed α d}
    {next : Node → Descent tokens α} (h : stand.Follows earlier children)
    (hp : stand.At children.next → Gives stand.errors procedure stand child)
    (hn : ∀ later : Stand tokens, later.Follows earlier (children.snoc child) →
      Gives earlier (next child.value) later parsed) :
    Gives earlier (procedure >>= next) stand parsed :=
  (gives_andThen h hp).bind hn

theorem gives_require {children : Parsed (List Node) c} {body : Descent tokens Node}
    {proceed : Parsed (List Node) c → Parsed Node c} {kind : TokenKind}
    {cause : SyntaxError.Cause} (h : stand.Follows earlier children)
    (hp : stand.advance.Follows earlier children.skip →
      Gives earlier body stand.advance (proceed children.skip)) :
    Gives earlier (do if ← accept kind then body else fail cause) stand
      (children.require kind cause proceed) := by
  refine gives_accept h (fun ha hs => ?_) fun ha => ?_
  · rw [require, ha]
    exact hp hs
  · rw [require, ha]
    exact gives_andThen h fun hc => gives_fail hc cause

/-- Children that have been parsed, behind those that a node has. -/
def onto (node : Node) (parsed : Parsed (List Node) c) : Parsed Node c :=
  parsed.map fun more => { node with children := node.children ++ more }

/-- A loop that adds no child. -/
theorem gives_onto_nil (h : stand.At c) (node : Node) :
    Gives stand.errors (pure node) stand (onto node (give [] : Parsed (List Node) c)) := by
  obtain ⟨kind, text, line, children⟩ := node
  refine ends_pure ⟨?_, h.follows ([] : List Node)⟩
  simp [onto, Parsed.map, give]

/-- A loop goes on with the node to which the first child has been added. -/
theorem gives_onto_cons {first : Parsed Node c} {more : Parsed (List Node) first.next}
    {node : Node} {loop : Descent tokens Node} (h : stand.Follows earlier first)
    (hm : stand.At first.next → Gives stand.errors loop stand (onto (node.push first.value) more)) :
    Gives earlier loop stand (onto node (first.cons more)) := by
  refine (gives_andThen h hm).mono ?_
  rintro _ final ⟨rfl, hf⟩
  exact ⟨by simp [onto, Node.push, Parsed.map, Parsed.andThen, Parsed.cons], hf⟩

end Descent
end BlockLang
