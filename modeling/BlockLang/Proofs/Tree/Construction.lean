import BlockLang.Proofs.Tree.Occurrence
import BlockLang.Tree.Cursor
import Mathlib.Data.List.Forall2

/-! # How trees are built

Whatever the tokens are, parsing builds nodes in few ways. Nodes are put side by side, a node gets
children and a text that its kind allows, and a failure is recorded at the cursor and puts an error
leaf in the place of what has been parsed. Two runs over tokens that differ in places only do this
in step. Induction on the construction shows what holds of all trees, of the errors and of their
places, and what two runs have in common. A single run is in step with itself.
-/
namespace BlockLang

namespace NodeKind

def fixedText? : NodeKind → Option String
  | .program | .condition | .init | .step | .block => some ""
  | .assignment | .initializer => some "="
  | .subscript => some "[]"
  | _ => none

/-- Whether nodes of a kind have the texts of tokens of another kind. -/
def takes : NodeKind → TokenKind → Bool
  | .identifier, kind | .declarator, kind => kind == .identifier
  | .intLiteral, kind => kind == .intLiteral
  | .realLiteral, kind => kind == .realLiteral
  | .boolLiteral, kind => kind == .trueWord || kind == .falseWord
  | .stringLiteral, kind => kind == .stringLiteral
  | .arithmetic, kind => kind == .plus || kind == .minus || kind == .star || kind == .slash
  | .comparison, kind => kind.isComparison
  | .declaration, kind => kind.isTypeWord
  | .read, kind => kind == .readWord
  | .write, kind => kind == .writeWord
  | .conditional, kind => kind == .ifWord
  | .alternative, kind => kind == .elseWord
  | .whileLoop, kind => kind == .whileWord
  | .forLoop, kind => kind == .forWord
  | _, _ => false

end NodeKind

def SyntaxError.Cause.found : SyntaxError.Cause → List String
  | .unexpectedAfter found name => [found, name]
  | .noAssign name => [name]
  | .statementStart found | .valueStart found => [found]
  | _ => []

/-- The texts that an error repeats are those of tokens. -/
def SyntaxError.Cause.IsAbout (tokens : List Token) (cause : SyntaxError.Cause) : Prop :=
  ∀ text ∈ cause.found, ∃ token ∈ tokens, token.text = text

theorem SyntaxError.Cause.isAbout_of_nil {tokens : List Token} {cause : SyntaxError.Cause}
    (h : cause.found = []) : cause.IsAbout tokens := by
  rw [IsAbout, h]
  exact List.forall_mem_nil _

theorem SyntaxError.Cause.isAbout_of_mem {tokens : List Token} {token : Token}
    {cause : SyntaxError.Cause} (hm : token ∈ tokens) (h : cause.found = [token.text]) :
    cause.IsAbout tokens := by
  rw [IsAbout, h]
  exact List.forall_mem_singleton.2 ⟨token, hm, rfl⟩

/-- A text that the kind of a node allows, if there are only the given tokens. -/
inductive Labels (tokens : List Token) (kind : NodeKind) : String → Prop
  | fixed {text : String} : kind.fixedText? = some text → Labels tokens kind text
  | token {token : Token} : token ∈ tokens → kind.takes token.kind = true →
    Labels tokens kind token.text

theorem Labels.of_kind {tokens : List Token} {kind : NodeKind} {text : String}
    (h : Labels tokens kind text) (hk : kind.fixedText? = none) :
    ∃ token ∈ tokens, kind.takes token.kind ∧ token.text = text := by
  cases h with
  | fixed hf => cases hk.symm.trans hf
  | token hm ht => exact ⟨_, hm, ht, rfl⟩

/-! ## Twins -/

/-- Two tokens that differ in their places at most. -/
def Token.Alike (token twin : Token) : Prop :=
  token.kind = twin.kind ∧ token.text = twin.text

instance (token twin : Token) : Decidable (token.Alike twin) :=
  inferInstanceAs (Decidable (_ ∧ _))

theorem Token.alike_self (tokens : List Token) : List.Forall₂ Token.Alike tokens tokens :=
  List.forall₂_same.2 fun _ _ => ⟨rfl, rfl⟩

def Token.Twins (tokens : List Token) (token twin : Token) : Prop :=
  token ∈ tokens ∧ token.Alike twin

/-- Cursors that have twins before them and behind them. -/
inductive Cursor.Twins (tokens : List Token) : Cursor → Cursor → Prop
  | nil {last before : Option Token} : Option.Rel (Token.Twins tokens) last before →
    Twins tokens ⟨last, []⟩ ⟨before, []⟩
  | cons {last before : Option Token} {token twin : Token} {rest others : List Token} :
    Option.Rel (Token.Twins tokens) last before →
    Twins tokens ⟨some token, rest⟩ ⟨some twin, others⟩ →
    Twins tokens ⟨last, token :: rest⟩ ⟨before, twin :: others⟩

namespace Cursor

variable {tokens : List Token} {c d : Cursor}

theorem twins_of_rel {last before : Option Token} {rest others : List Token}
    (hl : Option.Rel (Token.Twins tokens) last before)
    (hr : List.Forall₂ (Token.Twins tokens) rest others) :
    Twins tokens ⟨last, rest⟩ ⟨before, others⟩ := by
  induction hr generalizing last before with
  | nil => exact .nil hl
  | cons ht _ ih => exact .cons hl (ih (.some ht))

theorem twins_start {others : List Token} (h : List.Forall₂ Token.Alike tokens others) :
    Twins tokens ⟨none, tokens⟩ ⟨none, others⟩ :=
  twins_of_rel .none ((List.forall₂_and_left _ _).2 ⟨fun _ ht => ht, h⟩)

theorem twins_self (last : Option Token) (rest : List Token) :
    Twins (last.toList ++ rest) ⟨last, rest⟩ ⟨last, rest⟩ := by
  have hrest : List.Forall₂ (Token.Twins (last.toList ++ rest)) rest rest :=
    List.forall₂_same.2 fun _ ht => ⟨List.mem_append_right _ ht, rfl, rfl⟩
  refine twins_of_rel ?_ hrest
  cases last with
  | none => exact .none
  | some token => exact .some ⟨List.mem_cons_self, rfl, rfl⟩

/-- What has been passed last is a token with its twin. -/
theorem Twins.passed {token twin : Token} {rest others : List Token}
    (h : Twins tokens ⟨some token, rest⟩ ⟨some twin, others⟩) : Token.Twins tokens token twin := by
  have hl : Option.Rel (Token.Twins tokens) (some token) (some twin) := by
    cases h <;> assumption
  cases hl with
  | some ht => exact ht

theorem Twins.any_head_eq (h : c.Twins tokens d) (kind : TokenKind) :
    (c.rest.head?.any fun token => token.kind == kind) =
      d.rest.head?.any fun token => token.kind == kind := by
  cases h with
  | nil => rfl
  | cons _ hs => simp [hs.passed.2.1]

theorem Twins.skip (h : c.Twins tokens d) : c.skip.Twins tokens d.skip := by
  cases h with
  | nil hl => exact .nil hl
  | cons _ hs => exact hs

end Cursor

/-! ## Construction -/

/-- What a run has built and recorded on the way from one cursor to another. -/
structure Stretch where
  start : Cursor
  nodes : List Node
  errors : List SyntaxError
  next : Cursor

/-- Stretches of two runs in which the same is done, to tokens of the given ones and to their
twins. -/
inductive Built (tokens : List Token) : Stretch → Stretch → Prop
  | quiet {c d next later : Cursor} : c.Reaches next → d.Reaches later →
    next.Twins tokens later → Built tokens ⟨c, [], [], next⟩ ⟨d, [], [], later⟩
  | append {c d between amid next later : Cursor} {nodes others more extra : List Node}
    {errors faults added found : List SyntaxError} :
    Built tokens ⟨c, nodes, errors, between⟩ ⟨d, others, faults, amid⟩ →
    Built tokens ⟨between, more, added, next⟩ ⟨amid, extra, found, later⟩ →
    Built tokens ⟨c, nodes ++ more, errors ++ added, next⟩
      ⟨d, others ++ extra, faults ++ found, later⟩
  | node {c d next later : Cursor} {kind : NodeKind} {text : String} {line place : Nat}
    {nodes others : List Node} {errors faults : List SyntaxError} : Labels tokens kind text →
    Built tokens ⟨c, nodes, errors, next⟩ ⟨d, others, faults, later⟩ →
    Built tokens ⟨c, [⟨kind, text, line, nodes⟩], errors, next⟩
      ⟨d, [⟨kind, text, place, others⟩], faults, later⟩
  | failure {c d next later : Cursor} {cause : SyntaxError.Cause} {nodes others : List Node}
    {errors faults : List SyntaxError} :
    cause.IsAbout tokens →
    Built tokens ⟨c, nodes, errors, next⟩ ⟨d, others, faults, later⟩ →
    Built tokens
      ⟨c, [.leaf .error cause.message next.blame.line], errors ++ [⟨cause, next.blame⟩], next⟩
      ⟨d, [.leaf .error cause.message later.blame.line], faults ++ [⟨cause, later.blame⟩], later⟩

namespace Built

variable {tokens : List Token} {s t : Stretch}

theorem twins (h : Built tokens s t) : s.next.Twins tokens t.next := by
  induction h with
  | quiet _ _ h => exact h
  | append _ _ _ ih => exact ih
  | node _ _ ih => exact ih
  | failure _ _ ih => exact ih

theorem reaches (h : Built tokens s t) : s.start.Reaches s.next := by
  induction h with
  | quiet h => exact h
  | append _ _ ih ihl => exact ih.trans ihl
  | node _ _ ih => exact ih
  | failure _ _ ih => exact ih

/-- Each node has a text that its kind allows, or it is an error leaf and its text is a message
about tokens. -/
theorem texts (h : Built tokens s t) {n : Node} (hn : n.OccursAmong s.nodes) :
    Labels tokens n.kind n.text ∨ n.kind = .error ∧ ∃ cause : SyntaxError.Cause,
      n.text = cause.message ∧ cause.IsAbout tokens := by
  induction h with
  | quiet => exact absurd hn Node.occursAmong_nil
  | append _ _ ih iho =>
    rcases Node.occursAmong_append.1 hn with hn | hn
    · exact ih hn
    · exact iho hn
  | node hl _ ih =>
    rw [Node.occursAmong_cons, Node.occursIn_iff] at hn
    rcases hn with (rfl | hn) | hn
    · exact .inl hl
    · exact ih hn
    · exact absurd hn Node.occursAmong_nil
  | failure hf =>
    simp only [Node.leaf, Node.occursAmong_cons, Node.occursIn_iff, Node.occursAmong_nil,
      or_false] at hn
    rw [hn]
    exact .inr ⟨rfl, _, rfl, hf⟩

/-- Each node that is no error leaf has a text that its kind allows. -/
theorem labels (h : Built tokens s t) {n : Node} (hn : n.OccursAmong s.nodes)
    (hk : n.kind ≠ .error) : Labels tokens n.kind n.text :=
  (h.texts hn).resolve_right fun he => hk he.1

theorem causes_eq (h : Built tokens s t) :
    s.errors.map SyntaxError.cause = t.errors.map SyntaxError.cause := by
  induction h with
  | quiet => rfl
  | append _ _ ih iho =>
    dsimp only at ih iho ⊢
    rw [List.map_append, List.map_append, ih, iho]
  | node _ _ ih => exact ih
  | failure _ _ ih =>
    dsimp only at ih ⊢
    rw [List.map_append, List.map_append, ih, List.map_singleton, List.map_singleton]

variable {c d next later : Cursor} {nodes others : List Node} {errors faults : List SyntaxError}

theorem behind {last before : Option Token} {token twin : Token} {rest mates : List Token}
    (hs : Cursor.Twins tokens ⟨some token, rest⟩ ⟨some twin, mates⟩)
    (h : Built tokens ⟨⟨some token, rest⟩, nodes, errors, next⟩
      ⟨⟨some twin, mates⟩, others, faults, later⟩) :
    Built tokens ⟨⟨last, token :: rest⟩, nodes, errors, next⟩
      ⟨⟨before, twin :: mates⟩, others, faults, later⟩ :=
  .append (.quiet (Cursor.reaches_cons _ _ _) (Cursor.reaches_cons _ _ _) hs) h

theorem skip (h : Built tokens ⟨c, nodes, errors, next⟩ ⟨d, others, faults, later⟩) :
    Built tokens ⟨c, nodes, errors, next.skip⟩ ⟨d, others, faults, later.skip⟩ := by
  have hskip : Built tokens ⟨next, [], [], next.skip⟩ ⟨later, [], [], later.skip⟩ :=
    .quiet (Cursor.reaches_skip _) (Cursor.reaches_skip _) h.twins.skip
  simpa using h.append hskip

end Built

namespace Parsed

variable {α β : Type} {c d : Cursor} {tokens : List Token}

def single (parsed : Parsed Node c) : Stretch :=
  ⟨c, [parsed.value], parsed.errors, parsed.next⟩

def several (parsed : Parsed (List Node) c) : Stretch :=
  ⟨c, parsed.value, parsed.errors, parsed.next⟩

/-- What has been parsed, seen from an earlier cursor, with the errors recorded from there on. -/
def since (parsed : Parsed Node c) (start : Cursor) (errors : List SyntaxError) : Stretch :=
  ⟨start, [parsed.value], errors ++ parsed.errors, parsed.next⟩

theorem built_give (h : c.Twins tokens d) : Built tokens
    (give [] : Parsed (List Node) c).several (give [] : Parsed (List Node) d).several :=
  .quiet (.refl c) (.refl d) h

theorem built_leaf {kind : NodeKind} {text : String} {line place : Nat}
    (hl : Labels tokens kind text) (h : c.Twins tokens d) :
    Built tokens (give (.leaf kind text line) : Parsed Node c).single
      (give (.leaf kind text place) : Parsed Node d).single :=
  .node hl (built_give h)

/-- A failure may replace what has been parsed before. -/
theorem built_andThen_fail {parsed : Parsed α c} {twin : Parsed β d} {nodes others : List Node}
    {cause : SyntaxError.Cause} (h : Built tokens ⟨c, nodes, parsed.errors, parsed.next⟩
      ⟨d, others, twin.errors, twin.next⟩)
    (hf : cause.IsAbout tokens) :
    Built tokens (parsed.andThen (fail cause)).single (twin.andThen (fail cause)).single :=
  .failure hf h

theorem built_fail {cause : SyntaxError.Cause} (h : c.Twins tokens d)
    (hf : cause.IsAbout tokens) :
    Built tokens (fail cause : Parsed Node c).single (fail cause : Parsed Node d).single :=
  .failure hf (built_give h)

theorem accept?_twins {parsed : Parsed α c} {twin : Parsed β d}
    (h : parsed.next.Twins tokens twin.next) (kind : TokenKind) :
    (parsed.accept? kind = some parsed.skip ∧ twin.accept? kind = some twin.skip) ∨
      (parsed.accept? kind = none ∧ twin.accept? kind = none) := by
  rw [accept?, accept?, h.any_head_eq kind]
  split
  · exact .inl ⟨rfl, rfl⟩
  · exact .inr ⟨rfl, rfl⟩

theorem built_cons {parsed : Parsed Node c} {twin : Parsed Node d}
    {later : Parsed (List Node) parsed.next} {other : Parsed (List Node) twin.next}
    (h : Built tokens parsed.single twin.single) (hl : Built tokens later.several other.several) :
    Built tokens (parsed.cons later).several (twin.cons other).several :=
  .append h hl

section

variable {parsed : Parsed (List Node) c} {twin : Parsed (List Node) d}

theorem built_node {kind : NodeKind} {text : String} {line place : Nat}
    (hl : Labels tokens kind text) (h : Built tokens parsed.several twin.several) :
    Built tokens (parsed.node kind text line).single (twin.node kind text place).single :=
  .node hl h

theorem built_snoc {later : Parsed Node parsed.next} {other : Parsed Node twin.next}
    (h : Built tokens parsed.several twin.several) (hl : Built tokens later.single other.single) :
    Built tokens (parsed.snoc later).several (twin.snoc other).several :=
  .append h hl

theorem built_child {parse : (next : Cursor) → Parsed Node next}
    (h : Built tokens parsed.several twin.several)
    (hp : ∀ {next later : Cursor}, next.Twins tokens later →
      Built tokens (parse next).single (parse later).single) :
    Built tokens (parsed.child parse).several (twin.child parse).several :=
  built_snoc h (hp h.twins)

theorem built_delimit (kind : TokenKind) (cause : SyntaxError.Cause)
    (h : Built tokens parsed.several twin.several)
    (hf : cause.IsAbout tokens) :
    Built tokens (parsed.delimit kind cause).several (twin.delimit kind cause).several := by
  rw [delimit, delimit]
  rcases accept?_twins h.twins kind with ⟨hx, hy⟩ | ⟨hx, hy⟩
  · rw [hx, hy]
    exact h.skip
  · rw [hx, hy]
    exact built_snoc h (built_fail h.twins hf)

theorem built_require {kind : TokenKind} {cause : SyntaxError.Cause}
    {proceed : Parsed (List Node) c → Parsed Node c}
    {other : Parsed (List Node) d → Parsed Node d}
    (h : Built tokens parsed.several twin.several)
    (hf : cause.IsAbout tokens)
    (hp : ∀ later mate, Built tokens later.several mate.several →
      Built tokens (proceed later).single (other mate).single) :
    Built tokens (parsed.require kind cause proceed).single
      (twin.require kind cause other).single := by
  rw [require, require]
  rcases accept?_twins h.twins kind with ⟨hx, hy⟩ | ⟨hx, hy⟩
  · rw [hx, hy]
    exact hp _ _ h.skip
  · rw [hx, hy]
    exact built_andThen_fail h hf

end

end Parsed
end BlockLang
