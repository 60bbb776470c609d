import BlockLang.Tree.Cursor

/-! # Reading without errors

A result reads a value if it records no error on the way; only the value and the
tokens that it leaves matter then. The laws say how the parser's combinators
read, and what follows about their parts if they have recorded no error.
-/
namespace BlockLang

def NotNext (kinds : List TokenKind) (rest : List Token) : Prop :=
  ∀ token ∈ rest.head?, token.kind ∉ kinds

@[simp] theorem notNext_nil (kinds : List TokenKind) : NotNext kinds [] := by
  simp [NotNext]

@[simp] theorem notNext_cons {kinds : List TokenKind} {token : Token} {tokens : List Token} :
    NotNext kinds (token :: tokens) ↔ token.kind ∉ kinds := by
  simp [NotNext]

theorem NotNext.mono {few many : List TokenKind} {rest : List Token} (h : NotNext many rest)
    (hs : few ⊆ many) : NotNext few rest :=
  fun token ht hk => h token ht (hs hk)

theorem enclosed_append (opening closing : Token) (ts rest : List Token) :
    (opening :: ts ++ [closing]) ++ rest = opening :: (ts ++ closing :: rest) := by
  simp

namespace Parsed

variable {α β : Type} {c : Cursor}

/-- The value is read without an error, and `rest` is left. -/
structure Reads (parsed : Parsed α c) (value : α) (rest : List Token) : Prop where
  value_eq : parsed.value = value
  errors_eq : parsed.errors = []
  rest_eq : parsed.next.rest = rest

theorem Reads.next_eq {parsed : Parsed α c} {value : α} {rest : List Token}
    (h : parsed.Reads value rest) : ∃ last, parsed.next = ⟨last, rest⟩ := by
  obtain ⟨-, -, rfl⟩ := h
  exact ⟨parsed.next.last, rfl⟩

theorem reads_give (value : α) : (give value : Parsed α c).Reads value c.rest :=
  ⟨rfl, rfl, rfl⟩

theorem Reads.map {parsed : Parsed α c} {value : α} {rest : List Token} (f : α → β)
    (h : parsed.Reads value rest) : (parsed.map f).Reads (f value) rest :=
  ⟨congrArg f h.value_eq, h.errors_eq, h.rest_eq⟩

theorem Reads.behind {last : Option Token} {token : Token} {tokens : List Token}
    {parsed : Parsed α ⟨some token, tokens⟩} {value : α} {rest : List Token}
    (h : parsed.Reads value rest) :
    (Parsed.behind parsed : Parsed α ⟨last, token :: tokens⟩).Reads value rest :=
  ⟨h.value_eq, h.errors_eq, h.rest_eq⟩

theorem Reads.node {parsed : Parsed (List Node) c} {children : List Node} {rest : List Token}
    (h : parsed.Reads children rest) (kind : NodeKind) (text : String) (line : Nat) :
    (parsed.node kind text line).Reads ⟨kind, text, line, children⟩ rest :=
  h.map _

theorem Reads.andThen {parsed : Parsed α c} {later : Parsed β parsed.next} {value : β}
    {rest : List Token} (h : parsed.errors = []) (hl : later.Reads value rest) :
    (parsed.andThen later).Reads value rest :=
  ⟨hl.value_eq, by simp [Parsed.andThen, h, hl.errors_eq], hl.rest_eq⟩

/-- What follows a result is read as if it stood by itself. -/
theorem Reads.followed {parsed : Parsed α c} {value : α} {result : β} {between rest : List Token}
    (h : parsed.Reads value between) (more : α → (next : Cursor) → Parsed β next)
    (hm : ∀ last, (more value ⟨last, between⟩).Reads result rest) :
    (parsed.andThen (more parsed.value parsed.next)).Reads result rest := by
  obtain ⟨last, hn⟩ := h.next_eq
  refine Reads.andThen h.errors_eq ?_
  rw [h.value_eq, hn]
  exact hm last

theorem Reads.snoc {parsed : Parsed (List Node) c} {later : Parsed Node parsed.next}
    {children : List Node} {child : Node} {between rest : List Token}
    (h : parsed.Reads children between) (hl : later.Reads child rest) :
    (parsed.snoc later).Reads (children ++ [child]) rest := by
  refine Reads.andThen h.errors_eq ?_
  rw [h.value_eq]
  exact hl.map _

theorem Reads.cons {parsed : Parsed α c} {value : α} {values : List α}
    {between rest : List Token} (h : parsed.Reads value between)
    (more : (next : Cursor) → Parsed (List α) next)
    (hm : ∀ last, (more ⟨last, between⟩).Reads values rest) :
    (parsed.cons (more parsed.next)).Reads (value :: values) rest :=
  h.followed (fun value next => (more next).map (value :: ·)) fun last => (hm last).map _

/-- A procedure that reads a child wherever it starts at `between` reads one more child. -/
theorem Reads.child {parsed : Parsed (List Node) c} {children : List Node} {child : Node}
    {between rest : List Token} {parse : (next : Cursor) → Parsed Node next}
    (h : parsed.Reads children between)
    (hp : ∀ last, (parse ⟨last, between⟩).Reads child rest) :
    (parsed.child parse).Reads (children ++ [child]) rest :=
  h.followed (fun children next => (parse next).map (children ++ [·])) fun last => (hp last).map _

theorem accept?_eq_some {parsed : Parsed α c} {kind : TokenKind} {token : Token}
    {tokens : List Token} (h : parsed.next.rest = token :: tokens) (hk : token.kind = kind) :
    parsed.accept? kind = some parsed.skip := by
  simp [accept?, h, hk]

theorem accept?_eq_none {parsed : Parsed α c} {kind : TokenKind}
    (h : NotNext [kind] parsed.next.rest) : parsed.accept? kind = none := by
  cases hr : parsed.next.rest with
  | nil => simp [accept?, hr]
  | cons token tokens =>
    rw [hr, notNext_cons, List.mem_singleton] at h
    simp [accept?, hr, h]

theorem Reads.skip {parsed : Parsed α c} {value : α} {token : Token} {tokens : List Token}
    (h : parsed.Reads value (token :: tokens)) : parsed.skip.Reads value tokens := by
  refine ⟨h.value_eq, h.errors_eq, ?_⟩
  simp [Parsed.skip, Cursor.skip, h.rest_eq]

theorem Reads.delimit {parsed : Parsed (List Node) c} {children : List Node} {token : Token}
    {tokens : List Token} {kind : TokenKind} (h : parsed.Reads children (token :: tokens))
    (hk : token.kind = kind) (cause : SyntaxError.Cause) :
    (parsed.delimit kind cause).Reads children tokens := by
  rw [Parsed.delimit, accept?_eq_some h.rest_eq hk]
  exact h.skip

theorem Reads.require {parsed : Parsed (List Node) c} {children : List Node} {value : Node}
    {token : Token} {tokens rest : List Token} {kind : TokenKind}
    {proceed : Parsed (List Node) c → Parsed Node c}
    (h : parsed.Reads children (token :: tokens)) (hk : token.kind = kind)
    (cause : SyntaxError.Cause)
    (hp : ∀ later : Parsed (List Node) c, later.Reads children tokens →
      (proceed later).Reads value rest) :
    (parsed.require kind cause proceed).Reads value rest := by
  rw [Parsed.require, accept?_eq_some h.rest_eq hk]
  exact hp _ h.skip

/-! ## What is read if nothing is recorded -/

/-- If no error is recorded, then the tokens up to the rest, the value and the rest are as `P`
says. -/
def Spans (parsed : Parsed α c) (P : List Token → α → List Token → Prop) : Prop :=
  parsed.errors = [] → ∃ ts, c.rest = ts ++ parsed.next.rest ∧ P ts parsed.value parsed.next.rest

variable {P : List Token → α → List Token → Prop} {Q : List Token → β → List Token → Prop}

theorem spans_of_errors {parsed : Parsed α c} (h : parsed.errors ≠ []) : parsed.Spans P :=
  fun he => absurd he h

theorem spans_fail {P : List Token → Node → List Token → Prop} (cause : SyntaxError.Cause) :
    (fail cause : Parsed Node c).Spans P :=
  spans_of_errors (List.cons_ne_nil _ _)

theorem spans_andThen_fail {P : List Token → Node → List Token → Prop} (parsed : Parsed α c)
    (cause : SyntaxError.Cause) : (parsed.andThen (fail cause)).Spans P :=
  spans_of_errors (by simp [Parsed.andThen, fail])

theorem spans_give {value : α} (h : P [] value c.rest) : (give value : Parsed α c).Spans P :=
  fun _ => ⟨[], rfl, h⟩

theorem Spans.mono {parsed : Parsed α c} {R : List Token → α → List Token → Prop}
    (h : parsed.Spans P) (hr : ∀ ts value rest, P ts value rest → R ts value rest) :
    parsed.Spans R := by
  intro he
  obtain ⟨ts, hc, hp⟩ := h he
  exact ⟨ts, hc, hr _ _ _ hp⟩

theorem Spans.value {parsed : Parsed α c} (h : parsed.Spans P) :
    parsed.Spans fun ts value rest => value = parsed.value ∧ P ts value rest := by
  intro he
  obtain ⟨ts, hc, hp⟩ := h he
  exact ⟨ts, hc, rfl, hp⟩

theorem Spans.map {parsed : Parsed α c} {f : α → β}
    (h : parsed.Spans fun ts value rest => Q ts (f value) rest) : (parsed.map f).Spans Q :=
  h

theorem Spans.node {parsed : Parsed (List Node) c} {kind : NodeKind} {text : String} {line : Nat}
    {P : List Token → Node → List Token → Prop}
    (h : parsed.Spans fun ts children rest => P ts ⟨kind, text, line, children⟩ rest) :
    (parsed.node kind text line).Spans P :=
  h

theorem Spans.behind {last : Option Token} {token : Token} {tokens : List Token}
    {parsed : Parsed α ⟨some token, tokens⟩}
    (h : parsed.Spans fun ts value rest => P (token :: ts) value rest) :
    (Parsed.behind parsed : Parsed α ⟨last, token :: tokens⟩).Spans P := by
  intro he
  obtain ⟨ts, hc, hp⟩ := h he
  exact ⟨token :: ts, congrArg (token :: ·) hc, hp⟩

theorem Spans.andThen {parsed : Parsed α c} {later : Parsed β parsed.next} (h : parsed.Spans P)
    (hl : ∀ ts, P ts parsed.value parsed.next.rest →
      later.Spans fun us value rest => Q (ts ++ us) value rest) :
    (parsed.andThen later).Spans Q := by
  intro he
  obtain ⟨he, hel⟩ := List.append_eq_nil_iff.1 he
  obtain ⟨ts, hc, hp⟩ := h he
  obtain ⟨us, hcl, hq⟩ := hl ts hp hel
  exact ⟨ts ++ us, by rw [hc, hcl, List.append_assoc]; rfl, hq⟩

/-- The same if what is known about the later result does not depend on the earlier one. -/
theorem Spans.followed {parsed : Parsed α c} {later : Parsed β parsed.next}
    {R : List Token → β → List Token → Prop} (h : parsed.Spans P) (hl : later.Spans R)
    (hq : ∀ ts us value rest, P ts parsed.value (us ++ rest) → R us value rest →
      Q (ts ++ us) value rest) : (parsed.andThen later).Spans Q := by
  refine h.andThen fun ts ht he => ?_
  obtain ⟨us, hc, hr⟩ := hl he
  exact ⟨us, hc, hq _ _ _ _ (hc ▸ ht) hr⟩

/-- One more child is read, about which `R` is known. -/
theorem Spans.snoc {parsed : Parsed (List Node) c} {later : Parsed Node parsed.next}
    {P Q : List Token → List Node → List Token → Prop} {R : List Token → Node → List Token → Prop}
    (h : parsed.Spans P) (hl : later.Spans R)
    (hq : ∀ ts children us n rest, P ts children (us ++ rest) → R us n rest →
      Q (ts ++ us) (children ++ [n]) rest) : (parsed.snoc later).Spans Q := by
  refine h.andThen fun ts ht he => ?_
  obtain ⟨us, hc, hr⟩ := hl he
  exact ⟨us, hc, hq _ _ _ _ _ (hc ▸ ht) hr⟩

theorem Spans.child {parsed : Parsed (List Node) c} {parse : (next : Cursor) → Parsed Node next}
    {P Q : List Token → List Node → List Token → Prop} {R : List Token → Node → List Token → Prop}
    (h : parsed.Spans P) (hp : (parse parsed.next).Spans R)
    (hq : ∀ ts children us n rest, P ts children (us ++ rest) → R us n rest →
      Q (ts ++ us) (children ++ [n]) rest) : (parsed.child parse).Spans Q :=
  h.snoc hp hq

theorem Spans.cons {parsed : Parsed α c} {later : Parsed (List α) parsed.next}
    {R Q : List Token → List α → List Token → Prop} (h : parsed.Spans P) (hl : later.Spans R)
    (hq : ∀ ts value us values rest, P ts value (us ++ rest) → R us values rest →
      Q (ts ++ us) (value :: values) rest) : (parsed.cons later).Spans Q := by
  refine h.andThen fun ts ht he => ?_
  obtain ⟨us, hc, hr⟩ := hl he
  exact ⟨us, hc, hq _ _ _ _ _ (hc ▸ ht) hr⟩

theorem accept?_cases (kind : TokenKind) (parsed : Parsed α c) :
    (∃ token tokens, parsed.next.rest = token :: tokens ∧ token.kind = kind ∧
      parsed.accept? kind = some parsed.skip ∧ parsed.skip.next.rest = tokens) ∨
    (NotNext [kind] parsed.next.rest ∧ parsed.accept? kind = none) := by
  cases hr : parsed.next.rest with
  | nil => exact .inr ⟨notNext_nil _, accept?_eq_none (by simp [hr])⟩
  | cons token tokens =>
    by_cases hk : token.kind = kind
    · exact .inl ⟨token, tokens, rfl, hk, accept?_eq_some hr hk,
        by simp [Parsed.skip, Cursor.skip, hr]⟩
    · exact .inr ⟨by simpa using hk, accept?_eq_none (by simpa [hr] using hk)⟩

theorem Spans.skip {parsed : Parsed α c} {token : Token} {tokens : List Token}
    (h : parsed.Spans P) (hr : parsed.next.rest = token :: tokens) :
    parsed.skip.Spans fun ts value rest =>
      ∃ us, ts = us ++ [token] ∧ P us value (token :: rest) := by
  intro he
  obtain ⟨us, hc, hp⟩ := h he
  have hs : parsed.skip.next.rest = tokens := by simp [Parsed.skip, Cursor.skip, hr]
  exact ⟨us ++ [token], by rw [hc, hr, hs]; simp, us, rfl, by rw [hs, ← hr]; exact hp⟩

theorem Spans.delimit {parsed : Parsed (List Node) c} {kind : TokenKind}
    {cause : SyntaxError.Cause} {P Q : List Token → List Node → List Token → Prop}
    (h : parsed.Spans P) (hq : ∀ ts token children rest, token.kind = kind →
      P ts children (token :: rest) → Q (ts ++ [token]) children rest) :
    (parsed.delimit kind cause).Spans Q := by
  rw [Parsed.delimit]
  obtain ⟨token, tokens, hr, hk, ha, -⟩ | ⟨-, ha⟩ := accept?_cases kind parsed
  · rw [ha]
    refine (h.skip hr).mono ?_
    rintro _ children rest ⟨us, rfl, hp⟩
    exact hq us token children rest hk hp
  · rw [ha]
    exact spans_of_errors (by simp [Parsed.snoc, Parsed.andThen, Parsed.map, fail])

theorem Spans.require {parsed : Parsed (List Node) c} {kind : TokenKind}
    {cause : SyntaxError.Cause} {proceed : Parsed (List Node) c → Parsed Node c}
    {P : List Token → List Node → List Token → Prop} {R : List Token → Node → List Token → Prop}
    (h : parsed.Spans P)
    (hq : ∀ later : Parsed (List Node) c, (later.Spans fun ts children rest =>
      ∃ us token, ts = us ++ [token] ∧ token.kind = kind ∧ P us children (token :: rest)) →
        (proceed later).Spans R) :
    (parsed.require kind cause proceed).Spans R := by
  rw [Parsed.require]
  obtain ⟨token, tokens, hr, hk, ha, -⟩ | ⟨-, ha⟩ := accept?_cases kind parsed
  · rw [ha]
    refine hq _ ((h.skip hr).mono ?_)
    rintro _ children rest ⟨us, rfl, hp⟩
    exact ⟨us, token, rfl, hk, hp⟩
  · rw [ha]
    exact spans_andThen_fail _ _

end Parsed
end BlockLang
