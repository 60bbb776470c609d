import BlockLang.Proofs.Grammar.Kinds
import BlockLang.Proofs.Grammar.SilentStatements
import BlockLang.Proofs.Grammar.Statements

/-! # The parser accepts the sentences of the grammar

Whether tokens are a sentence depends on their kinds alone. Giving each `else` to
the nearest `if` takes no sentence away, since an `else` behind an open statement
can always be moved inward. Hence parsing is silent on the sentences, and only on
those, and builds the one tree in which each `else` belongs to the nearest `if`.
-/
namespace BlockLang.Grammar

/-- An `else` behind an open statement or block can be taken into it. -/
theorem Derives.attach {part : Part} {isOpen : Bool} {ts : List Token} {ns : List Node}
    (h : Derives true part isOpen ts ns) (ho : isOpen = true) (hp : part ≠ .statements)
    {other : Token} {vs : List Token} {last : Bool} {otherwise : Node}
    (hk : other.kind = .elseWord) (he : Derives true .block last vs [otherwise]) :
    ∃ isOpen' n, Derives true part isOpen' (ts ++ other :: vs) [n] := by
  induction h with
  | declaration => cases ho
  | assignment => cases ho
  | read => cases ho
  | write => cases ho
  | @conditional _ _ _ _ _ _ _ inner hw hopen ht hc hb ih =>
    cases inner with
    | false => exact ⟨_, _, by simpa using Derives.alternative hw hopen ht hc hb (by simp) hk he⟩
    | true =>
      obtain ⟨_, _, hb'⟩ := ih rfl (by simp)
      exact ⟨_, _, by simpa using Derives.conditional hw hopen ht hc hb'⟩
  | alternative hw hopen ht hc hb hi hother _ _ ih =>
    obtain ⟨_, _, he'⟩ := ih ho (by simp)
    exact ⟨_, _, by simpa using Derives.alternative hw hopen ht hc hb hi hother he'⟩
  | whileLoop hw hopen ht hc _ ih =>
    obtain ⟨_, _, hb'⟩ := ih ho (by simp)
    exact ⟨_, _, by simpa using Derives.whileLoop hw hopen ht hc hb'⟩
  | forLoop hw hopen hi hf ht hs hstep hc _ ih =>
    obtain ⟨_, _, hb'⟩ := ih ho (by simp)
    exact ⟨_, _, by simpa using Derives.forLoop hw hopen hi hf ht hs hstep hc hb'⟩
  | braces => cases ho
  | bare _ ih =>
    obtain ⟨_, _, hs⟩ := ih ho (by simp)
    exact ⟨_, _, .bare hs⟩
  | nil => exact absurd rfl hp
  | cons => exact absurd rfl hp

/-- What is derived at all is derived with each `else` belonging to the nearest `if`. -/
theorem Derives.exists_nearest {part : Part} {isOpen : Bool} {ts : List Token} {ns : List Node}
    (h : Derives false part isOpen ts ns) : ∃ isOpen' ns', Derives true part isOpen' ts ns' := by
  induction h with
  | declaration hw hds hc => exact ⟨_, _, .declaration hw hds hc⟩
  | assignment ha hc => exact ⟨_, _, .assignment ha hc⟩
  | read hw ho hn hc he => exact ⟨_, _, .read hw ho hn hc he⟩
  | write hw ho hv hc he => exact ⟨_, _, .write hw ho hv hc he⟩
  | conditional hw ho ht hc _ ih =>
    obtain ⟨_, _, hb⟩ := ih
    obtain ⟨_, rfl⟩ := hb.exists_eq_singleton (by simp)
    exact ⟨_, _, .conditional hw ho ht hc hb⟩
  | alternative hw ho ht hc _ _ hother _ ihb ihe =>
    obtain ⟨inner, _, hb⟩ := ihb
    obtain ⟨_, _, he⟩ := ihe
    obtain ⟨_, rfl⟩ := hb.exists_eq_singleton (by simp)
    obtain ⟨_, rfl⟩ := he.exists_eq_singleton (by simp)
    cases inner with
    | false => exact ⟨_, _, .alternative hw ho ht hc hb (by simp) hother he⟩
    | true =>
      obtain ⟨_, _, hb'⟩ := hb.attach rfl (by simp) hother he
      exact ⟨_, _, by simpa using Derives.conditional hw ho ht hc hb'⟩
  | whileLoop hw ho ht hc _ ih =>
    obtain ⟨_, _, hb⟩ := ih
    obtain ⟨_, rfl⟩ := hb.exists_eq_singleton (by simp)
    exact ⟨_, _, .whileLoop hw ho ht hc hb⟩
  | forLoop hw ho hi hf ht hs hstep hc _ ih =>
    obtain ⟨_, _, hb⟩ := ih
    obtain ⟨_, rfl⟩ := hb.exists_eq_singleton (by simp)
    exact ⟨_, _, .forLoop hw ho hi hf ht hs hstep hc hb⟩
  | braces ho _ hc ih =>
    obtain ⟨_, _, hds⟩ := ih
    exact ⟨_, _, .braces ho hds hc⟩
  | bare _ ih =>
    obtain ⟨_, _, hs⟩ := ih
    obtain ⟨_, rfl⟩ := hs.exists_eq_singleton (by simp)
    exact ⟨_, _, .bare hs⟩
  | nil => exact ⟨_, _, .nil⟩
  | cons _ _ ih ihs =>
    obtain ⟨_, _, hs⟩ := ih
    obtain ⟨_, _, hds⟩ := ihs
    obtain ⟨_, rfl⟩ := hs.exists_eq_singleton (by simp)
    exact ⟨_, _, .cons hs hds⟩

/-- A derivation with each `else` at the nearest `if` is a derivation. -/
theorem Derives.weaken {part : Part} {isOpen : Bool} {ts : List Token} {ns : List Node}
    (h : Derives true part isOpen ts ns) : Derives false part isOpen ts ns := by
  induction h with
  | declaration hw hds hc => exact .declaration hw hds hc
  | assignment ha hc => exact .assignment ha hc
  | read hw ho hn hc he => exact .read hw ho hn hc he
  | write hw ho hv hc he => exact .write hw ho hv hc he
  | conditional hw ho ht hc _ ih => exact .conditional hw ho ht hc ih
  | alternative hw ho ht hc _ _ hother _ ihb ihe =>
    exact .alternative hw ho ht hc ihb (by simp) hother ihe
  | whileLoop hw ho ht hc _ ih => exact .whileLoop hw ho ht hc ih
  | forLoop hw ho hi hf ht hs hstep hc _ ih => exact .forLoop hw ho hi hf ht hs hstep hc ih
  | braces ho _ hc ih => exact .braces ho ih hc
  | bare _ ih => exact .bare ih
  | nil => exact .nil
  | cons _ _ ih ihs => exact .cons ih ihs

/-- Parsing is silent exactly on the sentences, and the tree it builds then is the only one in
which each `else` belongs to the nearest `if`. -/
theorem parses_exactly_sentences (tokens : List Token) :
    ((Parse.program tokens).2 = [] ↔ IsSentence (tokens.map Token.kind)) ∧
      ∀ tree, Program true tokens tree ↔
        IsSentence (tokens.map Token.kind) ∧ tree = (Parse.program tokens).1 := by
  have sound : (Parse.program tokens).2 = [] → IsSentence (tokens.map Token.kind) := by
    intro h
    obtain ⟨hd⟩ := Parse.derives_of_program h
    exact ⟨tokens, _, rfl, .intro hd.weaken⟩
  have complete : IsSentence (tokens.map Token.kind) → (Parse.program tokens).2 = [] := by
    rintro ⟨others, _, hk, ⟨hd⟩⟩
    obtain ⟨_, hd⟩ := hd.of_kinds hk.symm
    obtain ⟨_, _, hd⟩ := hd.exists_nearest
    rw [Parse.program_of_derives (.intro hd)]
  refine ⟨⟨sound, complete⟩, fun tree => ⟨fun h => ?_, ?_⟩⟩
  · have hp := Parse.program_of_derives h
    exact ⟨sound (by rw [hp]), by rw [hp]⟩
  · rintro ⟨h, rfl⟩
    exact Parse.derives_of_program (complete h)

end BlockLang.Grammar
