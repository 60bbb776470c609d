import BlockLang.Proofs.Grammar

/-! # Kinds alone matter to the grammar

Tokens of the same kinds as those of a phrase are a phrase too, although another
tree may stand for them.
-/
namespace BlockLang.Grammar

def SameKinds (us ts : List Token) : Prop :=
  us.map Token.kind = ts.map Token.kind

theorem sameKinds_nil {us : List Token} : SameKinds us [] ↔ us = [] :=
  List.map_eq_nil_iff

theorem sameKinds_cons {us ts : List Token} {t : Token} :
    SameKinds us (t :: ts) ↔ ∃ u us', us = u :: us' ∧ u.kind = t.kind ∧ SameKinds us' ts :=
  List.map_eq_cons_iff

theorem sameKinds_append {us ts vs : List Token} :
    SameKinds us (ts ++ vs) ↔
      ∃ us₁ us₂, us = us₁ ++ us₂ ∧ SameKinds us₁ ts ∧ SameKinds us₂ vs := by
  rw [SameKinds, List.map_append]
  exact List.map_eq_append_iff

theorem Operand.of_kinds {rank : Rank} {ts us : List Token} {n : Node} (h : Operand rank ts n)
    (hk : SameKinds us ts) : ∃ m, Operand rank us m := by
  induction h generalizing us with
  | plain hn =>
    simp only [sameKinds_cons, sameKinds_nil] at hk
    obtain ⟨u, _, rfl, hu, rfl⟩ := hk
    exact ⟨_, .plain (hu.trans hn)⟩
  | subscripted hn ho _ hc ih =>
    simp only [sameKinds_cons, sameKinds_nil, sameKinds_append] at hk
    obtain ⟨_, _, rfl, ⟨_, _, rfl, hn', _, _, rfl, ho', hi⟩, _, _, rfl, hc', rfl⟩ := hk
    obtain ⟨_, hi⟩ := ih hi
    exact ⟨_, .subscripted (hn'.trans hn) (ho'.trans ho) hi (hc'.trans hc)⟩
  | ofName _ ih =>
    obtain ⟨_, hn⟩ := ih hk
    exact ⟨_, .ofName hn⟩
  | int ht =>
    simp only [sameKinds_cons, sameKinds_nil] at hk
    obtain ⟨_, _, rfl, hu, rfl⟩ := hk
    exact ⟨_, .int (hu.trans ht)⟩
  | real ht =>
    simp only [sameKinds_cons, sameKinds_nil] at hk
    obtain ⟨_, _, rfl, hu, rfl⟩ := hk
    exact ⟨_, .real (hu.trans ht)⟩
  | bool ht =>
    simp only [sameKinds_cons, sameKinds_nil] at hk
    obtain ⟨_, _, rfl, hu, rfl⟩ := hk
    exact ⟨_, .bool (hu ▸ ht)⟩
  | string ho hc hq =>
    simp only [sameKinds_cons, sameKinds_nil] at hk
    obtain ⟨_, _, rfl, ho', _, _, rfl, hc', _, _, rfl, hq', rfl⟩ := hk
    exact ⟨_, .string (ho'.trans ho) (hc'.trans hc) (hq'.trans hq)⟩
  | group ho _ hc ih =>
    simp only [sameKinds_cons, sameKinds_nil, sameKinds_append] at hk
    obtain ⟨_, _, rfl, ⟨_, _, rfl, ho', hi⟩, _, _, rfl, hc', rfl⟩ := hk
    obtain ⟨_, hn⟩ := ih hi
    exact ⟨_, .group (ho'.trans ho) hn (hc'.trans hc)⟩
  | ofFactor _ ih =>
    obtain ⟨_, hn⟩ := ih hk
    exact ⟨_, .ofFactor hn⟩
  | product _ hop _ ihl ihr =>
    simp only [sameKinds_cons, sameKinds_append] at hk
    obtain ⟨_, _, rfl, hl, _, _, rfl, hop', hr⟩ := hk
    obtain ⟨_, hl⟩ := ihl hl
    obtain ⟨_, hr⟩ := ihr hr
    exact ⟨_, .product hl (hop' ▸ hop) hr⟩
  | ofTerm _ ih =>
    obtain ⟨_, hn⟩ := ih hk
    exact ⟨_, .ofTerm hn⟩
  | sum _ hop _ ihl ihr =>
    simp only [sameKinds_cons, sameKinds_append] at hk
    obtain ⟨_, _, rfl, hl, _, _, rfl, hop', hr⟩ := hk
    obtain ⟨_, hl⟩ := ihl hl
    obtain ⟨_, hr⟩ := ihr hr
    exact ⟨_, .sum hl (hop' ▸ hop) hr⟩

theorem Condition.of_kinds {ts us : List Token} {n : Node} (h : Condition ts n)
    (hk : SameKinds us ts) : ∃ m, Condition us m := by
  cases h with
  | plain he =>
    obtain ⟨_, he⟩ := he.of_kinds hk
    exact ⟨_, .plain he⟩
  | comparison hl hop hr =>
    simp only [sameKinds_cons, sameKinds_append] at hk
    obtain ⟨_, _, rfl, hl', _, _, rfl, hop', hr'⟩ := hk
    obtain ⟨_, hl⟩ := hl.of_kinds hl'
    obtain ⟨_, hr⟩ := hr.of_kinds hr'
    exact ⟨_, .comparison hl (hop' ▸ hop) hr⟩

/-- A name is read as an identifier node. -/
theorem Operand.exists_eq_identifier {ts : List Token} {n : Node} (h : Operand .name ts n) :
    ∃ name line suffix, n = ⟨.identifier, name, line, suffix⟩ := by
  cases h with
  | plain => exact ⟨_, _, _, rfl⟩
  | subscripted => exact ⟨_, _, _, rfl⟩

theorem Declarator.of_kinds {ts us : List Token} {n : Node} (h : Declarator ts n)
    (hk : SameKinds us ts) : ∃ m, Declarator us m := by
  cases h with
  | plain hn =>
    obtain ⟨_, hn⟩ := hn.of_kinds hk
    obtain ⟨_, _, _, rfl⟩ := hn.exists_eq_identifier
    exact ⟨_, .plain hn⟩
  | initialized hn hs hc =>
    simp only [sameKinds_cons, sameKinds_append] at hk
    obtain ⟨_, _, rfl, hn', _, _, rfl, hs', hc'⟩ := hk
    obtain ⟨_, hn⟩ := hn.of_kinds hn'
    obtain ⟨_, _, _, rfl⟩ := hn.exists_eq_identifier
    obtain ⟨_, hc⟩ := hc.of_kinds hc'
    exact ⟨_, .initialized hn (hs'.trans hs) hc⟩

theorem Declarators.of_kinds {ts us : List Token} {ns : List Node} (h : Declarators ts ns)
    (hk : SameKinds us ts) : ∃ ms, Declarators us ms := by
  induction h generalizing us with
  | one hd =>
    obtain ⟨_, hd⟩ := hd.of_kinds hk
    exact ⟨_, .one hd⟩
  | more hd hc _ ih =>
    simp only [sameKinds_cons, sameKinds_append] at hk
    obtain ⟨_, _, rfl, hd', _, _, rfl, hc', hds⟩ := hk
    obtain ⟨_, hd⟩ := hd.of_kinds hd'
    obtain ⟨_, hds⟩ := ih hds
    exact ⟨_, .more hd (hc'.trans hc) hds⟩

theorem Assignment.of_kinds {ts us : List Token} {n : Node} (h : Assignment ts n)
    (hk : SameKinds us ts) : ∃ m, Assignment us m := by
  obtain ⟨ht, hs, hc⟩ := h
  simp only [sameKinds_cons, sameKinds_append] at hk
  obtain ⟨_, _, rfl, ht', _, _, rfl, hs', hc'⟩ := hk
  obtain ⟨_, ht⟩ := ht.of_kinds ht'
  obtain ⟨_, hc⟩ := hc.of_kinds hc'
  exact ⟨_, .intro ht (hs'.trans hs) hc⟩

theorem Derives.exists_eq_singleton {nearest isOpen : Bool} {part : Part} {ts : List Token}
    {ns : List Node} (h : Derives nearest part isOpen ts ns) (hp : part ≠ .statements) :
    ∃ n, ns = [n] := by
  cases h with
  | nil => exact absurd rfl hp
  | cons => exact absurd rfl hp
  | _ => exact ⟨_, rfl⟩

theorem Derives.of_kinds {nearest isOpen : Bool} {part : Part} {ts us : List Token}
    {ns : List Node} (h : Derives nearest part isOpen ts ns) (hk : SameKinds us ts) :
    ∃ ms, Derives nearest part isOpen us ms := by
  induction h generalizing us with
  | declaration hw hds hc =>
    simp only [sameKinds_cons, sameKinds_nil, sameKinds_append] at hk
    obtain ⟨_, _, rfl, ⟨_, _, rfl, hw', hds'⟩, _, _, rfl, hc', rfl⟩ := hk
    obtain ⟨_, hds⟩ := hds.of_kinds hds'
    exact ⟨_, .declaration (hw' ▸ hw) hds (hc'.trans hc)⟩
  | assignment ha hc =>
    simp only [sameKinds_cons, sameKinds_nil, sameKinds_append] at hk
    obtain ⟨_, _, rfl, ha', _, _, rfl, hc', rfl⟩ := hk
    obtain ⟨_, ha⟩ := ha.of_kinds ha'
    exact ⟨_, .assignment ha (hc'.trans hc)⟩
  | read hw ho hn hc he =>
    simp only [sameKinds_cons, sameKinds_nil, sameKinds_append] at hk
    obtain ⟨_, _, rfl, ⟨_, _, rfl, hw', _, _, rfl, ho', hn'⟩, _, _, rfl, hc', _, _, rfl, he',
      rfl⟩ := hk
    obtain ⟨_, hn⟩ := hn.of_kinds hn'
    exact ⟨_, .read (hw'.trans hw) (ho'.trans ho) hn (hc'.trans hc) (he'.trans he)⟩
  | write hw ho hv hc he =>
    simp only [sameKinds_cons, sameKinds_nil, sameKinds_append] at hk
    obtain ⟨_, _, rfl, ⟨_, _, rfl, hw', _, _, rfl, ho', hv'⟩, _, _, rfl, hc', _, _, rfl, he',
      rfl⟩ := hk
    obtain ⟨_, hv⟩ := hv.of_kinds hv'
    exact ⟨_, .write (hw'.trans hw) (ho'.trans ho) hv (hc'.trans hc) (he'.trans he)⟩
  | conditional hw ho ht hc _ ih =>
    simp only [sameKinds_cons, sameKinds_append] at hk
    obtain ⟨_, _, rfl, ⟨_, _, rfl, hw', _, _, rfl, ho', ht'⟩, _, _, rfl, hc', hb⟩ := hk
    obtain ⟨_, ht⟩ := ht.of_kinds ht'
    obtain ⟨_, hb⟩ := ih hb
    obtain ⟨_, rfl⟩ := hb.exists_eq_singleton (by simp)
    exact ⟨_, .conditional (hw'.trans hw) (ho'.trans ho) ht (hc'.trans hc) hb⟩
  | alternative hw ho ht hc _ hi hother _ ihb ihe =>
    simp only [sameKinds_cons, sameKinds_append] at hk
    obtain ⟨_, _, rfl, ⟨_, _, rfl, ⟨_, _, rfl, hw', _, _, rfl, ho', ht'⟩, _, _, rfl, hc', hb⟩,
      _, _, rfl, hother', he⟩ := hk
    obtain ⟨_, ht⟩ := ht.of_kinds ht'
    obtain ⟨_, hb⟩ := ihb hb
    obtain ⟨_, he⟩ := ihe he
    obtain ⟨_, rfl⟩ := hb.exists_eq_singleton (by simp)
    obtain ⟨_, rfl⟩ := he.exists_eq_singleton (by simp)
    exact ⟨_, .alternative (hw'.trans hw) (ho'.trans ho) ht (hc'.trans hc) hb hi
      (hother'.trans hother) he⟩
  | whileLoop hw ho ht hc _ ih =>
    simp only [sameKinds_cons, sameKinds_append] at hk
    obtain ⟨_, _, rfl, ⟨_, _, rfl, hw', _, _, rfl, ho', ht'⟩, _, _, rfl, hc', hb⟩ := hk
    obtain ⟨_, ht⟩ := ht.of_kinds ht'
    obtain ⟨_, hb⟩ := ih hb
    obtain ⟨_, rfl⟩ := hb.exists_eq_singleton (by simp)
    exact ⟨_, .whileLoop (hw'.trans hw) (ho'.trans ho) ht (hc'.trans hc) hb⟩
  | forLoop hw ho hi hf ht hs hstep hc _ ih =>
    simp only [sameKinds_cons, sameKinds_append] at hk
    obtain ⟨_, _, rfl, ⟨_, _, rfl, ⟨_, _, rfl, ⟨_, _, rfl, hw', _, _, rfl, ho', hi'⟩,
      _, _, rfl, hf', ht'⟩, _, _, rfl, hs', hstep'⟩, _, _, rfl, hc', hb⟩ := hk
    obtain ⟨_, hi⟩ := hi.of_kinds hi'
    obtain ⟨_, ht⟩ := ht.of_kinds ht'
    obtain ⟨_, hstep⟩ := hstep.of_kinds hstep'
    obtain ⟨_, hb⟩ := ih hb
    obtain ⟨_, rfl⟩ := hb.exists_eq_singleton (by simp)
    exact ⟨_, .forLoop (hw'.trans hw) (ho'.trans ho) hi (hf'.trans hf) ht (hs'.trans hs) hstep
      (hc'.trans hc) hb⟩
  | braces ho _ hc ih =>
    simp only [sameKinds_cons, sameKinds_nil, sameKinds_append] at hk
    obtain ⟨_, _, rfl, ⟨_, _, rfl, ho', hds⟩, _, _, rfl, hc', rfl⟩ := hk
    obtain ⟨_, hds⟩ := ih hds
    exact ⟨_, .braces (ho'.trans ho) hds (hc'.trans hc)⟩
  | bare _ ih =>
    obtain ⟨_, hs⟩ := ih hk
    obtain ⟨_, rfl⟩ := hs.exists_eq_singleton (by simp)
    exact ⟨_, .bare hs⟩
  | nil =>
    rw [sameKinds_nil] at hk
    subst hk
    exact ⟨_, .nil⟩
  | cons _ _ ih ihs =>
    rw [sameKinds_append] at hk
    obtain ⟨_, _, rfl, hs, hds⟩ := hk
    obtain ⟨_, hs⟩ := ih hs
    obtain ⟨_, hds⟩ := ihs hds
    obtain ⟨_, rfl⟩ := hs.exists_eq_singleton (by simp)
    exact ⟨_, .cons hs hds⟩

end BlockLang.Grammar
