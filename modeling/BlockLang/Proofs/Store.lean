import BlockLang.Store
import Mathlib.Data.List.Nodup

/-! # Bindings of a store

A store is looked at as the collection of its bindings. In an ordered store they are kept
under their own names, and those of a name in strict order of their levels. A binding
then is known by its name and level, and each operation has one law that says which
bindings there are afterwards.
-/
namespace BlockLang

/-- What stays of a binding when its value changes. -/
def Binding.unset (binding : Binding) : Binding :=
  { binding with value := none }

namespace Binding

variable {binding other : Binding}

theorem name_eq_of_unset (h : binding.unset = other.unset) : binding.name = other.name :=
  show binding.unset.name = other.unset.name from congrArg name h

theorem level_eq_of_unset (h : binding.unset = other.unset) : binding.level = other.level :=
  show binding.unset.level = other.unset.level from congrArg level h

theorem size_eq_of_unset (h : binding.unset = other.unset) : binding.size = other.size :=
  show binding.unset.size = other.unset.size from congrArg size h

end Binding

namespace Store

/-- The bindings of a store, whatever name they are kept under. -/
instance : Membership Binding Store where
  mem store binding := ∃ name, binding ∈ store.bindingsOf name

structure Ordered (store : Store) : Prop where
  nonempty : ∀ name : String, store.table[name]? ≠ some []
  named : ∀ name, ∀ binding ∈ store.bindingsOf name, binding.name = name
  increasing : ∀ name,
    (store.bindingsOf name).Pairwise fun binding later => binding.level < later.level

variable {store : Store} {binding other : Binding} {bindings : List Binding} {name : String}
  {level : Nat}

theorem mem_of_mem_bindingsOf (h : binding ∈ store.bindingsOf name) : binding ∈ store :=
  ⟨name, h⟩

theorem Ordered.mem_bindingsOf (h : store.Ordered) :
    binding ∈ store.bindingsOf name ↔ binding ∈ store ∧ binding.name = name := by
  constructor
  · intro hb
    exact ⟨mem_of_mem_bindingsOf hb, h.named name binding hb⟩
  · rintro ⟨⟨kept, hb⟩, rfl⟩
    rwa [h.named kept binding hb]

theorem Ordered.nodup_levels (h : store.Ordered) (name : String) :
    ((store.bindingsOf name).map Binding.level).Nodup :=
  List.pairwise_map.2 ((h.increasing name).imp Nat.ne_of_lt)

/-- A name has at most one binding at each level. -/
theorem Ordered.eq_of_level_eq (h : store.Ordered) (hb : binding ∈ store) (ho : other ∈ store)
    (hn : binding.name = other.name) (hl : binding.level = other.level) : binding = other := by
  exact List.inj_on_of_nodup_map (h.nodup_levels other.name) (h.mem_bindingsOf.2 ⟨hb, hn⟩)
    (h.mem_bindingsOf.2 ⟨ho, rfl⟩) hl

/-! ## Looking up -/

/-- What is found in an ordered list is the first of those that are looked for. -/
theorem find?_eq_some_iff_of_pairwise {α : Type} {R : α → α → Prop} {p : α → Bool} {xs : List α}
    {a : α} (hr : ∀ a b, R a b → ¬R b a) (h : xs.Pairwise R) :
    xs.find? p = some a ↔ a ∈ xs ∧ p a ∧ ∀ b ∈ xs, p b → b = a ∨ R a b := by
  rw [List.find?_eq_some_iff_append]
  constructor
  · rintro ⟨hp, before, behind, rfl, hbefore⟩
    refine ⟨by simp, hp, fun b hb hpb => ?_⟩
    obtain hb | hb := List.mem_append.1 hb
    · exact absurd hpb (by simpa using hbefore b hb)
    · obtain rfl | hb := List.mem_cons.1 hb
      · exact .inl rfl
      · exact .inr (List.rel_of_pairwise_cons (List.pairwise_append.1 h).2.1 hb)
  · rintro ⟨ha, hp, hall⟩
    obtain ⟨before, behind, rfl⟩ := List.append_of_mem ha
    refine ⟨hp, before, behind, rfl, fun b hb => ?_⟩
    have hba : R b a := (List.pairwise_append.1 h).2.2 b hb a List.mem_cons_self
    have hnot : ¬p b := by
      intro hpb
      obtain rfl | hab := hall b (List.mem_append_left _ hb) hpb
      · exact hr b b hba hba
      · exact hr a b hab hba
    simpa using hnot

theorem exists_of_find?_reverse {α : Type} {p : α → Bool} {xs : List α} {a : α}
    (h : xs.reverse.find? p = some a) :
    p a ∧ ∃ before behind, xs = before ++ a :: behind ∧ ∀ b ∈ behind, ¬p b := by
  obtain ⟨hp, inner, outer, hsplit, hinner⟩ := List.find?_eq_some_iff_append.1 h
  refine ⟨hp, outer.reverse, inner.reverse, ?_, by simpa using hinner⟩
  rw [← List.reverse_reverse xs, hsplit]
  simp

theorem Ordered.visible?_eq_some (h : store.Ordered) :
    store.visible? name level = some binding ↔
      binding ∈ store ∧ binding.name = name ∧ binding.level ≤ level ∧
        ∀ other ∈ store, other.name = name → other.level ≤ level →
          other.level ≤ binding.level := by
  have hdown : (store.bindingsOf name).reverse.Pairwise fun b c => c.level < b.level :=
    List.pairwise_reverse.2 (h.increasing name)
  rw [visible?, find?_eq_some_iff_of_pairwise (fun _ _ => Nat.lt_asymm) hdown]
  simp only [List.mem_reverse, h.mem_bindingsOf, decide_eq_true_eq]
  constructor
  · rintro ⟨⟨hb, hn⟩, hl, hall⟩
    refine ⟨hb, hn, hl, fun other ho hname hle => ?_⟩
    obtain rfl | hlt := hall other ⟨ho, hname⟩ hle
    · exact Nat.le_refl _
    · exact Nat.le_of_lt hlt
  · rintro ⟨hb, hn, hl, hmax⟩
    refine ⟨⟨hb, hn⟩, hl, fun other ho hle => ?_⟩
    obtain heq | hlt := Nat.eq_or_lt_of_le (hmax other ho.1 ho.2 hle)
    · exact .inl (h.eq_of_level_eq ho.1 hb (ho.2.trans hn.symm) heq)
    · exact .inr hlt

/-- A name that has a binding at a level or below is visible there. -/
theorem exists_visible? (hb : binding ∈ store.bindingsOf name) (hl : binding.level ≤ level) :
    ∃ found, store.visible? name level = some found := by
  rw [← Option.isSome_iff_exists, visible?, List.isSome_find?, List.any_reverse, List.any_eq_true]
  exact ⟨binding, hb, by simpa using hl⟩

theorem atLevel?_eq_none :
    store.atLevel? name level = none ↔ ∀ other ∈ store.bindingsOf name, other.level ≠ level := by
  simp [atLevel?]

/-! ## Inserting -/

/-- A binding is put behind those whose level is not above its own. -/
theorem exists_place (binding : Binding) (h : bindings.Pairwise fun b c => b.level ≤ c.level) :
    ∃ lower higher, bindings = lower ++ higher ∧
      place binding bindings = lower ++ binding :: higher ∧
      (∀ b ∈ lower, b.level ≤ binding.level) ∧ ∀ b ∈ higher, binding.level < b.level := by
  induction bindings with
  | nil => exact ⟨[], [], rfl, rfl, List.forall_mem_nil _, List.forall_mem_nil _⟩
  | cons first bindings ih =>
    obtain ⟨hfirst, hrest⟩ := List.pairwise_cons.1 h
    by_cases hl : binding.level < first.level
    · refine ⟨[], first :: bindings, rfl, if_pos hl, List.forall_mem_nil _, ?_⟩
      exact List.forall_mem_cons.2 ⟨hl, fun b hb => Nat.lt_of_lt_of_le hl (hfirst b hb)⟩
    · obtain ⟨lower, higher, rfl, hplace, hlow, hhigh⟩ := ih hrest
      refine ⟨first :: lower, higher, rfl, ?_, ?_, hhigh⟩
      · rw [place, if_neg hl, hplace, List.cons_append]
      · exact List.forall_mem_cons.2 ⟨Nat.le_of_not_lt hl, hlow⟩

theorem mem_place : other ∈ place binding bindings ↔ other = binding ∨ other ∈ bindings := by
  induction bindings with
  | nil => simp [place]
  | cons first bindings ih =>
    rw [place]
    split
    · exact List.mem_cons
    · rw [List.mem_cons, ih, List.mem_cons]
      exact or_left_comm

theorem pairwise_place (h : bindings.Pairwise fun b c => b.level < c.level)
    (hfresh : ∀ other ∈ bindings, other.level ≠ binding.level) :
    (place binding bindings).Pairwise fun b c => b.level < c.level := by
  obtain ⟨lower, higher, rfl, hplace, hlow, hhigh⟩ := exists_place binding (h.imp Nat.le_of_lt)
  obtain ⟨hlower, hhigher, hcross⟩ := List.pairwise_append.1 h
  rw [hplace]
  refine List.pairwise_append.2 ⟨hlower, List.pairwise_cons.2 ⟨hhigh, hhigher⟩, ?_⟩
  refine fun other ho => List.forall_mem_cons.2 ⟨?_, hcross other ho⟩
  exact Nat.lt_of_le_of_ne (hlow other ho) (hfresh other (List.mem_append_left _ ho))

theorem mem_insert : other ∈ store.insert binding ↔ other = binding ∨ other ∈ store := by
  constructor
  · rintro ⟨name, ho⟩
    rw [bindingsOf_insert] at ho
    split at ho
    · exact (mem_place.1 ho).imp_right mem_of_mem_bindingsOf
    · exact .inr (mem_of_mem_bindingsOf ho)
  · rintro (rfl | ⟨name, ho⟩)
    · refine ⟨other.name, ?_⟩
      rw [bindingsOf_insert, if_pos rfl]
      exact mem_place.2 (.inl rfl)
    · refine ⟨name, ?_⟩
      rw [bindingsOf_insert]
      split
      · exact mem_place.2 (.inr ho)
      · exact ho

theorem Ordered.insert (h : store.Ordered)
    (hfresh : ∀ other ∈ store, other.name = binding.name → other.level ≠ binding.level) :
    (store.insert binding).Ordered where
  nonempty name := by
    by_cases hn : binding.name = name
    · subst hn
      have hne : place binding (store.bindingsOf binding.name) ≠ [] :=
        List.ne_nil_of_mem (mem_place.2 (.inl rfl))
      simpa [Store.insert, bindingsOf] using hne
    · simpa [Store.insert, Std.ExtTreeMap.getElem?_alter, hn] using h.nonempty name
  named name other ho := by
    rw [bindingsOf_insert] at ho
    split at ho
    · rename_i hn
      obtain rfl | ho := mem_place.1 ho
      · exact hn
      · exact h.named name other ho
    · exact h.named name other ho
  increasing name := by
    rw [bindingsOf_insert]
    split
    · rename_i hn
      refine pairwise_place (h.increasing name) fun other ho => ?_
      obtain ⟨hmem, hname⟩ := h.mem_bindingsOf.1 ho
      exact hfresh other hmem (hname.trans hn.symm)
    · exact h.increasing name

/-! ## Giving values -/

theorem assignLast_eq_self {value : Option Value} (h : ∀ b ∈ bindings, ¬b.level ≤ level) :
    assignLast level value bindings = bindings := by
  cases bindings with
  | nil => rfl
  | cons first bindings =>
    obtain ⟨hfirst, hrest⟩ := List.forall_mem_cons.1 h
    rw [assignLast, if_neg (by simpa using hrest), if_neg hfirst]

theorem assignLast_append_cons {value : Option Value} {older above : List Binding}
    (hl : binding.level ≤ level) (h : ∀ b ∈ above, ¬b.level ≤ level) :
    assignLast level value (older ++ binding :: above) =
      older ++ { binding with value := value } :: above := by
  induction older with
  | nil => rw [List.nil_append, assignLast, if_neg (by simpa using h), if_pos hl, List.nil_append]
  | cons first older ih =>
    have hany : (older ++ binding :: above).any fun later => later.level ≤ level := by
      simp [hl]
    rw [List.cons_append, assignLast, if_pos hany, ih, List.cons_append]

/-- What becomes of a binding when a value is given to the visible binding of a name. -/
def assigned (store : Store) (name : String) (level : Nat) (value : Option Value)
    (binding : Binding) : Binding :=
  if store.visible? name level = some binding then { binding with value := value } else binding

@[simp] theorem unset_assigned (value : Option Value) :
    (store.assigned name level value binding).unset = binding.unset := by
  unfold assigned
  split <;> rfl

theorem assigned_of_ne {value : Option Value} (h : store.visible? name level ≠ some binding) :
    store.assigned name level value binding = binding :=
  if_neg h

theorem assigned_self {value : Option Value} (h : store.visible? name level = some binding) :
    store.assigned name level value binding = { binding with value := value } :=
  if_pos h

theorem Ordered.bindingsOf_assign_eq_map (h : store.Ordered) (value : Option Value)
    (kept : String) : (store.assign name level value).bindingsOf kept =
      (store.bindingsOf kept).map (store.assigned name level value) := by
  have hself (bs : List Binding) (hbs : ∀ b ∈ bs, store.visible? name level ≠ some b) :
      bs.map (store.assigned name level value) = bs :=
    (List.map_congr_left fun b hb => assigned_of_ne (hbs b hb)).trans (List.map_id bs)
  rw [bindingsOf_assign]
  split
  · rename_i hname
    subst hname
    cases hv : store.visible? name level with
    | none =>
      rw [hself _ (by simp [hv]), assignLast_eq_self]
      intro b hb hl
      obtain ⟨found, hf⟩ := exists_visible? hb hl
      cases hv.symm.trans hf
    | some found =>
      obtain ⟨hl, older, above, hlist, habove⟩ := exists_of_find?_reverse hv
      have hnodup : (store.bindingsOf name).Nodup := (h.nodup_levels name).of_map _
      rw [hlist] at hnodup ⊢
      rw [assignLast_append_cons (by simpa using hl) (by simpa using habove), List.map_append,
        List.map_cons, assigned_self hv, hself, hself]
      · rintro b hb he
        cases hv.symm.trans he
        exact (List.nodup_cons.1 (List.nodup_append.1 hnodup).2.1).1 hb
      · rintro b hb he
        cases hv.symm.trans he
        exact (List.nodup_append.1 hnodup).2.2 _ hb _ List.mem_cons_self rfl
  · rename_i hname
    refine (hself _ fun b hb he => hname ?_).symm
    exact ((h.visible?_eq_some.1 he).2.1).symm.trans (h.named kept b hb)

theorem Ordered.mem_assign (h : store.Ordered) (value : Option Value) :
    other ∈ store.assign name level value ↔
      ∃ binding ∈ store, other = store.assigned name level value binding := by
  constructor
  · rintro ⟨kept, ho⟩
    rw [h.bindingsOf_assign_eq_map] at ho
    obtain ⟨binding, hb, rfl⟩ := List.mem_map.1 ho
    exact ⟨binding, mem_of_mem_bindingsOf hb, rfl⟩
  · rintro ⟨binding, ⟨kept, hb⟩, rfl⟩
    refine ⟨kept, ?_⟩
    rw [h.bindingsOf_assign_eq_map]
    exact List.mem_map_of_mem hb

theorem Ordered.assign (h : store.Ordered) (value : Option Value) :
    (store.assign name level value).Ordered where
  nonempty kept := by
    intro hempty
    have hnil : (store.assign name level value).bindingsOf kept = [] := by
      simp [bindingsOf, hempty]
    rw [h.bindingsOf_assign_eq_map, List.map_eq_nil_iff] at hnil
    cases hk : store.table[kept]? with
    | some bindings =>
      rw [bindingsOf, hk] at hnil
      exact h.nonempty kept (hk.trans (congrArg some hnil))
    | none =>
      by_cases hn : name = kept
      · subst hn
        simp [Store.assign, hk] at hempty
      · simp [Store.assign, Std.ExtTreeMap.getElem?_modify, hn, hk] at hempty
  named kept other ho := by
    rw [h.bindingsOf_assign_eq_map] at ho
    obtain ⟨binding, hb, rfl⟩ := List.mem_map.1 ho
    exact (Binding.name_eq_of_unset (unset_assigned value)).trans (h.named kept binding hb)
  increasing kept := by
    rw [h.bindingsOf_assign_eq_map, List.pairwise_map]
    refine (h.increasing kept).imp fun hlt => ?_
    rwa [Binding.level_eq_of_unset (unset_assigned value),
      Binding.level_eq_of_unset (unset_assigned value)]

/-! ## Forgetting -/

theorem mem_upTo : binding ∈ store.upTo level ↔ binding ∈ store ∧ binding.level ≤ level := by
  have hmem (name : String) : binding ∈ (store.upTo level).bindingsOf name ↔
      binding ∈ store.bindingsOf name ∧ binding.level ≤ level := by
    rw [bindingsOf_upTo, List.mem_filter, decide_eq_true_eq]
  constructor
  · rintro ⟨name, hb⟩
    exact ⟨mem_of_mem_bindingsOf ((hmem name).1 hb).1, ((hmem name).1 hb).2⟩
  · rintro ⟨⟨name, hb⟩, hl⟩
    exact mem_of_mem_bindingsOf ((hmem name).2 ⟨hb, hl⟩)

theorem Ordered.upTo (h : store.Ordered) (level : Nat) : (store.upTo level).Ordered where
  nonempty name := by
    simp only [Store.upTo, Std.ExtTreeMap.getElem?_filterMap]
    cases hb : store.table[name]? with
    | none => simp
    | some bindings =>
      rw [Option.pbind_some]
      split
      · simp
      · rename_i hne
        simpa using hne
  named name binding hb := by
    rw [bindingsOf_upTo] at hb
    exact h.named name binding (List.mem_filter.1 hb).1
  increasing name := by
    rw [bindingsOf_upTo]
    exact (h.increasing name).filter _

theorem not_mem_empty : binding ∉ empty := by
  rintro ⟨name, hb⟩
  rw [bindingsOf_empty] at hb
  cases hb

theorem ordered_empty : empty.Ordered where
  nonempty name := by simp [empty]
  named name binding hb := by
    rw [bindingsOf_empty] at hb
    cases hb
  increasing name := by
    rw [bindingsOf_empty]
    exact .nil

end Store
end BlockLang
