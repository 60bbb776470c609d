import BlockLang.Execution.State
import BlockLang.Proofs.Scope.View

/-! # Stores that represent frames

A store represents frames if under each name, and under the name of each cell, it has
just the bindings that the frames call for. Every operation on the store then does what
the operation on the frames does.
-/
namespace BlockLang.Scope

def Represents (store : Store) (frames : Frames) : Prop :=
  ∀ name index, IsName name →
    Lists (store.bindingsOf (key name index)) (view name index) frames

variable {store : Store} {frames : Frames} {level : Nat} {name : String} {entity : Entity}

theorem represents_empty : Represents .empty (Frames.enter []) := by
  intro name index _
  rw [Store.bindingsOf_empty]
  rfl

/-! ## Looking up -/

theorem Represents.visible (h : Represents store frames) (hl : level + 1 = frames.length)
    (hn : IsName name) (index : Option Nat) :
    (store.visible? (key name index) level).map contentOf =
      frames.findSome? (view name index) :=
  (h name index hn).find_visible hl

/-- A name is visible if some frame has it. -/
theorem Represents.visible_eq_none (h : Represents store frames) (hl : level + 1 = frames.length)
    (hn : IsName name) (hf : frames.lookup? name = none) : store.visible? name level = none := by
  have hv := h.visible hl hn none
  rwa [findSome?_view_of_none hf, Option.map_eq_none_iff] at hv

theorem Represents.visible_eq_some (h : Represents store frames) (hl : level + 1 = frames.length)
    (hn : IsName name) (hf : frames.lookup? name = some entity) (index : Option Nat)
    {content : Content} (hc : entity.content? index = some content) :
    ∃ binding, store.visible? (key name index) level = some binding ∧
      contentOf binding = content := by
  have hv := h.visible hl hn index
  rwa [findSome?_view hf hc, Option.map_eq_some_iff] at hv

theorem Represents.atLevel (h : Represents store frames) (hl : level + 1 = frames.length)
    (hn : IsName name) : (store.atLevel? name level).isSome = frames.declares name := by
  cases frames with
  | nil => cases hl
  | cons frame frames =>
    cases hl
    rw [Frames.declares, List.head?_cons, Option.any_some, ← isSome_view_none]
    exact (h name none hn).find_level

/-! ## Entering and leaving blocks -/

theorem Represents.enter (h : Represents store frames) : Represents store frames.enter :=
  fun name index hn => (h name index hn).trans (contents_cons_none rfl).symm

theorem Represents.leave (h : Represents store frames) (hl : level + 1 = frames.length) :
    Represents (store.upTo (level - 1)) frames.leave := by
  intro name index hn
  rw [Store.bindingsOf_upTo]
  match frames with
  | [] => cases hl
  | [frame] =>
    cases hl
    rw [List.filter_eq_self.2 fun binding hb => by simpa using (h name index hn).level_le rfl _ hb]
    exact h name index hn
  | frame :: outer :: frames =>
    cases hl
    exact (h name index hn).filter_level rfl

theorem length_leave (hl : level + 1 = frames.length) : level - 1 + 1 = frames.leave.length := by
  match frames with
  | [] => cases hl
  | [frame] =>
    cases hl
    rfl
  | frame :: outer :: frames =>
    cases hl
    rfl

/-! ## Putting -/

theorem Represents.put (h : Represents store frames) (hl : level + 1 = frames.length)
    {spot : Spot} (hn : IsName spot.name) (hf : frames.lookup? spot.name = some entity)
    (he : entity.Has spot.index) (value : Value) :
    Represents (store.assign (key spot.name spot.index) level (some value))
      (frames.put spot value) := by
  intro name index hname
  rw [Store.bindingsOf_assign]
  obtain ⟨kind, hc⟩ := he.content?
  split
  · rename_i hk
    obtain ⟨rfl, rfl⟩ := (key_inj hn hname).1 hk
    refine (h spot.name spot.index hn).assignLast hl (contents_modify hf hc ?_)
    rw [he.content?_put, hc]
    rfl
  · rename_i hk
    refine (h name index hname).trans (contents_modify_of_ne fun hs entity => ?_).symm
    refine Entity.content?_put_of_ne ?_ value
    rintro rfl
    exact hk ((key_inj hn hname).2 ⟨hs.symm, rfl⟩)

/-! ## Declaring -/

theorem length_declare (name : String) (entity : Entity) (frames : Frames) :
    (frames.declare name entity).length = frames.length := by
  cases frames <;> rfl

/-- A declaration places one binding for each content of what it declares. -/
theorem Represents.declare {declared : Store} (h : Represents store frames)
    (hl : level + 1 = frames.length) (hf : frames.declares name = false)
    (hother : ∀ other index, IsName other → (other = name → entity.content? index = none) →
      declared.bindingsOf (key other index) = store.bindingsOf (key other index))
    (hself : ∀ index content, entity.content? index = some content →
      ∃ binding, binding.level = level ∧ contentOf binding = content ∧
        declared.bindingsOf (key name index) =
          Store.place binding (store.bindingsOf (key name index))) :
    Represents declared (frames.declare name entity) := by
  intro other index hn
  cases frames with
  | nil => cases hl
  | cons frame frames =>
    cases hl
    have hnone : frame name = none := by
      simpa [Frames.declares] using hf
    have hview (index : Option Nat) : view name index frame = none := by
      rw [view, hnone, Option.bind_none]
    by_cases hc : other = name → entity.content? index = none
    · rw [hother other index hn hc]
      refine (h other index hn).trans (contents_cons_congr ?_ rfl rfl).symm
      by_cases he : other = name
      · subst he
        rw [view_update_self, hview, hc rfl]
      · exact view_update_of_ne he _
    · obtain ⟨rfl, hs⟩ := Classical.not_imp.1 hc
      obtain ⟨content, hs⟩ := Option.ne_none_iff_exists'.1 hs
      obtain ⟨binding, hlevel, rfl, hb⟩ := hself index content hs
      rw [hb]
      exact (h other index hn).place hlevel (hview index) ((view_update_self _).trans hs)

theorem Represents.declareScalar (h : Represents store frames) (hl : level + 1 = frames.length)
    (hn : IsName name) (hf : frames.declares name = false) (kind : Kind) (line : Nat) :
    Represents (store.insert ⟨name, kind, line, level, none, none⟩)
      (frames.declare name (.scalar kind none)) := by
  refine h.declare hl hf (fun other index ho hc => ?_) fun index content hc => ?_
  · rw [Store.bindingsOf_insert, if_neg]
    intro hk
    have hk : key name none = key other index := hk
    obtain ⟨rfl, rfl⟩ := (key_inj hn ho).1 hk
    cases hc rfl
  · cases index with
    | some i => cases hc
    | none =>
      cases hc
      exact ⟨_, rfl, rfl, (Store.bindingsOf_insert _ _ _).trans (if_pos rfl)⟩

/-- The cells of an array are placed under their own names and no others. -/
theorem bindingsOf_declareCells (store : Store) (header : Binding) (hn : IsName header.name)
    {other : String} (ho : IsName other) (index : Option Nat) (count : Nat) :
    (State.declareCells store header count).bindingsOf (key other index) =
      if other = header.name ∧ index.any (· < count) then
        Store.place { header with name := key other index, size := none }
          (store.bindingsOf (key other index))
      else store.bindingsOf (key other index) := by
  induction count with
  | zero => cases index <;> simp [State.declareCells]
  | succ count ih =>
    have hstep : State.declareCells store header (count + 1) =
        (State.declareCells store header count).insert
          { header with name := key header.name (some count), size := none } :=
      State.declareCells_succ store header count
    rw [hstep, Store.bindingsOf_insert, ih]
    by_cases hk : key header.name (some count) = key other index
    · obtain ⟨rfl, rfl⟩ := (key_inj hn ho).1 hk
      simp
    · have hne : ¬(other = header.name ∧ index = some count) :=
        fun he => hk ((key_inj hn ho).2 ⟨he.1.symm, he.2.symm⟩)
      have hiff : (other = header.name ∧ index.any (· < count)) ↔
          (other = header.name ∧ index.any (· < count + 1)) := by
        refine and_congr_right fun he => ?_
        cases index with
        | none => exact Iff.rfl
        | some i =>
          have hi : i ≠ count := by
            rintro rfl
            exact hne ⟨he, rfl⟩
          simp only [Option.any_some, decide_eq_true_eq]
          omega
      rw [if_neg hk, if_congr hiff rfl rfl]

theorem Represents.declareArray (h : Represents store frames) (hl : level + 1 = frames.length)
    (hn : IsName name) (hf : frames.declares name = false) (kind : Kind) (line size : Nat) :
    let header : Binding := ⟨name, kind, line, level, none, some size⟩
    Represents (State.declareCells (store.insert header) header size)
      (frames.declare name (.array kind (List.replicate size none))) := by
  intro header
  have hcells {other : String} (ho : IsName other) (index : Option Nat) :=
    bindingsOf_declareCells (store.insert header) header hn ho index size
  refine h.declare hl hf (fun other index ho hc => ?_) fun index content hc => ?_
  · rw [hcells ho, Store.bindingsOf_insert, if_neg, if_neg]
    · intro hk
      have hk : key name none = key other index := hk
      obtain ⟨rfl, rfl⟩ := (key_inj hn ho).1 hk
      cases hc rfl
    · rintro ⟨rfl, hi⟩
      have hc := hc rfl
      cases index with
      | none => cases hc
      | some i => simp_all [Entity.content?]
  · rw [hcells hn, Store.bindingsOf_insert]
    cases index with
    | none =>
      cases hc
      refine ⟨header, rfl, by simp [header, contentOf], ?_⟩
      rw [if_neg (by simp)]
      exact if_pos rfl
    | some i =>
      have hk : header.name ≠ key name (some i) := by
        intro hk
        have hk : key name none = key name (some i) := hk
        cases ((key_inj hn hn).1 hk).2
      obtain ⟨hi, rfl⟩ : i < size ∧ (⟨kind, none, none⟩ : Content) = content := by
        simpa [Entity.content?, List.getElem?_replicate] using hc
      refine ⟨{ header with name := key name (some i), size := none }, rfl, rfl, ?_⟩
      rw [if_pos ⟨rfl, by simpa using hi⟩, if_neg hk]

end BlockLang.Scope
