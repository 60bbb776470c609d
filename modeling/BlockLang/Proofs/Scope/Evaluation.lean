import BlockLang.Proofs.Scope.Representation
import BlockLang.Proofs.Shape.Evaluation

/-! # Evaluation on frames

On a store that represents frames, a shaped expression has the value or the error that it
has on the frames, and a target denotes the slot that keeps what it denotes there.
-/
namespace BlockLang.Scope
open Node

def Spot.slot (spot : Spot) : Slot :=
  ⟨key spot.name spot.index, spot.kind⟩

theorem Spot.wording_eq (spot : Spot) : spot.wording = spot.slot.name := by
  obtain ⟨name, index, kind⟩ := spot
  cases index <;> rfl

/-- The frames have the variable or the cell. -/
def Spot.Points (spot : Spot) (frames : Frames) : Prop :=
  IsName spot.name ∧ ∃ entity, frames.lookup? spot.name = some entity ∧ entity.Has spot.index

/-- Under a name the store and the frames find the same, or fail with the same error. -/
def Locates (frames : Frames) (name : String) (slot : Except RuntimeError Slot)
    (spot : Except RuntimeError Spot) : Prop :=
  (∃ found, slot = .ok found.slot ∧ spot = .ok found ∧ found.name = name ∧
      found.Points frames) ∨
    ∃ error, slot = .error error ∧ spot = .error error

variable {store : Store} {frames : Frames} {level : Nat} {name : String}

theorem fetch_eq (h : Represents store frames) (hl : level + 1 = frames.length) (line : Nat)
    {spot : Spot} (hp : spot.Points frames) :
    store.fetch level line spot.name spot.slot = frames.fetch line spot := by
  obtain ⟨hn, entity, hf, he⟩ := hp
  obtain ⟨kind, hc⟩ := he.content?
  obtain ⟨binding, hb, hcontent⟩ := h.visible_eq_some hl hn hf _ hc
  have hvalue : binding.value = entity.value? spot.index := congrArg Content.value hcontent
  have hkept : (store.visible? spot.slot.name level).bind Binding.value =
      (frames.lookup? spot.name).bind (·.value? spot.index) := by
    rw [Spot.slot, hb, hf, Option.bind_some, Option.bind_some, hvalue]
  rw [Store.fetch, hkept]
  rfl

/-- The visible binding of a name says what the name stands for. -/
theorem visible_name (h : Represents store frames) (hl : level + 1 = frames.length)
    (hn : IsName name) {entity : Entity} (hf : frames.lookup? name = some entity) {kind : Kind}
    {value : Option Value} {size : Option Nat}
    (hc : entity.content? none = some ⟨kind, value, size⟩) :
    ∃ binding, store.visible? name level = some binding ∧ binding.kind = kind ∧
      binding.size = size := by
  obtain ⟨binding, hb, hcontent⟩ := h.visible_eq_some hl hn hf none hc
  exact ⟨binding, hb, congrArg Content.kind hcontent, congrArg Content.size hcontent⟩

theorem locates_variable (h : Represents store frames) (hl : level + 1 = frames.length)
    (hn : IsName name) (line : Nat) :
    Locates frames name (store.slotIn level name line []) (frames.spotIn name line []) := by
  rw [Store.slotIn, Frames.spotIn]
  cases hf : frames.lookup? name with
  | none =>
    rw [h.visible_eq_none hl hn hf]
    exact .inr ⟨_, rfl, rfl⟩
  | some entity =>
    cases entity with
    | scalar kind value =>
      obtain ⟨binding, hb, rfl, hsize⟩ := visible_name h hl hn hf rfl
      simp only [hb, hsize]
      exact .inl ⟨⟨name, none, binding.kind⟩, rfl, rfl, rfl, hn, _, hf, trivial⟩
    | array kind cells =>
      obtain ⟨binding, hb, -, hsize⟩ := visible_name h hl hn hf rfl
      simp only [hb, hsize]
      exact .inr ⟨_, rfl, rfl⟩

theorem lt_of_checkIndex {base : String} {size line index : Nat} {value : Value}
    (h : value.checkIndex base size line = .ok index) : index < size := by
  unfold Value.checkIndex at h
  split at h
  · split at h
    · cases h
    · split at h
      · cases h
        assumption
      · cases h
  · cases h

theorem locates_cell (h : Represents store frames) (hl : level + 1 = frames.length)
    (hn : IsName name) {index : Node} (hi : index.isError = false)
    (he : store.evaluate level index = frames.evaluate index) (text : String)
    (line subscriptLine : Nat) :
    let suffix : List Node := [⟨.subscript, text, subscriptLine, [index]⟩]
    Locates frames name (store.slotIn level name line suffix) (frames.spotIn name line suffix) := by
  intro suffix
  rw [Store.slotIn, Frames.spotIn, Store.evaluateFirst_cons hi, he]
  cases hf : frames.lookup? name with
  | none =>
    rw [h.visible_eq_none hl hn hf]
    exact .inr ⟨_, rfl, rfl⟩
  | some entity =>
    cases entity with
    | scalar kind value =>
      obtain ⟨binding, hb, -, hsize⟩ := visible_name h hl hn hf rfl
      simp only [hb, hsize, if_true]
      exact .inr ⟨_, rfl, rfl⟩
    | array kind cells =>
      obtain ⟨binding, hb, rfl, hsize⟩ := visible_name h hl hn hf rfl
      simp only [hb, hsize, if_true, Option.getD_some]
      cases frames.evaluate index with
      | error error => exact .inr ⟨error, rfl, rfl⟩
      | ok value =>
        change Locates frames name
          (value.checkIndex name cells.length subscriptLine >>= fun number =>
            .ok ⟨cellName name number, binding.kind⟩)
          (value.checkIndex name cells.length subscriptLine >>= fun number =>
            .ok ⟨name, some number, binding.kind⟩)
        cases hcheck : value.checkIndex name cells.length subscriptLine with
        | error error => exact .inr ⟨error, rfl, rfl⟩
        | ok number => exact .inl ⟨_, rfl, rfl, rfl, hn, _, hf, lt_of_checkIndex hcheck⟩

/-- A variable or a cell that is found has the same value. -/
theorem Locates.fetch (h : Represents store frames) (hl : level + 1 = frames.length)
    {line : Nat} {suffix : List Node}
    (hs : Locates frames name (store.slotIn level name line suffix)
      (frames.spotIn name line suffix)) :
    (store.slotIn level name line suffix >>= fun slot => store.fetch level line name slot) =
      frames.spotIn name line suffix >>= fun spot => frames.fetch line spot := by
  obtain ⟨found, hslot, hspot, rfl, hp⟩ | ⟨error, hslot, hspot⟩ := hs
  · rw [hslot, hspot]
    exact fetch_eq h hl line hp
  · rw [hslot, hspot]
    rfl

theorem evaluate_eq (h : Represents store frames) (hl : level + 1 = frames.length) {n : Node}
    (he : n.IsExpression) : store.evaluate level n = frames.evaluate n := by
  induction he with
  | int ht =>
    obtain ⟨value, hv⟩ := Option.isSome_iff_exists.1 (integer?_isSome_of_spells ht)
    simp only [leaf, Store.evaluate, Frames.evaluate, hv]
  | real ht =>
    obtain ⟨value, hv⟩ := Option.isSome_iff_exists.1 (ofText?_isSome_of_spells ht)
    simp only [leaf, Store.evaluate, Frames.evaluate, hv]
  | bool => simp only [leaf, Store.evaluate, Frames.evaluate]
  | string => simp only [leaf, Store.evaluate, Frames.evaluate]
  | scalar hs =>
    rw [leaf, Store.evaluate, Frames.evaluate]
    exact (locates_variable h hl (isName_of_spells hs) _).fetch h hl
  | cell hs hi ih =>
    rw [Store.evaluate, Frames.evaluate]
    exact (locates_cell h hl (isName_of_spells hs) (Store.isError_of_isExpression hi) ih
      _ _ _).fetch h hl
  | arithmetic _ _ ihl ihr =>
    rw [Store.evaluate_arithmetic, Frames.evaluate.eq_def]
    simp only [Operator.ofSpelling?_spelling, ihl, ihr]

theorem evaluate_eq_of_isCondition (h : Represents store frames) (hl : level + 1 = frames.length)
    {n : Node} (hc : n.IsCondition) : store.evaluate level n = frames.evaluate n := by
  cases hc with
  | plain he => exact evaluate_eq h hl he
  | @comparison text line left right _ hleft hright =>
    rw [Store.evaluate, evaluate_eq h hl hleft, evaluate_eq h hl hright]
    exact (Frames.evaluate.eq_def frames ⟨.comparison, text, line, [left, right]⟩).symm

theorem evaluateWithin_eq (h : Represents store frames) (hl : level + 1 = frames.length)
    {kind : NodeKind} {text : String} {n : Node} (hw : Wraps kind text IsCondition n) :
    store.evaluateWithin level n = frames.evaluateWithin n := by
  obtain ⟨line, inner, rfl, hi⟩ := hw
  have hne := Store.isError_of_isCondition hi
  rw [Store.evaluateWithin_eq hne, evaluate_eq_of_isCondition h hl hi]
  simp [Frames.evaluateWithin, content?, hne]

theorem locates_target (h : Represents store frames) (hl : level + 1 = frames.length) {n : Node}
    (ht : n.IsTarget) : Locates frames n.text (store.slotOf level n) (frames.spotOf n) := by
  obtain ⟨ht⟩ := ht
  cases ht with
  | scalar hs => exact locates_variable h hl (isName_of_spells hs) _
  | cell hs hi =>
    exact locates_cell h hl (isName_of_spells hs) (Store.isError_of_isExpression hi)
      (evaluate_eq h hl hi) _ _ _

end BlockLang.Scope
