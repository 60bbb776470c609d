import BlockLang.Proofs.Lexeme.Pieces
import BlockLang.Proofs.Scope.Contents
import Std.Data.String.ToNat

/-! # Views of frames

There is a view of frames for each name and for each cell, as there is a name for each of
them in the store. Identifiers have no `@`, so the name of a cell is neither an
identifier nor the name of another cell, and a change of what a frame says about one of
them does not show in the views of the others.
-/
namespace BlockLang.Scope
open Lexeme

/-! ## Names -/

/-- The name under which the store keeps a variable or an array or, under an index, a cell. -/
def key (name : String) : Option Nat → String
  | none => name
  | some index => cellName name index

/-- No cell has a name like this one. -/
def IsName (name : String) : Prop :=
  '@' ∉ name.toList

theorem isName_of_spells {name : String} (h : Spells .identifier name) : IsName name :=
  fun hm => absurd (Scan.isWordChar_of_isIdentifier h.1 _ hm) (by decide)

theorem toList_cellName (name : String) (index : Nat) :
    (cellName name index).toList = name.toList ++ '@' :: index.repr.toList := by
  simp [cellName, Nat.toString_eq_repr]

theorem takeWhile_key {name : String} (h : IsName name) (index : Option Nat) :
    (key name index).toList.takeWhile (· ≠ '@') = name.toList := by
  have hrun : ∀ c ∈ name.toList, decide (c ≠ '@') = true := by
    intro c hc
    rw [decide_eq_true_eq]
    rintro rfl
    exact h hc
  cases index with
  | none =>
    exact List.takeWhile_eq_self_iff.2 hrun
  | some index =>
    rw [key, toList_cellName]
    exact takeWhile_append_stop hrun (by simp)

theorem key_inj {name other : String} (h : IsName name) (ho : IsName other)
    {index place : Option Nat} :
    key name index = key other place ↔ name = other ∧ index = place := by
  refine ⟨fun he => ?_, by rintro ⟨rfl, rfl⟩; rfl⟩
  have hname : name = other := by
    rw [← String.toList_inj, ← takeWhile_key h index, he, takeWhile_key ho]
  subst hname
  refine ⟨rfl, ?_⟩
  have hl := congrArg String.toList he
  cases index with
  | none =>
    cases place with
    | none => rfl
    | some i => simp [key, toList_cellName] at hl
  | some i =>
    cases place with
    | none => simp [key, toList_cellName] at hl
    | some j =>
      simp only [key, toList_cellName, List.append_cancel_left_eq, List.cons.injEq, true_and,
        String.toList_inj] at hl
      rw [Nat.repr_injective hl]

/-! ## Contents of entities -/

namespace Entity

def content? : Option Nat → Entity → Option Content
  | none, .scalar kind value => some ⟨kind, value, none⟩
  | none, .array kind cells => some ⟨kind, none, some cells.length⟩
  | some _, .scalar .. => none
  | some index, .array kind cells => cells[index]?.map fun value => ⟨kind, value, none⟩

def Has : Entity → Option Nat → Prop
  | .scalar .., none => True
  | .array _ cells, some index => index < cells.length
  | _, _ => False

variable {entity : Entity} {index : Option Nat}

theorem Has.content? (h : entity.Has index) :
    ∃ kind, entity.content? index = some ⟨kind, entity.value? index, none⟩ := by
  cases entity with
  | scalar kind value =>
    cases index with
    | none => exact ⟨kind, rfl⟩
    | some i => exact h.elim
  | array kind cells =>
    cases index with
    | none => exact h.elim
    | some i =>
      have hi : i < cells.length := h
      exact ⟨kind, by simp [Entity.content?, value?, hi]⟩

theorem Has.content?_put (h : entity.Has index) (value : Value) :
    (entity.put value index).content? index =
      (entity.content? index).map fun content => content.set (some value) := by
  cases entity with
  | scalar kind old =>
    cases index with
    | none => rfl
    | some i => exact h.elim
  | array kind cells =>
    cases index with
    | none => exact h.elim
    | some i =>
      have hi : i < cells.length := h
      simp [Entity.content?, put, hi, Content.set]

theorem content?_put_of_ne {other : Option Nat} (h : other ≠ index) (value : Value) :
    (entity.put value index).content? other = entity.content? other := by
  cases entity with
  | scalar kind old =>
    cases index with
    | none =>
      cases other with
      | none => exact absurd rfl h
      | some j => rfl
    | some i => rfl
  | array kind cells =>
    cases index with
    | none => rfl
    | some i =>
      cases other with
      | none => simp [content?, put]
      | some j =>
        have hij : i ≠ j := by
          rintro rfl
          exact h rfl
        simp [content?, put, hij]

end Entity

/-! ## What frames say about a name or a cell -/

def view (name : String) (index : Option Nat) (frame : Frame) : Option Content :=
  (frame name).bind (Entity.content? index)

variable {frame : Frame} {frames : Frames} {name other : String} {index : Option Nat}
  {entity : Entity}

theorem findSome?_view (h : frames.lookup? name = some entity) {content : Content}
    (hc : entity.content? index = some content) :
    frames.findSome? (view name index) = some content := by
  induction frames with
  | nil => cases h
  | cons frame frames ih =>
    rw [Frames.lookup?, List.findSome?_cons] at h
    rw [List.findSome?_cons, view]
    cases hf : frame name with
    | none =>
      rw [hf] at h
      exact ih h
    | some found =>
      rw [hf] at h
      cases h
      rw [Option.bind_some, hc]

theorem findSome?_view_of_none (h : frames.lookup? name = none) :
    frames.findSome? (view name index) = none := by
  rw [List.findSome?_eq_none_iff]
  intro frame hf
  rw [view, List.findSome?_eq_none_iff.1 h frame hf]
  rfl

theorem isSome_view_none : (view name none frame).isSome = (frame name).isSome := by
  rw [view]
  cases h : frame name with
  | none => rfl
  | some entity => cases entity <;> rfl

theorem view_update_of_ne (h : other ≠ name) (entity : Entity) :
    view other index (Function.update frame name (some entity)) = view other index frame := by
  simp only [view, Function.update_of_ne h]

theorem view_update_self (entity : Entity) :
    view name index (Function.update frame name (some entity)) = entity.content? index := by
  simp only [view, Function.update_self, Option.bind_some]

theorem length_modify (name : String) (change : Entity → Entity) (frames : Frames) :
    (frames.modify name change).length = frames.length := by
  induction frames with
  | nil => rfl
  | cons frame frames ih =>
    rw [Frames.modify]
    cases frame name with
    | none => exact congrArg (· + 1) ih
    | some entity => rfl

theorem modify_cons_none (h : frame name = none) (change : Entity → Entity) :
    Frames.modify name change (frame :: frames) = frame :: frames.modify name change := by
  simp only [Frames.modify, h]

theorem modify_cons_some (h : frame name = some entity) (change : Entity → Entity) :
    Frames.modify name change (frame :: frames) =
      Function.update frame name (some (change entity)) :: frames := by
  simp only [Frames.modify, h]

theorem contents_cons_congr {view : Frame → Option Content} {changed : Frame} {others : Frames}
    (hv : view changed = view frame) (hl : others.length = frames.length)
    (hc : contents view others = contents view frames) :
    contents view (changed :: others) = contents view (frame :: frames) := by
  rw [contents, contents, hv, hl, hc]

/-- What is said about another thing stays. -/
theorem contents_modify_of_ne {change : Entity → Entity}
    (h : other = name → ∀ entity : Entity,
      (change entity).content? index = entity.content? index) :
    contents (view other index) (frames.modify name change) =
      contents (view other index) frames := by
  induction frames with
  | nil => rfl
  | cons frame frames ih =>
    cases hf : frame name with
    | none =>
      rw [modify_cons_none hf]
      exact contents_cons_congr rfl (length_modify _ _ _) ih
    | some entity =>
      rw [modify_cons_some hf]
      refine contents_cons_congr ?_ rfl rfl
      by_cases he : other = name
      · subst he
        rw [view_update_self, h rfl, view, hf, Option.bind_some]
      · exact view_update_of_ne he _

/-- What is said about the thing itself changes in the frame that is found. -/
theorem contents_modify {change : Entity → Entity} (h : frames.lookup? name = some entity)
    {content : Content} {value : Option Value} (hc : entity.content? index = some content)
    (hs : (change entity).content? index = some (content.set value)) :
    contents (view name index) (frames.modify name change) =
      (contents (view name index) frames).modifyHead fun entry => (entry.1, entry.2.set value) := by
  induction frames with
  | nil => cases h
  | cons frame frames ih =>
    rw [Frames.lookup?, List.findSome?_cons] at h
    cases hf : frame name with
    | none =>
      rw [hf] at h
      have hv : view name index frame = none := by rw [view, hf, Option.bind_none]
      rw [modify_cons_none hf, contents_cons_none hv, contents_cons_none hv]
      exact ih h
    | some found =>
      rw [hf] at h
      cases h
      have hv : view name index frame = some content := by rw [view, hf, Option.bind_some, hc]
      rw [modify_cons_some hf, contents_cons_some hv,
        contents_cons_some ((view_update_self _).trans hs)]
      rfl

end BlockLang.Scope
