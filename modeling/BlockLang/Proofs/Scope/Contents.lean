import BlockLang.Proofs.Scope
import BlockLang.Proofs.Store

/-! # Bindings and frames

A view picks from a frame what it says about one thing. The contents of frames under a
view are listed innermost first, each with its level, which is the number of frames
around its own. The bindings of a name, youngest first, are such a list; this module
says how each operation on bindings shows in it.
-/
namespace BlockLang.Scope

structure Content where
  kind : Kind
  value : Option Value
  size : Option Nat

def Content.set (content : Content) (value : Option Value) : Content :=
  { content with value := value }

def contentOf (binding : Binding) : Content :=
  ⟨binding.kind, binding.value, binding.size⟩

def levelled (binding : Binding) : Nat × Content :=
  (binding.level, contentOf binding)

def contents (view : Frame → Option Content) : Frames → List (Nat × Content)
  | [] => []
  | frame :: frames =>
    ((view frame).map fun content => (frames.length, content)).toList ++ contents view frames

variable {view : Frame → Option Content} {frame : Frame} {frames : Frames}

theorem contents_cons_none (h : view frame = none) :
    contents view (frame :: frames) = contents view frames := by
  simp [contents, h]

theorem contents_cons_some {content : Content} (h : view frame = some content) :
    contents view (frame :: frames) = (frames.length, content) :: contents view frames := by
  simp [contents, h]

theorem level_lt_of_mem_contents {entry : Nat × Content} (h : entry ∈ contents view frames) :
    entry.1 < frames.length := by
  induction frames with
  | nil => cases h
  | cons frame frames ih =>
    rw [List.length_cons]
    cases hv : view frame with
    | none =>
      rw [contents_cons_none hv] at h
      exact Nat.lt_succ_of_lt (ih h)
    | some content =>
      rw [contents_cons_some hv, List.mem_cons] at h
      obtain rfl | h := h
      · exact Nat.lt_succ_self _
      · exact Nat.lt_succ_of_lt (ih h)

theorem head?_contents : (contents view frames).head?.map Prod.snd = frames.findSome? view := by
  induction frames with
  | nil => rfl
  | cons frame frames ih =>
    cases hv : view frame with
    | none => rw [contents_cons_none hv, ih, List.findSome?_cons, hv]
    | some content => rw [contents_cons_some hv, List.findSome?_cons, hv]; rfl

/-- A level that has a content under a view has it in its own frame. -/
theorem any_level_contents (view : Frame → Option Content) (frame : Frame) (frames : Frames) :
    (contents view (frame :: frames)).any (fun entry => entry.1 == frames.length) =
      (view frame).isSome := by
  have hout : (contents view frames).any (fun entry => entry.1 == frames.length) = false := by
    rw [List.any_eq_false]
    intro entry he
    simpa using Nat.ne_of_lt (level_lt_of_mem_contents he)
  cases hv : view frame with
  | none => rw [contents_cons_none hv, hout]; rfl
  | some content => rw [contents_cons_some hv, List.any_cons, hout]; simp

/-- Without the innermost frame, its level is gone. -/
theorem filter_contents : (contents view (frame :: frames)).filter
    (fun entry => entry.1 < frames.length) = contents view frames := by
  have hkeep : (contents view frames).filter (fun entry => entry.1 < frames.length) =
      contents view frames := by
    rw [List.filter_eq_self]
    intro entry he
    simpa using level_lt_of_mem_contents he
  cases hv : view frame with
  | none => rw [contents_cons_none hv, hkeep]
  | some content => rw [contents_cons_some hv, List.filter_cons_of_neg (by simp), hkeep]

/-! ## Operations on bindings -/

def Lists (bindings : List Binding) (view : Frame → Option Content) (frames : Frames) : Prop :=
  bindings.reverse.map levelled = contents view frames

variable {bindings : List Binding} {level : Nat}

theorem Lists.level_le (h : Lists bindings view frames) (hl : level + 1 = frames.length) :
    ∀ binding ∈ bindings, binding.level ≤ level := by
  intro binding hb
  have hm : levelled binding ∈ contents view frames := by
    rw [← h]
    exact List.mem_map_of_mem (List.mem_reverse.2 hb)
  have hlt : binding.level < frames.length := level_lt_of_mem_contents hm
  omega

/-- The binding that is found is that of the innermost frame. -/
theorem Lists.find_visible (h : Lists bindings view frames) (hl : level + 1 = frames.length) :
    (bindings.reverse.find? fun binding => binding.level ≤ level).map contentOf =
      frames.findSome? view := by
  have hall : bindings.reverse.find? (fun binding => binding.level ≤ level) =
      bindings.reverse.head? := by
    cases hb : bindings.reverse with
    | nil => rfl
    | cons binding others =>
      have hm : binding ∈ bindings := by
        rw [← List.mem_reverse, hb]
        exact List.mem_cons_self
      rw [List.find?_cons_of_pos (by simpa using h.level_le hl binding hm), List.head?_cons]
  rw [hall, ← head?_contents, ← h, List.head?_map, Option.map_map]
  rfl

theorem Lists.find_level (h : Lists bindings view (frame :: frames)) :
    (bindings.find? fun binding => binding.level == frames.length).isSome =
      (view frame).isSome := by
  rw [List.isSome_find?, ← any_level_contents view frame frames, ← h, List.any_map,
    List.any_reverse]
  rfl

theorem place_of_level_le {binding : Binding}
    (h : ∀ other ∈ bindings, other.level ≤ binding.level) :
    Store.place binding bindings = bindings ++ [binding] := by
  induction bindings with
  | nil => rfl
  | cons other others ih =>
    obtain ⟨ho, hothers⟩ := List.forall_mem_cons.1 h
    rw [Store.place, if_neg (Nat.not_lt.2 ho), ih hothers, List.cons_append]

/-- A binding that is placed at the innermost level is the content of a frame that had none. -/
theorem Lists.place {binding : Binding} {changed : Frame}
    (h : Lists bindings view (frame :: frames)) (hl : binding.level = frames.length)
    (hv : view frame = none) (hc : view changed = some (contentOf binding)) :
    Lists (Store.place binding bindings) view (changed :: frames) := by
  have hle : ∀ other ∈ bindings, other.level ≤ binding.level := by
    rw [hl]
    exact h.level_le rfl
  rw [Lists, place_of_level_le hle, List.reverse_append, List.reverse_singleton,
    List.singleton_append, List.map_cons, h, contents_cons_none hv, contents_cons_some hc,
    levelled, hl]

/-- Up to the level below the innermost one, the bindings are those of the other frames. -/
theorem Lists.filter_level (h : Lists bindings view (frame :: frames))
    (hl : level + 1 = frames.length) :
    Lists (bindings.filter fun binding => binding.level ≤ level) view frames := by
  have hp : (fun binding : Binding => decide (binding.level ≤ level)) =
      (fun entry : Nat × Content => decide (entry.1 < frames.length)) ∘ levelled := by
    funext binding
    rw [Function.comp_apply, levelled, ← hl]
    exact decide_eq_decide.2 Nat.lt_succ_iff.symm
  rw [Lists, List.filter_reverse.symm, hp, ← List.filter_map, h, filter_contents]

theorem Lists.assignLast {value : Option Value} {changed : Frames}
    (h : Lists bindings view frames) (hl : level + 1 = frames.length)
    (hc : contents view changed =
      (contents view frames).modifyHead fun entry => (entry.1, entry.2.set value)) :
    Lists (Store.assignLast level value bindings) view changed := by
  have hle := h.level_le hl
  rw [Lists, hc, ← h]
  obtain rfl | ⟨others, last, rfl⟩ := List.eq_nil_or_concat bindings
  · rfl
  · rw [List.concat_eq_append, List.forall_mem_append, List.forall_mem_singleton] at hle
    rw [List.concat_eq_append, Store.assignLast_append_cons hle.2 (List.forall_mem_nil _),
      List.reverse_append, List.reverse_append]
    rfl

end BlockLang.Scope
