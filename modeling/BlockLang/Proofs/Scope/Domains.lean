import BlockLang.Proofs.Scope.Machine
import BlockLang.Proofs.Scope.View
import BlockLang.Proofs.Shape.Execution

/-! # Domains

The domain of a frame is the set of its names. Only declarations add to the domain of the
innermost frame; every other statement leaves the domains of the frames that were there.
-/
namespace BlockLang.Scope
open Node

abbrev Domain := String → Bool

def Frame.domain (frame : Frame) : Domain :=
  fun name => (frame name).isSome

namespace Frames

def domains (frames : Frames) : List Domain :=
  frames.map Frame.domain

variable {frame : Frame} {frames : Frames} {name : String}

theorem isSome_lookup? : (frames.lookup? name).isSome = frames.domains.any (· name) := by
  rw [lookup?, List.isSome_findSome?, domains, List.any_map]
  rfl

theorem declares_eq : frames.declares name = frames.domains.head?.any (· name) := by
  cases frames <;> rfl

theorem domain_update (entity : Entity) : Frame.domain (Function.update frame name (some entity)) =
    Function.update frame.domain name true := by
  ext other
  by_cases h : other = name
  · subst h
    simp [Frame.domain]
  · simp [Frame.domain, h]

theorem domains_declare {domain : Domain} {domains : List Domain}
    (h : frames.domains = domain :: domains) (entity : Entity) :
    (frames.declare name entity).domains = Function.update domain name true :: domains := by
  cases frames with
  | nil => cases h
  | cons frame frames =>
    cases h
    rw [← domain_update entity]
    rfl

theorem domains_modify (change : Entity → Entity) :
    (frames.modify name change).domains = frames.domains := by
  induction frames with
  | nil => rfl
  | cons frame frames ih =>
    cases hf : frame name with
    | none =>
      rw [modify_cons_none hf]
      exact congrArg (frame.domain :: ·) ih
    | some entity =>
      have hname : true = frame.domain name := by rw [Frame.domain, hf, Option.isSome_some]
      rw [modify_cons_some hf, domains, List.map_cons, domain_update, hname,
        Function.update_eq_self]
      rfl

theorem domains_put (spot : Spot) (value : Value) :
    (frames.put spot value).domains = frames.domains :=
  domains_modify _

end Frames

/-! ## Statements -/

namespace State

variable {state next : State} {n : Node}

theorem domains_settle {result : Except RuntimeError State}
    (h : ∀ next, result = .ok next → next.frames.domains = state.frames.domains) :
    (state.settle result).frames.domains = state.frames.domains := by
  cases result with
  | ok next => exact h next rfl
  | error error => rfl

theorem putAdapted_eq_ok {spot : Spot} {line : Nat} {value : Value}
    (h : state.putAdapted spot line value = .ok next) :
    ∃ adapted, next = state.put spot adapted := by
  unfold putAdapted at h
  split at h
  · rename_i adapted _
    cases h
    exact ⟨adapted, rfl⟩
  · cases h

theorem assign_eq_ok (h : state.assign n = .ok next) :
    ∃ spot value, next = state.put spot value := by
  unfold assign at h
  split at h
  · obtain ⟨spot, -, hvalue⟩ := Except.bind_eq_ok h
    obtain ⟨value, -, hput⟩ := Except.bind_eq_ok hvalue
    exact ⟨spot, putAdapted_eq_ok hput⟩
  · cases h

theorem domains_assign (h : state.assign n = .ok next) :
    next.frames.domains = state.frames.domains := by
  obtain ⟨spot, value, rfl⟩ := assign_eq_ok h
  exact Frames.domains_put spot value

theorem domains_write : (state.write n).frames.domains = state.frames.domains := by
  unfold write
  split <;> rfl

theorem domains_read : (state.read n).frames.domains = state.frames.domains := by
  unfold read
  split
  · rfl
  · split
    · rfl
    · dsimp only
      split
      · exact Frames.domains_put _ _
      · rfl

theorem domains_test : (state.test n).2.frames.domains = state.frames.domains := by
  unfold test
  split <;> rfl

/-- What a declarator leaves of the domain of the innermost frame: it adds its name or changes
nothing, and the name of a variable is there in any case. -/
structure Declares (item : Node) (domain changed : Domain) : Prop where
  same_or_added : changed = domain ∨ changed = Function.update domain item.text true
  scalar : item.part? .subscript = none → changed item.text = true

variable {domain changed : Domain} {domains : List Domain}

theorem Declares.grows (h : Declares n domain changed) {name : String} (hn : domain name) :
    changed name := by
  obtain ⟨rfl | rfl, -⟩ := h
  · exact hn
  · by_cases he : name = n.text
    · rw [he, Function.update_self]
    · rwa [Function.update_of_ne he]

theorem declares_added : Declares n domain (Function.update domain n.text true) :=
  ⟨.inr rfl, fun _ => Function.update_self ..⟩

def putInitial (state : State) (kind : Kind) (item initializer : Node) :
    Except RuntimeError State := do
  let value ← state.frames.evaluateWithin initializer
  state.putAdapted ⟨item.text, none, kind⟩ item.line value

theorem declareInitialized_eq (kind : Kind) (initializer : Node) :
    state.declareInitialized kind n initializer =
      (state.bind n.text (.scalar kind none)).settle
        ((state.bind n.text (.scalar kind none)).putInitial kind n initializer) :=
  rfl

theorem putInitial_eq_ok {kind : Kind} {initializer : Node}
    (h : state.putInitial kind n initializer = .ok next) :
    ∃ spot value, next = state.put spot value := by
  obtain ⟨value, -, hput⟩ := Except.bind_eq_ok h
  exact ⟨_, putAdapted_eq_ok hput⟩

theorem declareArray_eq_ok {kind : Kind} {subscript : Node}
    (h : state.declareArray kind n subscript = .ok next) :
    ∃ entity, next = state.bind n.text entity := by
  obtain ⟨value, -, hsize⟩ := Except.bind_eq_ok h
  obtain ⟨size, -, hdone⟩ := Except.bind_eq_ok hsize
  cases hdone
  exact ⟨_, rfl⟩

theorem domains_declareInitialized {kind : Kind} {initializer : Node}
    (h : state.frames.domains = domain :: domains) :
    (state.declareInitialized kind n initializer).frames.domains =
      Function.update domain n.text true :: domains := by
  have hbind : (state.bind n.text (.scalar kind none)).frames.domains =
      Function.update domain n.text true :: domains := Frames.domains_declare h _
  rw [declareInitialized_eq, ← hbind]
  apply domains_settle
  intro next hn
  obtain ⟨spot, value, rfl⟩ := putInitial_eq_ok hn
  exact Frames.domains_put spot value

theorem domains_declareArray {kind : Kind} {subscript : Node}
    (h : state.frames.domains = domain :: domains)
    (hn : state.declareArray kind n subscript = .ok next) :
    next.frames.domains = Function.update domain n.text true :: domains := by
  obtain ⟨entity, rfl⟩ := declareArray_eq_ok hn
  exact Frames.domains_declare h entity

theorem domains_declare {kind : Kind} (h : state.frames.domains = domain :: domains) :
    ∃ changed, (state.declare kind n).frames.domains = changed :: domains ∧
      Declares n domain changed := by
  have hsame (hs : n.part? .subscript ≠ none) : Declares n domain domain :=
    ⟨.inl rfl, fun hnone => absurd hnone hs⟩
  rw [declare]
  split
  · rename_i hd
    refine ⟨domain, h, .inl rfl, fun _ => ?_⟩
    rwa [Frames.declares_eq, h] at hd
  · match hsubscript : n.part? .subscript, n.part? .initializer with
    | some _, some _ => exact ⟨domain, h, hsame (by simp [hsubscript])⟩
    | some subscript, none =>
      dsimp only
      cases hr : state.declareArray kind n subscript with
      | ok next => exact ⟨_, domains_declareArray h hr, declares_added⟩
      | error error => exact ⟨domain, h, hsame (by simp [hsubscript])⟩
    | none, none => exact ⟨_, Frames.domains_declare h _, declares_added⟩
    | none, some initializer => exact ⟨_, domains_declareInitialized h, declares_added⟩

end State
end BlockLang.Scope
