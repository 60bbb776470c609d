import BlockLang.Proofs.Scope.Reports

/-! # Statement lists that declare no name twice

A check of statement lists one by one. It is enough for the discipline under which each
declarator has a name that is new in its list.
-/
namespace BlockLang.Node

def declared (stmt : Node) : List String :=
  if stmt.kind = .declaration then stmt.children.map Node.text else []

mutual

/-- Whether no statement list in a tree declares a name twice. -/
def declaresOnce : Node → Bool
  | ⟨kind, _, _, children⟩ =>
    (!(kind == .program || kind == .block) || (children.flatMap declared).Nodup) &&
      allDeclareOnce children

def allDeclareOnce : List Node → Bool
  | [] => true
  | node :: nodes => node.declaresOnce && allDeclareOnce nodes

end

variable {n : Node} {nodes : List Node}

theorem allDeclareOnce_iff : allDeclareOnce nodes ↔ ∀ n ∈ nodes, n.declaresOnce := by
  induction nodes with
  | nil => simp [allDeclareOnce]
  | cons node nodes ih => simp [allDeclareOnce, ih]

theorem declaresOnce_of_mem (h : n.declaresOnce) : ∀ m ∈ n.children, m.declaresOnce := by
  obtain ⟨kind, text, line, children⟩ := n
  rw [declaresOnce, Bool.and_eq_true, allDeclareOnce_iff] at h
  exact h.2

theorem nodup_declared (h : n.declaresOnce) (hk : n.kind = .program ∨ n.kind = .block) :
    (n.children.flatMap declared).Nodup := by
  obtain ⟨kind, text, line, children⟩ := n
  rw [declaresOnce, Bool.and_eq_true] at h
  rcases hk with rfl | rfl <;> simpa using h.1

end BlockLang.Node

namespace BlockLang.Scope
open Node

variable {n : Node} {nodes : List Node}

theorem added_eq_declared (hs : n.IsStatement) : freshness.added n = n.declared := by
  by_cases hk : n.kind = .declaration
  · cases hs with
    | declaration _ hitems =>
      rw [declared, if_pos hk, Check.added, if_pos hk, List.map_eq_flatMap]
      apply List.flatMap_congr
      intro item hi
      cases hitems item hi
      rfl
    | assignment ha =>
      cases ha
      cases hk
    | _ => cases hk
  · rw [Check.added_of_isStatement hs hk, declared, if_neg hk]

/-- A list whose names are new and different passes. -/
theorem passInOrder_of_nodup {names : List String}
    (hp : ∀ m ∈ nodes, ∀ names, (names ++ freshness.added m).Nodup → freshness.passes names m)
    (hn : (names ++ nodes.flatMap freshness.added).Nodup) :
    freshness.passInOrder names nodes := by
  induction nodes generalizing names with
  | nil => simp
  | cons node nodes ih =>
    rw [List.forall_mem_cons] at hp
    rw [List.flatMap_cons, ← List.append_assoc] at hn
    rw [Check.passInOrder_cons, hp.1 names (List.nodup_append.1 hn).1, ih hp.2 hn]
    rfl

theorem passInOrder_of_forall (h : ∀ m ∈ nodes, ∀ names, freshness.passes names m)
    (names : List String) : freshness.passInOrder names nodes := by
  induction nodes generalizing names with
  | nil => simp
  | cons node nodes ih =>
    rw [List.forall_mem_cons] at h
    rw [Check.passInOrder_cons, h.1, ih h.2]
    rfl

/-- A node that declares nothing itself passes with any names if its children do. -/
theorem passes_plain {kind : NodeKind} {text : String} {line : Nat} (hk : kind ≠ .declarator)
    (hc : ∀ m ∈ nodes, ∀ names, freshness.passes names m) (names : List String) :
    freshness.passes names ⟨kind, text, line, nodes⟩ := by
  rw [Check.passes, passInOrder_of_forall hc]
  simp [freshness, hk]

theorem inherited_passes : Inherited fun n => ∀ names, freshness.passes names n :=
  fun _ _ _ _ hk _ hc => passes_plain hk hc

theorem passes_declarator (h : n.IsDeclarator) {names : List String} (hn : n.text ∉ names) :
    freshness.passes names n := by
  have hparts := passInOrder_of_forall (h.inherits inherited_passes)
  cases h
  rw [Check.passes, hparts]
  simpa [freshness] using hn

theorem passes_declaration {items : List Node} {text : String} {line : Nat}
    (hitems : ∀ item ∈ items, item.IsDeclarator) {names : List String}
    (hn : (names ++ freshness.added ⟨.declaration, text, line, items⟩).Nodup) :
    freshness.passes names ⟨.declaration, text, line, items⟩ := by
  have hall : freshness.passInOrder names items := by
    refine passInOrder_of_nodup (fun item hi names hn => passes_declarator (hitems item hi) ?_) ?_
    · rw [Check.added_of_isDeclarator (hitems item hi), List.nodup_append] at hn
      exact fun hm => hn.2.2 _ hm _ List.mem_cons_self rfl
    · rwa [Check.flatMap_added hitems]
  rw [Check.passes, Check.within]
  simpa [freshness, Check.own] using hall

/-- A statement list that declares no name twice passes, whatever stands around it. -/
theorem passInOrder_of_declaresOnce (hk : n.kind = .program ∨ n.kind = .block)
    (h : n.declaresOnce) (hs : ∀ stmt ∈ n.children, stmt.IsStatement)
    (hp : ∀ stmt ∈ n.children, stmt.declaresOnce → ∀ names,
      (names ++ freshness.added stmt).Nodup → freshness.passes names stmt) :
    freshness.passInOrder [] n.children := by
  refine passInOrder_of_nodup (fun m hm => hp m hm (declaresOnce_of_mem h m hm)) ?_
  rw [List.nil_append, List.flatMap_congr fun m hm => added_eq_declared (hs m hm)]
  exact nodup_declared h hk

theorem passes_block {stmts : List Node} {line : Nat}
    (h : Node.declaresOnce ⟨.block, "", line, stmts⟩) (hs : ∀ stmt ∈ stmts, stmt.IsStatement)
    (hp : ∀ stmt ∈ stmts, stmt.declaresOnce → ∀ names,
      (names ++ freshness.added stmt).Nodup → freshness.passes names stmt) (names : List String) :
    freshness.passes names ⟨.block, "", line, stmts⟩ := by
  have hall : freshness.passInOrder [] stmts := passInOrder_of_declaresOnce (.inr rfl) h hs hp
  rw [Check.passes]
  simpa [freshness, Check.within] using hall

/-- A statement passes where the names that it declares are new and different. -/
theorem passes_of_declaresOnce (hs : n.IsStatement) (h : n.declaresOnce) (names : List String)
    (hn : (names ++ freshness.added n).Nodup) : freshness.passes names n := by
  have test {condition : Node} (ht : Wraps .condition "" IsCondition condition) :
      ∀ names, freshness.passes names condition :=
    ht.inherits inherited_passes (by decide) fun _ hc => hc.inherits inherited_passes
  have assign {kind : NodeKind} {header : Node} (hw : Wraps kind "" IsAssignment header)
      (hk : kind ∉ [.declarator, .identifier]) : ∀ names, freshness.passes names header :=
    hw.inherits inherited_passes hk fun _ ha => ha.inherits inherited_passes
  induction hs generalizing names with
  | declaration _ hitems => exact passes_declaration hitems hn
  | assignment ha => exact ha.inherits inherited_passes names
  | read ht =>
    apply passes_plain (by decide)
    exact List.forall_mem_singleton.2 (ht.inherits inherited_passes)
  | write hv =>
    apply passes_plain (by decide)
    exact List.forall_mem_singleton.2 (hv.inherits inherited_passes)
  | conditional ht hb ihb | whileLoop ht hb ihb =>
    have hc := declaresOnce_of_mem h
    refine passes_plain (by decide) ?_ names
    rw [List.forall_mem_cons, List.forall_mem_singleton] at hc ⊢
    exact ⟨test ht, passes_block hc.2 hb ihb⟩
  | alternative ht hb he ihb ihe =>
    have hc := declaresOnce_of_mem h
    refine passes_plain (by decide) ?_ names
    rw [List.forall_mem_cons, List.forall_mem_cons, List.forall_mem_singleton] at hc ⊢
    have hother := declaresOnce_of_mem hc.2.2 _ List.mem_cons_self
    refine ⟨test ht, passes_block hc.2.1 hb ihb, passes_plain (by decide) ?_⟩
    exact List.forall_mem_singleton.2 (passes_block hother he ihe)
  | forLoop hi ht hs hb ihb =>
    have hc := declaresOnce_of_mem h
    refine passes_plain (by decide) ?_ names
    rw [List.forall_mem_cons, List.forall_mem_cons, List.forall_mem_cons,
      List.forall_mem_singleton] at hc ⊢
    exact ⟨assign hi (by decide), test ht, assign hs (by decide), passes_block hc.2.2.2 hb ihb⟩

end BlockLang.Scope
