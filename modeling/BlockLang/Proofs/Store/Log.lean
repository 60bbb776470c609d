import BlockLang.Proofs.Store
import Mathlib.Data.List.Induction
import Mathlib.Data.Set.Subsingleton

/-! # The log of a store

What is in a store can be told from a log. The log has a record of each binding that was inserted
and has not been forgotten, with the time of its insertion. In whatever order levels come, the
store keeps the bindings of a name from lower to higher levels and those of one level from older to
younger ones. Hence lookups find the youngest record of the highest level, or the oldest one of
a given level, and a value is given to just the record that a lookup finds.
-/
namespace BlockLang

structure Record where
  time : Nat
  binding : Binding
deriving DecidableEq

namespace Record

def withValue (record : Record) (value : Option Value) : Record :=
  { record with binding := { record.binding with value := value } }

def Precedes (record other : Record) : Prop :=
  record.binding.level < other.binding.level ∨
    record.binding.level = other.binding.level ∧ record.time < other.time

theorem Precedes.asymm {record other : Record} (h : record.Precedes other) :
    ¬other.Precedes record := by
  unfold Precedes at *
  omega

end Record

namespace Store

inductive Operation where
  | insert (binding : Binding)
  | assign (name : String) (level : Nat) (value : Option Value)
  | upTo (level : Nat)
  | reset

def apply (store : Store) : Operation → Store
  | .insert binding => store.insert binding
  | .assign name level value => store.assign name level value
  | .upTo level => store.upTo level
  | .reset => empty

def after (operations : List Operation) : Store :=
  operations.foldl apply empty

theorem after_concat (operations : List Operation) (operation : Operation) :
    after (operations ++ [operation]) = (after operations).apply operation :=
  List.foldl_append

end Store

/-- The records of what has been inserted and not forgotten, from older to younger ones. -/
abbrev Log := List Record

namespace Log

/-- A record is the youngest one of the highest level among the records of a name whose level is
not above the given one. -/
def IsVisible (log : Log) (name : String) (level : Nat) (record : Record) : Prop :=
  record ∈ log ∧ record.binding.name = name ∧ record.binding.level ≤ level ∧
    ∀ other ∈ log, other.binding.name = name → other.binding.level ≤ level →
      other.binding.level < record.binding.level ∨
        other.binding.level = record.binding.level ∧ other.time ≤ record.time

/-- A record is the oldest one of a name at a level. -/
def IsOldest (log : Log) (name : String) (level : Nat) (record : Record) : Prop :=
  record ∈ log ∧ record.binding.name = name ∧ record.binding.level = level ∧
    ∀ other ∈ log, other.binding.name = name → other.binding.level = level →
      record.time ≤ other.time

instance (log : Log) (name : String) (level : Nat) (record : Record) :
    Decidable (log.IsVisible name level record) :=
  inferInstanceAs (Decidable (_ ∧ _ ∧ _ ∧ _))

/-- What becomes of a record when a value is given to the visible record of a name. -/
def assigned (log : Log) (name : String) (level : Nat) (value : Option Value) (record : Record) :
    Record :=
  if log.IsVisible name level record then record.withValue value else record

def apply (time : Nat) (log : Log) : Store.Operation → Log
  | .insert binding => log ++ [⟨time, binding⟩]
  | .assign name level value => log.map (log.assigned name level value)
  | .upTo level => log.filter fun record => record.binding.level ≤ level
  | .reset => []

def after (operations : List Store.Operation) : Log :=
  operations.zipIdx.foldl (fun log (operation, time) => log.apply time operation) []

theorem after_concat (operations : List Store.Operation) (operation : Store.Operation) :
    after (operations ++ [operation]) = (after operations).apply operations.length operation := by
  simp [after, List.zipIdx_append]

/-- The records of a name in the order in which a store keeps them. -/
structure Sorts (log : Log) (name : String) (records : List Record) : Prop where
  ordered : records.Pairwise Record.Precedes
  mem_iff : ∀ record, record ∈ records ↔ record ∈ log ∧ record.binding.name = name

end Log

/-- The records of a log are in the order of their times, and a store keeps just their bindings, in
the order of levels and, at one level, of times. -/
structure Store.Realizes (store : Store) (log : Log) : Prop where
  increasing : log.Pairwise fun record later => record.time < later.time
  sorted : ∀ name, ∃ records, log.Sorts name records ∧
    store.bindingsOf name = records.map Record.binding

variable {store : Store} {log : Log} {name : String} {level : Nat} {records : List Record}
  {record other : Record}

/-! ## Looking up -/

namespace Log

theorem eq_of_time_eq (h : log.Pairwise fun record later => record.time < later.time)
    (hr : record ∈ log) (ho : other ∈ log) (ht : record.time = other.time) : record = other := by
  have hnodup : (log.map Record.time).Nodup := List.pairwise_map.2 (h.imp Nat.ne_of_lt)
  exact List.inj_on_of_nodup_map hnodup hr ho ht

theorem IsVisible.unique (h : log.Pairwise fun record later => record.time < later.time)
    (hr : log.IsVisible name level record) (ho : log.IsVisible name level other) :
    record = other := by
  obtain ⟨hrm, hrn, hrl, hrg⟩ := hr
  obtain ⟨hom, hon, hol, hog⟩ := ho
  have hle := hrg other hom hon hol
  have hge := hog record hrm hrn hrl
  exact eq_of_time_eq h hrm hom (by omega)

/-- Times tell the records of a log apart, so they decide between records of one level. -/
theorem eq_or_precedes_iff (h : log.Pairwise fun record later => record.time < later.time)
    (hr : record ∈ log) (ho : other ∈ log) : record = other ∨ record.Precedes other ↔
      record.binding.level < other.binding.level ∨
        record.binding.level = other.binding.level ∧ record.time ≤ other.time := by
  constructor
  · rintro (rfl | hp)
    · exact .inr ⟨rfl, Nat.le_refl _⟩
    · exact hp.imp_right fun hp => ⟨hp.1, Nat.le_of_lt hp.2⟩
  · intro hle
    by_cases ht : record.time = other.time
    · exact .inl (eq_of_time_eq h hr ho ht)
    · unfold Record.Precedes
      omega

/-- The last record up to a level is the visible one. -/
theorem Sorts.find_visible (hs : log.Sorts name records)
    (h : log.Pairwise fun record later => record.time < later.time) :
    records.reverse.find? (fun record => record.binding.level ≤ level) = some record ↔
      log.IsVisible name level record := by
  have hdown : records.reverse.Pairwise fun record other => other.Precedes record :=
    List.pairwise_reverse.2 hs.ordered
  rw [Store.find?_eq_some_iff_of_pairwise (fun _ _ h => Record.Precedes.asymm h) hdown]
  simp only [List.mem_reverse, hs.mem_iff, decide_eq_true_eq]
  constructor
  · rintro ⟨⟨hm, hn⟩, hl, hall⟩
    refine ⟨hm, hn, hl, fun other ho hname hle => ?_⟩
    exact (eq_or_precedes_iff h ho hm).1 (hall other ⟨ho, hname⟩ hle)
  · rintro ⟨hm, hn, hl, hall⟩
    refine ⟨⟨hm, hn⟩, hl, fun other ho hle => ?_⟩
    exact (eq_or_precedes_iff h ho.1 hm).2 (hall other ho.1 ho.2 hle)

/-- The first record of a level is the oldest one. -/
theorem Sorts.find_oldest (hs : log.Sorts name records)
    (h : log.Pairwise fun record later => record.time < later.time) :
    records.find? (fun record => record.binding.level == level) = some record ↔
      log.IsOldest name level record := by
  rw [Store.find?_eq_some_iff_of_pairwise (fun _ _ h => Record.Precedes.asymm h) hs.ordered]
  simp only [hs.mem_iff, beq_iff_eq]
  constructor
  · rintro ⟨⟨hm, hn⟩, hl, hall⟩
    refine ⟨hm, hn, hl, fun other ho hname hle => ?_⟩
    have hp := (eq_or_precedes_iff h hm ho).1 ((hall other ⟨ho, hname⟩ hle).imp_left Eq.symm)
    omega
  · rintro ⟨hm, hn, hl, hall⟩
    refine ⟨⟨hm, hn⟩, hl, fun other ho hle => ?_⟩
    have ht := hall other ho.1 ho.2 hle
    exact ((eq_or_precedes_iff h hm ho.1).2 (.inr ⟨hl.trans hle.symm, ht⟩)).imp_left Eq.symm

/-! ## Adding records -/

/-- A new record has its place between those that precede it and those that it precedes. -/
theorem Sorts.insert {before behind : List Record} (hs : log.Sorts name (before ++ behind))
    (hn : record.binding.name = name) (hbefore : ∀ other ∈ before, other.Precedes record)
    (hbehind : ∀ other ∈ behind, record.Precedes other) :
    Sorts (log ++ [record]) name (before ++ record :: behind) where
  ordered := by
    obtain ⟨hlower, hhigher, hcross⟩ := List.pairwise_append.1 hs.ordered
    refine List.pairwise_append.2 ⟨hlower, List.pairwise_cons.2 ⟨hbehind, hhigher⟩, ?_⟩
    exact fun other ho => List.forall_mem_cons.2 ⟨hbefore other ho, hcross other ho⟩
  mem_iff other := by
    have hm := hs.mem_iff other
    simp only [List.mem_append, List.mem_cons, List.not_mem_nil, or_false] at hm ⊢
    rw [or_left_comm, hm, or_and_right, or_comm]
    refine or_congr_right (and_iff_left_of_imp ?_).symm
    rintro rfl
    exact hn

theorem Sorts.append_of_ne (hs : log.Sorts name records) (hn : record.binding.name ≠ name) :
    Sorts (log ++ [record]) name records where
  ordered := hs.ordered
  mem_iff other := by
    rw [hs.mem_iff, List.mem_append, List.mem_singleton, or_and_right, or_iff_left]
    rintro ⟨rfl, hname⟩
    exact hn hname

/-! ## Giving values -/

variable {value : Option Value}

theorem assigned_of_not (h : ¬log.IsVisible name level record) :
    log.assigned name level value record = record :=
  if_neg h

@[simp] theorem time_assigned : (log.assigned name level value record).time = record.time := by
  unfold assigned
  split <;> rfl

@[simp] theorem name_assigned :
    (log.assigned name level value record).binding.name = record.binding.name := by
  unfold assigned
  split <;> rfl

@[simp] theorem level_assigned :
    (log.assigned name level value record).binding.level = record.binding.level := by
  unfold assigned
  split <;> rfl

theorem map_assigned_of_not (h : ∀ record ∈ records, ¬log.IsVisible name level record) :
    records.map (log.assigned name level value) = records :=
  (List.map_congr_left fun record hr => assigned_of_not (h record hr)).trans (List.map_id records)

/-- Records stay in their order. -/
theorem Sorts.map_assigned {kept : String} (hs : log.Sorts kept records) :
    Sorts (log.map (log.assigned name level value)) kept
      (records.map (log.assigned name level value)) where
  ordered := List.pairwise_map.2 (hs.ordered.imp fun hp => by simpa [Record.Precedes] using hp)
  mem_iff record := by
    constructor
    · intro hr
      obtain ⟨old, ho, rfl⟩ := List.mem_map.1 hr
      obtain ⟨hm, hn⟩ := (hs.mem_iff old).1 ho
      exact ⟨List.mem_map_of_mem hm, name_assigned.trans hn⟩
    · rintro ⟨hr, hn⟩
      obtain ⟨old, ho, rfl⟩ := List.mem_map.1 hr
      exact List.mem_map_of_mem ((hs.mem_iff old).2 ⟨ho, name_assigned.symm.trans hn⟩)

/-- The last binding up to a level is that of the visible record. -/
theorem Sorts.assignLast_eq (hs : log.Sorts name records)
    (h : log.Pairwise fun record later => record.time < later.time) :
    Store.assignLast level value (records.map Record.binding) =
      (records.map (log.assigned name level value)).map Record.binding := by
  cases hf : records.reverse.find? fun record => record.binding.level ≤ level with
  | none =>
    have hnone : ∀ record ∈ records, ¬record.binding.level ≤ level := by
      simpa using hf
    rw [Store.assignLast_eq_self (List.forall_mem_map.2 hnone),
      map_assigned_of_not fun record hr hv => hnone record hr hv.2.2.1]
  | some record =>
    have hv : log.IsVisible name level record := (hs.find_visible h).1 hf
    obtain ⟨hl, before, behind, rfl, hbehind⟩ := Store.exists_of_find?_reverse hf
    simp only [decide_eq_true_eq] at hl hbehind
    obtain ⟨-, hordered, hcross⟩ := List.pairwise_append.1 hs.ordered
    have hbefore : ∀ other ∈ before, ¬log.IsVisible name level other := by
      intro other ho hvo
      have hp := hcross other ho record List.mem_cons_self
      rw [hvo.unique h hv] at hp
      exact hp.asymm hp
    have hrest : ∀ other ∈ behind, ¬log.IsVisible name level other :=
      fun other ho hvo => hbehind other ho hvo.2.2.1
    rw [List.map_append, List.map_cons, List.map_append, List.map_cons,
      Store.assignLast_append_cons hl (List.forall_mem_map.2 hbehind),
      map_assigned_of_not hbefore, map_assigned_of_not hrest, List.map_append, List.map_cons,
      assigned, if_pos hv]
    rfl

end Log

namespace Store

theorem Realizes.visible?_eq_some (h : store.Realizes log) {binding : Binding} :
    store.visible? name level = some binding ↔
      ∃ record, log.IsVisible name level record ∧ record.binding = binding := by
  obtain ⟨records, hs, hb⟩ := h.sorted name
  rw [visible?, hb, ← List.map_reverse, List.find?_map, Option.map_eq_some_iff]
  exact exists_congr fun record => and_congr_left' (hs.find_visible h.increasing)

theorem Realizes.visible?_eq_none (h : store.Realizes log) :
    store.visible? name level = none ↔
      ∀ record ∈ log, record.binding.name = name → level < record.binding.level := by
  obtain ⟨records, hs, hb⟩ := h.sorted name
  rw [visible?, hb, ← List.map_reverse, List.find?_map, Option.map_eq_none_iff]
  simp [hs.mem_iff]

theorem Realizes.atLevel?_eq_some (h : store.Realizes log) {binding : Binding} :
    store.atLevel? name level = some binding ↔
      ∃ record, log.IsOldest name level record ∧ record.binding = binding := by
  obtain ⟨records, hs, hb⟩ := h.sorted name
  rw [atLevel?, hb, List.find?_map, Option.map_eq_some_iff]
  exact exists_congr fun record => and_congr_left' (hs.find_oldest h.increasing)

theorem Realizes.atLevel?_eq_none (h : store.Realizes log) :
    store.atLevel? name level = none ↔
      ∀ record ∈ log, record.binding.name = name → record.binding.level ≠ level := by
  obtain ⟨records, hs, hb⟩ := h.sorted name
  rw [atLevel?, hb, List.find?_map, Option.map_eq_none_iff]
  simp [hs.mem_iff]

/-! ## Changing -/

theorem realizes_empty : empty.Realizes [] where
  increasing := .nil
  sorted name := ⟨[], ⟨.nil, by simp⟩, by simp⟩

/-- A younger record goes behind the records of its level. -/
theorem Realizes.insert (h : store.Realizes log) {time : Nat}
    (ht : ∀ record ∈ log, record.time < time) (binding : Binding) :
    (store.insert binding).Realizes (log ++ [⟨time, binding⟩]) where
  increasing := by
    rw [List.pairwise_append]
    exact ⟨h.increasing, List.pairwise_singleton _ _, by simpa using ht⟩
  sorted name := by
    obtain ⟨records, hs, hb⟩ := h.sorted name
    rw [bindingsOf_insert, hb]
    by_cases hn : binding.name = name
    · have hlevels : (records.map Record.binding).Pairwise fun b c => b.level ≤ c.level := by
        rw [List.pairwise_map]
        refine hs.ordered.imp fun hp => ?_
        unfold Record.Precedes at hp
        omega
      obtain ⟨lower, higher, hsplit, hplace, hlow, hhigh⟩ := exists_place binding hlevels
      obtain ⟨before, behind, rfl, rfl, rfl⟩ := List.map_eq_append_iff.1 hsplit
      simp only [List.forall_mem_map] at hlow hhigh
      refine ⟨before ++ ⟨time, binding⟩ :: behind, hs.insert hn (fun record hr => ?_)
        (fun record hr => .inl (hhigh record hr)), ?_⟩
      · have hlt := ht record ((hs.mem_iff record).1 (List.mem_append_left _ hr)).1
        have hle := hlow record hr
        unfold Record.Precedes
        dsimp only
        omega
      · rw [if_pos hn, hplace, List.map_append, List.map_cons]
    · exact ⟨records, hs.append_of_ne hn, if_neg hn⟩

/-- The value goes to the one record that is visible. -/
theorem Realizes.assign (h : store.Realizes log) (name : String) (level : Nat)
    (value : Option Value) :
    (store.assign name level value).Realizes (log.map (log.assigned name level value)) where
  increasing := List.pairwise_map.2 (h.increasing.imp fun hlt => by simpa using hlt)
  sorted kept := by
    obtain ⟨records, hs, hb⟩ := h.sorted kept
    refine ⟨records.map (log.assigned name level value), hs.map_assigned, ?_⟩
    rw [bindingsOf_assign, hb]
    by_cases hn : name = kept
    · subst hn
      rw [if_pos rfl]
      exact hs.assignLast_eq h.increasing
    · rw [if_neg hn, Log.map_assigned_of_not]
      intro record hr hv
      exact hn (hv.2.1.symm.trans ((hs.mem_iff record).1 hr).2)

theorem Realizes.upTo (h : store.Realizes log) (level : Nat) :
    (store.upTo level).Realizes (log.filter fun record => record.binding.level ≤ level) where
  increasing := h.increasing.filter _
  sorted name := by
    obtain ⟨records, hs, hb⟩ := h.sorted name
    refine ⟨records.filter fun record => record.binding.level ≤ level,
      ⟨hs.ordered.filter _, fun record => ?_⟩, ?_⟩
    · rw [List.mem_filter, List.mem_filter, hs.mem_iff, and_right_comm]
    · rw [bindingsOf_upTo, hb, List.filter_map]
      rfl

/-! ## Runs of operations -/

theorem Realizes.apply (h : store.Realizes log) {time : Nat}
    (ht : ∀ record ∈ log, record.time < time) (operation : Operation) :
    (store.apply operation).Realizes (log.apply time operation) := by
  cases operation with
  | insert binding => exact h.insert ht binding
  | assign name level value => exact h.assign name level value
  | upTo level => exact h.upTo level
  | reset => exact realizes_empty

theorem time_lt_apply {time : Nat} (ht : ∀ record ∈ log, record.time < time)
    (operation : Operation) : ∀ record ∈ log.apply time operation, record.time < time + 1 := by
  intro record hr
  cases operation with
  | insert binding =>
    obtain hr | hr := List.mem_append.1 hr
    · exact Nat.lt_succ_of_lt (ht record hr)
    · rw [List.mem_singleton.1 hr]
      exact Nat.lt_succ_self time
  | assign name level value =>
    obtain ⟨old, ho, rfl⟩ := List.mem_map.1 hr
    rw [Log.time_assigned]
    exact Nat.lt_succ_of_lt (ht old ho)
  | upTo level => exact Nat.lt_succ_of_lt (ht record (List.mem_filter.1 hr).1)
  | reset => exact absurd hr List.not_mem_nil

/-- Whatever is done to a store is written down in its log. -/
theorem realizes_after (operations : List Operation) :
    (after operations).Realizes (Log.after operations) ∧
      ∀ record ∈ Log.after operations, record.time < operations.length := by
  induction operations using List.reverseRecOn with
  | nil => exact ⟨realizes_empty, List.forall_mem_nil _⟩
  | append_singleton operations operation ih =>
    obtain ⟨hr, ht⟩ := ih
    rw [after_concat, Log.after_concat, List.length_append, List.length_singleton]
    exact ⟨hr.apply ht operation, time_lt_apply ht operation⟩

/-- After any operations, in any order of levels and with any duplicates, lookups read the log:
a name is visible as the youngest record of the highest level up to the given one, and at exactly
a level its oldest record is found. A value is given to the one record that is visible, and
forgetting drops just the records above a level. -/
theorem implements_log (operations : List Operation) (name : String) (level : Nat) :
    let store := after operations
    let log := Log.after operations
    store.Realizes log ∧
      (∀ binding, store.visible? name level = some binding ↔
        ∃ record, log.IsVisible name level record ∧ record.binding = binding) ∧
      (store.visible? name level = none ↔
        ∀ record ∈ log, record.binding.name = name → level < record.binding.level) ∧
      (∀ binding, store.atLevel? name level = some binding ↔
        ∃ record, log.IsOldest name level record ∧ record.binding = binding) ∧
      (store.atLevel? name level = none ↔
        ∀ record ∈ log, record.binding.name = name → record.binding.level ≠ level) ∧
      {record | log.IsVisible name level record}.Subsingleton ∧
      (∀ value, (store.assign name level value).Realizes (log.map fun record =>
        if log.IsVisible name level record then record.withValue value else record)) ∧
      (store.upTo level).Realizes (log.filter fun record => record.binding.level ≤ level) := by
  intro store log
  have h : store.Realizes log := (realizes_after operations).1
  exact ⟨h, fun _ => h.visible?_eq_some, h.visible?_eq_none, fun _ => h.atLevel?_eq_some,
    h.atLevel?_eq_none, fun _ hr _ ho => hr.unique h.increasing ho,
    fun value => h.assign name level value, h.upTo level⟩

end Store
end BlockLang
