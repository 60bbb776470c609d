import BlockLang.Proofs.Exchange.Order

/-! # Who sleeps, and why

The reader sleeps only while the mailbox lacks the value that it has asked for, and the
feeder only while no value is wanted, although each step changes the flag or the value
alone. So the two never sleep at once, and a reader that waits is served in the end,
whatever the order in which those who are awake take their steps.
-/
namespace BlockLang.Exchange

variable {early : Option String} {feed : Nat → Option String} {x y : Exchange} {value : String}

/-! ## Sleepers -/

/-- Whoever sleeps has nothing to do. -/
structure Restful (x : Exchange) : Prop where
  reader : x.reader = .asleep → x.mailbox.value = none
  feeder : x.feeder = .asleep → x.mailbox.isWanting = false

theorem restful_start : (start early).Restful :=
  ⟨by simp [start], by simp [start]⟩

theorem woken_ne_asleep (reader : Reader) : reader.woken ≠ .asleep := by
  cases reader <;> simp [Reader.woken]

theorem feeder_woken_ne_asleep (feeder : Feeder) : feeder.woken ≠ .asleep := by
  cases feeder <;> simp [Feeder.woken]

/-- Nobody sleeps after everyone has been woken. -/
theorem restful_notify (x : Exchange) : x.notify.Restful :=
  ⟨fun h => absurd h (woken_ne_asleep _), fun h => absurd h (feeder_woken_ne_asleep _)⟩

/-- A reader that takes a value leaves an empty mailbox in which no value is wanted. -/
theorem Restful.look (h : x.Restful) : x.look.Restful := by
  cases hv : x.mailbox.value with
  | none =>
    rw [look_of_empty hv]
    exact ⟨fun _ => hv, h.feeder⟩
  | some value =>
    rw [look_of_value hv]
    exact ⟨nofun, fun _ => rfl⟩

theorem Restful.check (h : x.Restful) : x.check.Restful := by
  refine ⟨h.reader, fun hf => ?_⟩
  by_cases hw : x.mailbox.isWanting = true
  · simp [Exchange.check, hw] at hf
  · exact Bool.eq_false_iff.2 hw

/-- What a step preserves. -/
theorem Restful.step (h : x.Restful) (hs : Step feed x y) : y.Restful := by
  cases hs with
  | ask => exact (restful_notify _).look
  | look => exact h.look
  | wakeReader => exact ⟨nofun, h.feeder⟩
  | check => exact h.check
  | put => exact restful_notify _
  | wakeFeeder => exact ⟨h.reader, nofun⟩

/-- What any number of steps preserves. -/
theorem Restful.of_reachable (h : Reachable early feed x) : x.Restful := by
  induction h with
  | refl => exact restful_start
  | tail _ hs ih => exact ih.step hs

/-! ## Steps of those who are awake -/

/-- The steps that are taken without anyone being woken for no reason. -/
inductive Act (feed : Nat → Option String) (x : Exchange) : Exchange → Prop
  | ask : x.reader = .away → Act feed x x.ask
  | look : x.reader = .awake → Act feed x x.look
  | check : x.feeder = .checking → (feed x.served.length).isSome → Act feed x x.check
  | put {value : String} : x.feeder = .putting → feed x.served.length = some value →
    Act feed x (x.put value)

theorem check_feeder_ne_checking (x : Exchange) : x.check.feeder ≠ .checking := by
  simp only [check]
  split <;> simp

theorem Act.step (h : Act feed x y) : Step feed x y := by
  cases h with
  | ask hr => exact .ask hr
  | look hr => exact .look hr
  | check hf hv => exact .check hf hv
  | put hf hv => exact .put hf hv

/-- Whatever those who are awake do, and in whatever order, the reader stops waiting. -/
inductive IsServed (feed : Nat → Option String) : Exchange → Prop
  | done {x : Exchange} : x.reader = .away → IsServed feed x
  | later {x : Exchange} : (∃ y, Act feed x y) → (∀ y, Act feed x y → IsServed feed y) →
    IsServed feed x

/-- There is a value for the reader, in the mailbox or with the feeder. -/
def HasValue (feed : Nat → Option String) (x : Exchange) : Prop :=
  x.mailbox.value = none → (feed x.served.length).isSome

/-- How far a reader that waits is from having a value. -/
def distance (x : Exchange) : Nat :=
  (if x.mailbox.value = none then 3 else 0) + (if x.feeder = .checking then 1 else 0) +
    (if x.reader = .awake then 1 else 0)

theorem distance_le_of_value (h : x.mailbox.value = some value) : x.distance ≤ 2 := by
  rw [distance, if_neg (by simp [h])]
  split <;> split <;> simp

theorem le_distance_of_empty (h : x.mailbox.value = none) : 3 ≤ x.distance := by
  rw [distance, if_pos h, Nat.add_assoc]
  exact Nat.le_add_right _ _

/-- A reader that has asked for a value is looking for it, or sleeps on the empty mailbox while
the feeder does not. -/
theorem exists_act (ho : x.Orderly early feed) (h : x.Restful) (hr : x.reader ≠ .away)
    (hv : x.HasValue feed) : ∃ y, Act feed x y := by
  cases hreader : x.reader with
  | away => exact absurd hreader hr
  | awake => exact ⟨_, .look hreader⟩
  | asleep =>
    have hnone := h.reader hreader
    obtain ⟨value, hfeed⟩ := Option.isSome_iff_exists.1 (hv hnone)
    cases hfeeder : x.feeder with
    | checking => exact ⟨_, .check hfeeder (hv hnone)⟩
    | putting => exact ⟨_, .put hfeeder hfeed⟩
    | asleep =>
      have hwanting := isWanting_iff.2 ⟨ho.waiting_iff.2 hr, hnone⟩
      rw [h.feeder hfeeder] at hwanting
      cases hwanting

/-- Each step of those who are awake ends the waiting or brings its end nearer. -/
theorem Act.nearer (ha : Act feed x y) (ho : x.Orderly early feed) (hr : x.reader ≠ .away)
    (hv : x.HasValue feed) :
    y.reader = .away ∨ y.reader ≠ .away ∧ y.HasValue feed ∧ y.distance < x.distance := by
  cases ha with
  | ask haway => exact absurd haway hr
  | look hawake =>
    cases hvalue : x.mailbox.value with
    | some value =>
      rw [look_of_value hvalue]
      exact .inl rfl
    | none =>
      rw [look_of_empty hvalue]
      exact .inr ⟨by simp, hv, by simp [distance, hawake]⟩
  | check hchecking =>
    have hless : x.check.distance < x.distance := by
      rw [distance, distance, if_neg x.check_feeder_ne_checking, if_pos hchecking]
      exact Nat.add_lt_add_right (Nat.lt_succ_self _) _
    exact .inr ⟨hr, hv, hless⟩
  | @put value hputting =>
    have hwaits : (x.put value).reader ≠ .away := by simpa [Exchange.put, notify] using hr
    have hafter : (x.put value).distance ≤ 2 := distance_le_of_value rfl
    have hbefore : 3 ≤ x.distance := le_distance_of_empty (ho.empty_of_putting hputting)
    have hvalue : (x.put value).HasValue feed := fun hnone => by cases hnone
    exact .inr ⟨hwaits, hvalue, Nat.lt_of_le_of_lt hafter hbefore⟩

theorem isServed {x : Exchange} (ho : x.Orderly early feed) (h : x.Restful)
    (hv : x.HasValue feed) : IsServed feed x := by
  by_cases hr : x.reader = .away
  · exact .done hr
  · refine .later (exists_act ho h hr hv) fun y ha => ?_
    obtain haway | ⟨-, hvalue, hless⟩ := ha.nearer ho hr hv
    · exact .done haway
    · exact isServed (ho.step ha.step) (h.step ha.step) hvalue
termination_by x.distance
decreasing_by exact hless

/-- A reader sleeps only if it waits and the mailbox is empty, and a feeder only if this is not so.
The two never sleep at once, and as long as there is a value for a reader that waits, it will be
served without anyone being woken for no reason. -/
theorem no_lost_wakeup {early : Option String} {feed : Nat → Option String} {x : Exchange}
    (h : Reachable early feed x) :
    (x.reader = .asleep → x.mailbox.value = none ∧ x.mailbox.waiting = true) ∧
      (x.feeder = .asleep → ¬(x.mailbox.waiting = true ∧ x.mailbox.value = none)) ∧
      ¬(x.reader = .asleep ∧ x.feeder = .asleep) ∧
      (x.HasValue feed → IsServed feed x) := by
  have ho : x.Orderly early feed := .of_reachable h
  have hrest : x.Restful := .of_reachable h
  have hreader (hr : x.reader = .asleep) : x.mailbox.value = none ∧ x.mailbox.waiting = true :=
    ⟨hrest.reader hr, ho.waiting_iff.2 (by simp [hr])⟩
  have hfeeder (hf : x.feeder = .asleep) :
      ¬(x.mailbox.waiting = true ∧ x.mailbox.value = none) := by
    rw [← isWanting_iff, hrest.feeder hf]
    exact Bool.false_ne_true
  exact ⟨hreader, hfeeder, fun hboth => hfeeder hboth.2 (hreader hboth.1).symm,
    isServed ho hrest⟩

/-- The feeder falls asleep before anything has been asked for; the reader wakes it by asking, and
sleeps itself until it is served. -/
theorem sleeping_reader_is_served : ∃ x : Exchange, Reachable none (["v"][·]?) x ∧
    x.reader = .asleep ∧ x.mailbox = ⟨none, true⟩ ∧ x.feeder ≠ .asleep ∧
      IsServed (["v"][·]?) x := by
  have h : Reachable none (["v"][·]?) (start none).check.ask :=
    (Relation.ReflTransGen.refl.tail (.check rfl rfl)).tail (.ask rfl)
  obtain ⟨-, -, hboth, hserved⟩ := no_lost_wakeup h
  exact ⟨_, h, rfl, rfl, fun hf => hboth ⟨rfl, hf⟩, hserved fun _ => rfl⟩

end BlockLang.Exchange
