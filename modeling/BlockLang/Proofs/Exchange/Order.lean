import BlockLang.Proofs.Exchange

/-! # What is taken, and in which order

The feeder puts a value only while the reader is still waiting on the empty mailbox: once
it has seen that a value is wanted, no step of the reader can change this, and the feeder
does not check again before its value has been taken. So no value is replaced, and those
that are taken are those that were put, in their order.
-/
namespace BlockLang.Exchange

structure Orderly (early : Option String) (feed : Nat → Option String) (x : Exchange) : Prop where
  waiting_iff : x.mailbox.waiting = true ↔ x.reader ≠ .away
  wanting : x.feeder = .putting → x.mailbox.isWanting = true
  served_eq : ∀ k value, x.served[k]? = some value → feed k = some value
  kept : x.taken ++ x.mailbox.value.toList = early.toList ++ x.served

variable {early : Option String} {feed : Nat → Option String} {x y : Exchange} {value : String}

theorem isWanting_iff {mailbox : Mailbox} :
    mailbox.isWanting = true ↔ mailbox.waiting = true ∧ mailbox.value = none := by
  simp [Mailbox.isWanting]

theorem orderly_start : (start early).Orderly early feed where
  waiting_iff := by cases early <;> simp [start, Mailbox.empty, Mailbox.put]
  wanting := by simp [start]
  served_eq := by simp [start]
  kept := by cases early <;> simp [start, Mailbox.empty, Mailbox.put]

/-- Only whether the reader is away and whether the feeder is about to put matters. -/
theorem Orderly.congr (h : x.Orderly early feed) {reader : Reader} {feeder : Feeder}
    (hr : reader = .away ↔ x.reader = .away) (hf : feeder = .putting → x.feeder = .putting) :
    ({ x with reader := reader, feeder := feeder } : Exchange).Orderly early feed where
  waiting_iff := h.waiting_iff.trans (not_congr hr.symm)
  wanting := fun he => h.wanting (hf he)
  served_eq := h.served_eq
  kept := h.kept

theorem Orderly.notify (h : x.Orderly early feed) : x.notify.Orderly early feed :=
  h.congr woken_eq_away woken_eq_putting.1

/-- A reader that waits takes the value there is, or goes on to wait. -/
theorem Orderly.look (h : x.Orderly early feed) (hr : x.reader ≠ .away) :
    x.look.Orderly early feed := by
  cases hv : x.mailbox.value with
  | none =>
    rw [look_of_empty hv]
    exact h.congr (by simp [hr]) id
  | some value =>
    rw [look_of_value hv]
    refine ⟨by simp [Mailbox.empty], fun hf => ?_, h.served_eq, ?_⟩
    · have hnone := (isWanting_iff.1 (h.wanting hf)).2
      rw [hv] at hnone
      cases hnone
    · have hkept := h.kept
      rw [hv] at hkept
      simpa [Mailbox.empty] using hkept

/-- A feeder that is about to put a value has seen a reader that waits, not one that is away. -/
theorem Orderly.ask (h : x.Orderly early feed) (hr : x.reader = .away) :
    x.ask.Orderly early feed := by
  let begun : Exchange := { x with mailbox := x.mailbox.ask, reader := .awake }
  have hfeeder : x.feeder ≠ .putting := by
    intro hf
    have hwaiting := (isWanting_iff.1 (h.wanting hf)).1
    exact h.waiting_iff.1 hwaiting hr
  have hbegun : begun.Orderly early feed :=
    ⟨by simp [begun, Mailbox.ask], fun hf => absurd hf hfeeder, h.served_eq, h.kept⟩
  have hask : x.ask = begun.notify.look := (look_of_reader Reader.awake).symm
  rw [hask]
  exact hbegun.notify.look (by simp [begun, Exchange.notify, Reader.woken])

theorem Orderly.check (h : x.Orderly early feed) : x.check.Orderly early feed where
  waiting_iff := h.waiting_iff
  wanting := by
    intro hf
    by_cases hw : x.mailbox.isWanting = true
    · exact hw
    · simp [Exchange.check, hw] at hf
  served_eq := h.served_eq
  kept := h.kept

/-- The mailbox is empty when the feeder puts its value, however many steps after the check. -/
theorem Orderly.empty_of_putting (h : x.Orderly early feed) (hf : x.feeder = .putting) :
    x.mailbox.value = none :=
  (isWanting_iff.1 (h.wanting hf)).2

theorem Orderly.put (h : x.Orderly early feed) (hf : x.feeder = .putting)
    (hv : feed x.served.length = some value) : (x.put value).Orderly early feed := by
  apply Orderly.notify
  refine ⟨h.waiting_iff, by simp, fun k other hk => ?_, ?_⟩
  · rw [List.getElem?_append] at hk
    split at hk
    · exact h.served_eq k other hk
    · rename_i hlt
      rw [List.getElem?_singleton] at hk
      split at hk
      · rename_i hzero
        cases hk
        rwa [show k = x.served.length by omega]
      · cases hk
  · have hkept := h.kept
    rw [h.empty_of_putting hf, Option.toList_none, List.append_nil] at hkept
    simp [Mailbox.put, hkept]

/-- What a step preserves. -/
theorem Orderly.step (h : x.Orderly early feed) (hs : Step feed x y) : y.Orderly early feed := by
  cases hs with
  | ask hr => exact h.ask hr
  | look hr => exact h.look (by simp [hr])
  | wakeReader hr => exact h.congr (by simp [hr]) id
  | check => exact h.check
  | put hf hv => exact h.put hf hv
  | wakeFeeder hf => exact h.congr Iff.rfl nofun

/-- What any number of steps preserves. -/
theorem Orderly.of_reachable (h : Reachable early feed x) : x.Orderly early feed := by
  induction h with
  | refl => exact orderly_start
  | tail _ hs ih => exact ih.step hs

/-- However the steps of reader and feeder alternate, what has been put, behind a value from before,
is what has been taken and then what is in the mailbox. The values that were put are the first ones
of the feeder, and a value that it is about to put will replace none. -/
theorem taken_in_order {early : Option String} {feed : Nat → Option String} {x : Exchange}
    (h : Reachable early feed x) :
    x.taken <+: early.toList ++ x.served ∧
      early.toList ++ x.served = x.taken ++ x.mailbox.value.toList ∧
      (∀ k value, x.served[k]? = some value → feed k = some value) ∧
      (x.feeder = .putting → x.mailbox.value = none) := by
  have ho : x.Orderly early feed := .of_reachable h
  exact ⟨⟨_, ho.kept⟩, ho.kept.symm, ho.served_eq, ho.empty_of_putting⟩

/-- A value from before is taken while the feeder sleeps, and the reader is woken in vain between
the check and the next value. -/
theorem taken_after_early_value : ∃ x : Exchange,
    Reachable (some "d") (["v", "w"][·]?) x ∧ x.taken = ["d", "v"] ∧
      x.taken <+: ["d"] ++ x.served := by
  let asked := (start (some "d")).check.ask.check.ask
  let checked := asked.check
  let answered := ({ checked with reader := .awake } : Exchange).look.put "v"
  have hasked : Reachable (some "d") (["v", "w"][·]?) asked :=
    (((Relation.ReflTransGen.refl.tail (.check rfl rfl)).tail (.ask rfl)).tail
      (.check rfl rfl)).tail (.ask rfl)
  have hchecked : Reachable (some "d") (["v", "w"][·]?) checked := hasked.tail (.check rfl rfl)
  have hanswered : Reachable (some "d") (["v", "w"][·]?) answered :=
    ((hchecked.tail (.wakeReader rfl)).tail (.look rfl)).tail (.put rfl rfl)
  have h := hanswered.tail (.look rfl)
  exact ⟨answered.look, h, rfl, (taken_in_order h).1⟩

end BlockLang.Exchange
