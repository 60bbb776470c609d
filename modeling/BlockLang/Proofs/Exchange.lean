import BlockLang.Input
import Mathlib.Logic.Relation

/-! # Exchanges

A reader and a feeder share a mailbox, and what either does with it is one step that the
other cannot interrupt. The reader asks and looks into the mailbox at once; if it is empty,
the reader sleeps and looks again whenever it has been woken. The feeder checks whether a
value is wanted and sleeps if none is; it puts its next value in a step of its own, so
that other steps may come in between. Each may also be woken without a reason.
-/
namespace BlockLang

namespace Exchange

/-- Whether a reader takes nothing at present, or where in taking a value it is. -/
inductive Reader where
  | away | asleep | awake
deriving DecidableEq

/-- Whether a feeder is about to check what is wanted, sleeps, or is about to put a value. -/
inductive Feeder where
  | checking | asleep | putting
deriving DecidableEq

def Reader.woken : Reader → Reader
  | .asleep => .awake
  | reader => reader

def Feeder.woken : Feeder → Feeder
  | .asleep => .checking
  | feeder => feeder

end Exchange

open Exchange in
structure Exchange where
  mailbox : Mailbox
  reader : Reader
  feeder : Feeder
  /-- What the reader has taken so far. -/
  taken : List String
  /-- What the feeder has put so far. -/
  served : List String

namespace Exchange

def start (early : Option String) : Exchange :=
  ⟨early.elim .empty Mailbox.empty.put, .away, .checking, [], []⟩

def notify (x : Exchange) : Exchange :=
  { x with reader := x.reader.woken, feeder := x.feeder.woken }

/-- The reader takes the value, or sleeps if there is none. -/
def look (x : Exchange) : Exchange :=
  match x.mailbox.take? with
  | some (value, mailbox) =>
    { x with mailbox := mailbox, reader := .away, taken := x.taken ++ [value] }
  | none => { x with reader := .asleep }

/-- The reader asks for a value, which is made known, and looks whether it is there. -/
def ask (x : Exchange) : Exchange :=
  ({ x with mailbox := x.mailbox.ask } : Exchange).notify.look

/-- The feeder goes on to put a value, or sleeps if none is wanted. -/
def check (x : Exchange) : Exchange :=
  { x with feeder := if x.mailbox.isWanting then .putting else .asleep }

def put (value : String) (x : Exchange) : Exchange :=
  ({ x with
    mailbox := x.mailbox.put value
    feeder := .checking
    served := x.served ++ [value] } : Exchange).notify

/-- One step of either, if the values of the feeder are those of `feed`. It may be without an
end, and a feeder that has put all its values checks no more. -/
inductive Step (feed : Nat → Option String) (x : Exchange) : Exchange → Prop
  | ask : x.reader = .away → Step feed x x.ask
  | look : x.reader = .awake → Step feed x x.look
  | wakeReader : x.reader = .asleep → Step feed x { x with reader := .awake }
  | check : x.feeder = .checking → (feed x.served.length).isSome → Step feed x x.check
  | put {value : String} : x.feeder = .putting → feed x.served.length = some value →
    Step feed x (x.put value)
  | wakeFeeder : x.feeder = .asleep → Step feed x { x with feeder := .checking }

def Steps (feed : Nat → Option String) : Exchange → Exchange → Prop :=
  Relation.ReflTransGen (Step feed)

def Reachable (early : Option String) (feed : Nat → Option String) (x : Exchange) : Prop :=
  Steps feed (start early) x

variable {early : Option String} {feed : Nat → Option String} {x y : Exchange} {value : String}

/-! ## What the steps do -/

@[simp] theorem woken_eq_away {reader : Reader} : reader.woken = .away ↔ reader = .away := by
  cases reader <;> simp [Reader.woken]

@[simp] theorem woken_eq_putting {feeder : Feeder} :
    feeder.woken = .putting ↔ feeder = .putting := by
  cases feeder <;> simp [Feeder.woken]

theorem look_of_value (h : x.mailbox.value = some value) :
    x.look = { x with mailbox := .empty, reader := .away, taken := x.taken ++ [value] } := by
  simp [look, Mailbox.take?, h]

theorem look_of_empty (h : x.mailbox.value = none) : x.look = { x with reader := .asleep } := by
  simp [look, Mailbox.take?, h]

/-- Looking does not depend on where in taking a value the reader is. -/
theorem look_of_reader (reader : Reader) :
    ({ x with reader := reader } : Exchange).look = x.look := by
  simp only [look]

theorem feeder_woken (h : x.feeder ≠ .putting) : x.feeder.woken = .checking := by
  cases hf : x.feeder with
  | checking => rfl
  | asleep => rfl
  | putting => exact absurd hf h

/-! ## A feeder that answers at once -/

/-- What a supply hands out is taken in some steps of an exchange: if the mailbox is empty, the
feeder checks and puts right after the reader has asked. -/
theorem exists_steps_next {supply : Supply} (hm : x.mailbox = supply.mailbox)
    (hr : x.reader = .away) (hf : x.feeder ≠ .putting)
    (hfeed : feed x.served.length = some (supply.feed.headD "")) :
    ∃ y, Steps feed x y ∧ y.mailbox = supply.next.2.mailbox ∧ y.reader = .away ∧
      y.feeder ≠ .putting ∧ y.taken = x.taken ++ [supply.next.1] := by
  cases hv : supply.mailbox.value with
  | some value =>
    have hask : x.ask = { x with
        mailbox := .empty
        reader := .away
        feeder := .checking
        taken := x.taken ++ [value] } := by
      rw [← feeder_woken hf]
      exact look_of_value (by simp [notify, Mailbox.ask, hm, hv])
    rw [Supply.next_of_value hv]
    exact ⟨x.ask, .single (.ask hr), by rw [hask], by rw [hask], by rw [hask]; simp,
      by rw [hask]⟩
  | none =>
    let value := supply.feed.headD ""
    let asked : Exchange :=
      { x with mailbox := ⟨none, true⟩, reader := .asleep, feeder := .checking }
    let checked : Exchange := { asked with feeder := .putting }
    let answered : Exchange :=
      ⟨⟨some value, true⟩, .awake, .checking, x.taken, x.served ++ [value]⟩
    have hask : x.ask = asked := by
      have hlook := look_of_empty (x := ({ x with mailbox := x.mailbox.ask } : Exchange).notify)
        (by simp [notify, Mailbox.ask, hm, hv])
      rw [ask, hlook]
      simp [asked, notify, Mailbox.ask, hm, hv, feeder_woken hf]
    have hfirst : Step feed x asked := hask ▸ .ask hr
    have hcheck : Step feed asked checked := .check rfl (by rw [hfeed]; rfl)
    have hput : Step feed checked answered := .put rfl hfeed
    have hlast : Step feed answered answered.look := .look rfl
    rw [Supply.next_of_empty hv]
    exact ⟨answered.look, .head hfirst (.head hcheck (.head hput (.single hlast))), rfl, rfl,
      by simp [answered, look, Mailbox.take?], rfl⟩

end Exchange
end BlockLang
