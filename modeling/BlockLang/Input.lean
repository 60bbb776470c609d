/-! # Input

A program and whoever feeds it share a mailbox that holds one value. What is put
into it replaces a value that has not been taken, and the program waits on an
empty mailbox until something is put into it. A supply is a mailbox with a feeder
that answers each request on the empty mailbox from a list, and with empty texts
once the list has ended.
-/
namespace BlockLang

structure Mailbox where
  value : Option String
  /-- Whether the program has asked for a value that it has not taken yet. -/
  waiting : Bool
deriving DecidableEq

namespace Mailbox

def empty : Mailbox :=
  ⟨none, false⟩

def put (mailbox : Mailbox) (value : String) : Mailbox :=
  { mailbox with value := some value }

def ask (mailbox : Mailbox) : Mailbox :=
  { mailbox with waiting := true }

def take? (mailbox : Mailbox) : Option (String × Mailbox) :=
  mailbox.value.map fun value => (value, empty)

/-- Whether the feeder is to put a value. -/
def isWanting (mailbox : Mailbox) : Bool :=
  mailbox.waiting && mailbox.value.isNone

end Mailbox

structure Supply where
  mailbox : Mailbox
  feed : List String
  /-- How many values the feeder has put into the mailbox. -/
  served : Nat

namespace Supply

def ofFeed (feed : List String) : Supply :=
  ⟨.empty, feed, 0⟩

/-- A supply into whose mailbox some values have been put before the program runs. -/
def ofEarly (early feed : List String) : Supply :=
  ⟨early.foldl Mailbox.put .empty, feed, 0⟩

def isExhausted (supply : Supply) : Bool :=
  supply.mailbox.value.isNone && supply.feed.isEmpty

def offer (supply : Supply) (value : String) : Supply :=
  { supply with feed := supply.feed ++ [value] }

/-- The feeder puts its next value into the mailbox. -/
def serve (supply : Supply) : Supply :=
  ⟨supply.mailbox.put (supply.feed.headD ""), supply.feed.tail, supply.served + 1⟩

/-- Asks for a value, has it served if the mailbox wants one, and takes it. -/
def next (supply : Supply) : String × Supply :=
  let asked := { supply with mailbox := supply.mailbox.ask }
  let served := if asked.mailbox.isWanting then asked.serve else asked
  match served.mailbox.take? with
  | some (value, mailbox) => (value, { served with mailbox })
  | none => ("", served)

/-- A value that is in the mailbox is taken, and the feeder is not asked. -/
theorem next_of_value {supply : Supply} {value : String} (h : supply.mailbox.value = some value) :
    supply.next = (value, { supply with mailbox := .empty }) := by
  simp [next, Mailbox.ask, Mailbox.isWanting, Mailbox.take?, h]

/-- On the empty mailbox the feeder's next value is taken. -/
theorem next_of_empty {supply : Supply} (h : supply.mailbox.value = none) :
    supply.next = (supply.feed.headD "", ⟨.empty, supply.feed.tail, supply.served + 1⟩) := by
  simp [next, serve, Mailbox.ask, Mailbox.put, Mailbox.isWanting, Mailbox.take?, h]

end Supply
end BlockLang
