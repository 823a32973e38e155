/-
  HeaderPeer.Event.Bus — events for any number of subscribers.

  Each subscriber has an inbox of its own, which holds the newest events only.  A subscriber who
  reads too late is told how many events were lost before being given the oldest one left.
-/
import HeaderPeer.Event.Basic

namespace HeaderPeer

/-! ## §1. Inboxes -/

/-- What waits for one subscriber. -/
structure Inbox where
  /-- Events not read yet, oldest first. -/
  unread : List Event
  /-- How many events were dropped since the last reading. -/
  lost : Nat

namespace Inbox

/-- How many events an inbox holds. -/
def capacity : Nat := 256

def empty : Inbox := ⟨[], 0⟩

/-- Puts an event in; the oldest event gives way if the inbox is full. -/
def put (inbox : Inbox) (event : Event) : Inbox :=
  let unread := inbox.unread ++ [event]
  { unread := unread.drop (unread.length - capacity)
    lost := inbox.lost + (unread.length - capacity) }

/-- What waits for a subscriber who was there for some events and has read none of them. -/
def ofEvents (events : List Event) : Inbox := events.foldl put empty

inductive Reading where
  | event (event : Event)
  | lost (count : Nat)
  | nothing

/-- Reads the news of lost events first, then the oldest event. -/
def read (inbox : Inbox) : Reading × Inbox :=
  if inbox.lost ≠ 0 then (.lost inbox.lost, { inbox with lost := 0 })
  else
    match inbox.unread with
    | [] => (.nothing, inbox)
    | event :: rest => (.event event, { inbox with unread := rest })

/-- All that is read until nothing is left, in order. -/
def readAll (inbox : Inbox) : List Reading :=
  (if inbox.lost ≠ 0 then [.lost inbox.lost] else []) ++ inbox.unread.map .event

end Inbox

/-! ## §2. The bus -/

/-- The inboxes of all who have ever subscribed, in order; a place is empty after its subscriber has
left. -/
structure Bus where
  inboxes : List (Option Inbox)

namespace Bus

def empty : Bus := ⟨[]⟩

def subscribers (bus : Bus) : Nat := bus.inboxes.countP Option.isSome

/-- Adds a subscriber, who will read the events published from now on.  The subscriber's number is
how many have subscribed before. -/
def subscribe (bus : Bus) : Bus := ⟨bus.inboxes ++ [some .empty]⟩

/-- Takes the subscriber with a number away. -/
def unsubscribe (bus : Bus) (number : Nat) : Bus := ⟨bus.inboxes.set number none⟩

def publish (bus : Bus) (event : Event) : Bus :=
  ⟨bus.inboxes.map fun place => place.map fun inbox => inbox.put event⟩

/-- What the subscriber with a number reads next, if there is such a subscriber. -/
def read? (bus : Bus) (number : Nat) : Option (Inbox.Reading × Bus) := do
  let inbox ← (bus.inboxes[number]?).join
  let (reading, inbox) := inbox.read
  return (reading, ⟨bus.inboxes.set number (some inbox)⟩)

end Bus

end HeaderPeer
