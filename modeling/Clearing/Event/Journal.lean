import Clearing.Event.Payload

/-!
The journal of events.

Events are numbered from one.  The journal keeps the latest ones up to its capacity; their
numbers go on when older ones are dropped.
-/

namespace Clearing

/-- A numbered event with its time. -/
structure Event where
  id : Nat
  timestamp : Instant
  payload : Payload
deriving DecidableEq

/-- The latest events, the oldest first. -/
structure Journal where
  events : List Event
  nextId : Nat
  capacity : Nat
deriving DecidableEq

namespace Journal

/-- A journal without events that keeps so many of them. -/
def empty (capacity : Nat) : Journal := ⟨[], 1, capacity⟩

/-- How many events are kept where nothing else is asked for. -/
def defaultCapacity : Nat := 100000

/-- Hands out the next number. -/
def takeId (j : Journal) : Nat × Journal :=
  (j.nextId, { j with nextId := j.nextId + 1 })

/-- Adds an event, dropping the oldest ones beyond the capacity. -/
def append (j : Journal) (e : Event) : Journal :=
  let events := j.events ++ [e]
  { j with events := events.drop (events.length - j.capacity) }

/-- Writes an event under the next number. -/
def record (j : Journal) (now : Instant) (payload : Payload) : Journal :=
  let (id, j) := j.takeId
  j.append ⟨id, now, payload⟩

/-- Writes events in turn. -/
def recordAll (j : Journal) (now : Instant) (payloads : List Payload) : Journal :=
  payloads.foldl (fun j payload => j.record now payload) j

/-- The latest `count` events. -/
def recent (j : Journal) (count : Nat) : List Event :=
  j.events.drop (j.events.length - count)

/-- Forgets the events, not their numbers. -/
def clear (j : Journal) : Journal :=
  { j with events := [] }

end Journal

end Clearing
