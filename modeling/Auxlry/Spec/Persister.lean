import Auxlry.Spec.Daemon
import Auxlry.Spec.Events
import Auxlry.Sys.Broadcast

/-!
# The event persister

A task that subscribes to the event bus when the daemon starts, and inserts every event that
it receives in the events table. While it inserts one, others are published.

The last fields of a persister are bookkeeping: the events published since it subscribed,
those it has tried to insert with whether the statement succeeded, and how many it was told
that it missed.
-/

namespace Auxlry

open Sys (Receiver)

/-- The task of `spawn_persister`, with its end of the bus and the table it inserts in. -/
structure Persister (P : Type) where
  rx : Receiver (Event P)
  /-- nothing can be published any more -/
  closed : Bool
  /-- the event in hand, while it is inserted -/
  inserting : Option (Event P)
  table : List EventRow
  ended : Bool
  published : List (Event P)
  handled : List (Event P × Bool)
  skipped : ℕ

namespace Persister

variable {P : Type}

/-- The persister starts with the events of earlier runs in the table. -/
def spawn (table : List EventRow) : Persister P :=
  ⟨.new, false, none, table, false, [], [], 0⟩

inductive Action (P : Type)
  | publish (event : Event P)
  /-- the last sender of the bus is dropped -/
  | close
  | recv
  /-- the statement for the event in hand succeeds or fails -/
  | insert (queryOk : Bool)

/-- The events that the persister has received. -/
def received (s : Persister P) : List (Event P) := s.handled.map (·.1) ++ s.inserting.toList

variable (c : EventCodec P)

/-- One step; an event that cannot be inserted is logged and dropped. -/
def step (s : Persister P) : Action P → Option (Persister P)
  | .publish event =>
    if s.closed then none
    else some { s with rx := s.rx.send busCapacity event, published := s.published ++ [event] }
  | .close => some { s with closed := true }
  | .recv =>
    if s.ended ∨ s.inserting.isSome then none
    else
      match s.rx.recv with
      | some (.value event, rx) => some { s with rx := rx, inserting := some event }
      | some (.lagged n, rx) => some { s with rx := rx, skipped := s.skipped + n }
      | none => if s.closed then some { s with ended := true } else none
  | .insert queryOk =>
    s.inserting.map fun event =>
      { s with
        inserting := none
        table := (c.insertEvent s.table event queryOk).toOption.getD s.table
        handled := s.handled ++ [(event, queryOk)] }

end Persister

end Auxlry
