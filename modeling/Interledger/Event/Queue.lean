import Interledger.Event

/-! A queue of events. Closing it keeps what is in it, and what is put in later. -/

namespace Interledger

structure EventQueue where
  events : List Event
  isClosed : Bool
  deriving DecidableEq

namespace EventQueue

def empty : EventQueue := ⟨[], false⟩

def enqueue (q : EventQueue) (e : Event) : EventQueue := { q with events := q.events ++ [e] }

def close (q : EventQueue) : EventQueue := { q with isClosed := true }

/-- What taking from a queue gives: an event, the end of a closed queue, or a wait. -/
inductive Taken where
  | event (e : Event) (rest : EventQueue)
  | ended
  | blocked

def take (q : EventQueue) : Taken :=
  match q.events with
  | e :: es => .event e { q with events := es }
  | [] => if q.isClosed then .ended else .blocked

end EventQueue

end Interledger
