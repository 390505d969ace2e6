import Interledger.Event.Queue
import Interledger.Log

/-! A courier: the worker that brings raised events to a handler, one at a time and in
order. The handler in the slot when a delivery begins is the one that gets the event.

The worker is a thread, and the courier has an object for it that outlives it: from the launch
until a call from another thread has waited for the worker's end, that object can be joined, and
to launch a worker over it aborts the program. The object has no lock of its own, so two calls
that deal with it at once have no meaning, and what a call does with it is one step here. -/

namespace Interledger

open Log

namespace Courier

/-- Where the worker is; `holding` lies between taking an event and delivering it. -/
inductive Worker (η : Type) where
  | absent
  | idle
  | holding (e : Event)
  | delivering (e : Event) (handler : η)

/-- What has become of the worker's thread. It is joinable also when the worker has ended. -/
inductive Thread where
  | none
  | joinable
  | joined
  deriving DecidableEq

end Courier

structure Courier (η : Type) where
  name : Bytes
  queue : EventQueue
  handler : Option η
  running : Bool
  thread : Courier.Thread
  worker : Courier.Worker η
  /-- Whether the program has ended where a worker was launched. -/
  isAborted : Bool

namespace Courier

variable {η : Type}

def make (name : Bytes) : Courier η := ⟨name, .empty, none, false, .none, .absent, false⟩

def raise (c : Courier η) (e : Event) : Courier η := { c with queue := c.queue.enqueue e }

def setHandler (c : Courier η) (handler : Option η) : Courier η := { c with handler }

/-- Launches a worker, unless one was launched and not asked to end since. Where the last one's
thread can still be joined the program aborts. The call is one step, of which no half is seen:
what a second worker begins between its launch and the abort is lost with the program. -/
def start (c : Courier η) : Courier η :=
  if c.running then c
  else
    match c.thread with
    | .joinable => { c with running := true, isAborted := true }
    | .none | .joined => { c with running := true, thread := .joinable, worker := .idle }

/-- Asks the worker to end once the queue is empty. From inside a handler that is all. -/
def close (c : Courier η) : Courier η := { c with queue := c.queue.close, running := false }

/-- How a call from another thread that has asked the worker to end comes to its own end: it
waits until the worker is gone, and makes no move before. -/
def join (c : Courier η) : Courier η :=
  match c.thread, c.worker with
  | .joinable, .absent => { c with thread := .joined }
  | _, _ => c

/-- An idle worker takes an event, or ends with a closed queue. -/
def take (c : Courier η) : Courier η :=
  match c.worker with
  | .idle =>
    match c.queue.take with
    | .event e queue => { c with queue, worker := .holding e }
    | .ended => { c with worker := .absent }
    | .blocked => c
  | .absent | .holding _ | .delivering .. => c

def dropLine (c : Courier η) (e : Event) : Line :=
  ⟨.warning, "ledger event dropped, no handler registered",
    [⟨"adaptor", c.name⟩, ⟨"event", e.name⟩, ⟨"transfer_id", e.transferId⟩]⟩

def failLine (c : Courier η) (e : Event) (failure : Bytes) : Line :=
  ⟨.error, "ledger event handler failed",
    [⟨"adaptor", c.name⟩, ⟨"event", e.name⟩, ⟨"error", failure⟩]⟩

/-- Begins the delivery of the event in hand, or drops it when there is no handler. -/
def deliver (c : Courier η) : List Line × Courier η :=
  match c.worker with
  | .holding e =>
    match c.handler with
    | some h => ([], { c with worker := .delivering e h })
    | none => ([c.dropLine e], { c with worker := .idle })
  | .absent | .idle | .delivering .. => ([], c)

/-- Ends the delivery under way; a handler that failed changes nothing but the log. -/
def finish (c : Courier η) (failure : Option Bytes) : List Line × Courier η :=
  match c.worker with
  | .delivering e _ =>
    ((failure.map (c.failLine e)).toList, { c with worker := .idle })
  | .absent | .idle | .holding _ => ([], c)

end Courier

end Interledger
