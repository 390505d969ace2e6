import Interledger.Error
import Interledger.Event.Courier
import Interledger.Event.LogLine

/-! A courier on its own, with handlers that keep what they are given. -/

namespace Interledger.Simulation

open Log

/-- A handler by name. One may also fail, log the event, or put another in its place
while it has the event in hand. -/
inductive Relay where
  | keep (name : Bytes)
  | fail (name text : Bytes)
  | log (name : Bytes)
  | swap (name : Bytes) (next : Option Relay)

def Relay.name : Relay → Bytes
  | keep name | fail name _ | log name | swap name _ => name

structure CourierRun where
  courier : Courier Relay
  delivered : List (Bytes × Event)
  log : List Line

inductive CourierRequest where
  | start
  | stop
  | raise (e : Event)
  | setHandler (handler : Option Relay)

namespace CourierRun

def make (name : Bytes) : CourierRun := ⟨.make name, [], []⟩

/-- What a handler does with an event, to its end. -/
def handle (r : CourierRun) (e : Event) (h : Relay) : CourierRun :=
  let r := { r with delivered := r.delivered ++ [(h.name, e)] }
  let (courier, failure, lines) : Courier Relay × Option Bytes × List Line :=
    match h with
    | .keep _ => (r.courier, none, [])
    | .fail _ text => (r.courier, some (Error.raised text).message, [])
    | .log _ => (r.courier, none, [e.logLine])
    | .swap _ next => (r.courier.setHandler next, none, [])
  let (failed, courier) := courier.finish failure
  { r with courier, log := r.log ++ lines ++ failed }

/-- Moves the worker by one event, or to its end. -/
def carryOne (r : CourierRun) : CourierRun :=
  let (lines, courier) := r.courier.take.deliver
  let r := { r with courier, log := r.log ++ lines }
  match courier.worker with
  | .delivering e h => r.handle e h
  | .absent | .idle | .holding _ => r

/-- Brings all that is queued, and ends the worker when it should end. -/
def settle (r : CourierRun) : CourierRun :=
  (r.courier.queue.events.foldl (fun r _ => r.carryOne) r).carryOne

/-- A request to stop comes from outside: it waits until the worker has ended. -/
def stop (r : CourierRun) : CourierRun :=
  let r := { r with courier := r.courier.close }.settle
  { r with courier := r.courier.join }

def perform (r : CourierRun) : CourierRequest → CourierRun
  | .start => { r with courier := r.courier.start }
  | .stop => r.stop
  | .raise e => { r with courier := r.courier.raise e }
  | .setHandler handler => { r with courier := r.courier.setHandler handler }

/-- Performs a request and lets the worker bring what it can; what was delivered and
logged before is forgotten. -/
def step (r : CourierRun) (request : CourierRequest) : CourierRun :=
  ({ r with delivered := [], log := [] }.perform request).settle

end CourierRun

end Interledger.Simulation
