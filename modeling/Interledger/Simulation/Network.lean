import Interledger.Config
import Interledger.Event.LogLine
import Interledger.Simulation.Script

/-! Networks: several hubs on one clock, with adaptors and ledgers known by name.

What happens on the hubs is told by the caller's own log and the workers' log, by what
handlers received, and by what listeners were told. -/

namespace Interledger.Simulation

open Log

/-- An adaptor of a network, with the hub it is on and its number there. -/
structure Member where
  name : Bytes
  hub : Nat
  key : Nat
  deriving DecidableEq

/-- An event that a handler received, and what its reaction asked, if it had one. -/
structure Received where
  handler : Bytes
  event : Event
  reaction : Option (List Reply)

/-- A reaction that waits for its turn, to the event received at a position. -/
structure Pending where
  member : Member
  position : Nat
  event : Event
  steps : List (ReactionStep Reactor)

/-- On whose behalf something is logged. -/
inductive Thread where
  | caller
  | worker

structure Network where
  now : Int
  hubs : Table Nat (Hub Reactor)
  /-- The hubs of the ledgers that have a name. -/
  ledgers : Table Bytes Nat
  /-- The adaptors in use, oldest first. -/
  members : List Member
  nextHub : Nat
  answers : Table Bytes Bool
  pending : List Pending
  received : List Received
  told : List (Bytes × Notice)
  log : List Line
  workerLog : List Line

namespace Network

def make (now : Int) : Network :=
  ⟨now, .empty, .empty, [], 0, .empty, [], [], [], [], []⟩

/-- Adds a ledger under a name, and the adaptors that it comes with under the same. -/
def addHub (n : Network) (name : Bytes) (h : Hub Reactor) : Network :=
  { n with
    hubs := n.hubs.insert n.nextHub { h with answers := n.answers }
    ledgers := n.ledgers.insert name n.nextHub
    members := n.members ++ h.adaptors.keys.map fun k => ⟨name, n.nextHub, k⟩
    nextHub := n.nextHub + 1 }

/-- A network of configured ledgers, each named by its position. -/
def ofConfig (now : Int) (cs : List LedgerConfig) : Except Error Network := do
  let hubs ← (LedgerConfig.buildAll cs).2
  return hubs.foldl (fun n h => n.addHub (Decimal.digits n.nextHub) h) (make now)

def member? (n : Network) (name : Bytes) : Option Member := n.members.find? (·.name = name)

def adaptor? (n : Network) (m : Member) : Option (Adaptor Reactor) :=
  (n.hubs.get? m.hub).bind fun h => h.adaptors.get? m.key

/-- Where an adaptor's courier is. -/
def worker (n : Network) (m : Member) : Courier.Worker Reactor :=
  match n.adaptor? m with
  | some a => a.courier.worker
  | none => .absent

def write (n : Network) (thread : Thread) (lines : List Line) : Network :=
  match thread with
  | .caller => { n with log := n.log ++ lines }
  | .worker => { n with workerLog := n.workerLog ++ lines }

/-- Puts a hub back and takes up what it has to tell. -/
def putHub (n : Network) (thread : Thread) (i : Nat) (h : Hub Reactor) : Network :=
  let n := { n with
    hubs := n.hubs.modify i fun _ => { h with told := [], log := [] }
    told := n.told ++ h.told }
  n.write thread h.log

/-- A change of one hub. -/
def onHub (n : Network) (thread : Thread) (i : Nat) (f : Hub Reactor → Hub Reactor) : Network :=
  match n.hubs.get? i with
  | some h => n.putHub thread i (f h)
  | none => n

/-- A call on one hub. -/
def callHub {α : Type} (n : Network) (thread : Thread) (i : Nat)
    (f : Hub Reactor → Outcome (Hub Reactor) α) : Except Error α × Network :=
  match n.hubs.get? i with
  | some h => ((f h).1, n.putHub thread i (f h).2)
  | none => (.error .noLedger, n)

/-! ### Workers -/

/-- Fires all timers that are due: those of the adaptors, oldest first, and then those
that the ledgers have adopted. -/
def fireTimers (n : Network) : Network :=
  let n := n.members.foldl (fun n m => n.onHub .worker m.hub (·.runTimers n.now m.key)) n
  n.hubs.keys.foldl (fun n i => n.onHub .worker i (·.runAdopted n.now)) n

/-- Hands an event to a handler. A handler that reacts keeps its courier busy until its
turn has come; any other is done with the event. -/
def handle (n : Network) (m : Member) (reacts : Bool) (e : Event) (r : Reactor) : Network :=
  let n : Network := { n with received := n.received ++ [⟨r.name, e, none⟩] }
  let n := if r.logs then n.write .worker [e.logLine] else n
  match if reacts then Rule.choose e r.rules else none with
  | none => n.onHub .worker m.hub (·.finishEvent m.key none)
  | some (steps, rules) =>
    let n := n.onHub .worker m.hub (·.modifyAdaptor m.key (·.setHandler (some (r.withRules rules))))
    { n with pending := n.pending ++ [⟨m, n.received.length - 1, e, steps⟩] }

/-- Moves an adaptor's courier by one event, if it can. -/
def carryOne (n : Network) (m : Member) (reacts : Bool) : Network :=
  match n.worker m with
  | .idle =>
    let n := n.onHub .worker m.hub fun h => (h.takeEvent m.key).deliverEvent m.key
    match n.worker m with
    | .delivering e r => n.handle m reacts e r
    | _ => n
  | _ => n

/-- Moves an adaptor's courier through all that is queued. -/
def carry (n : Network) (m : Member) (reacts : Bool) : Network :=
  match n.adaptor? m with
  | some a => a.courier.queue.events.foldl (fun n _ => n.carryOne m reacts) n
  | none => n

def carryAll (n : Network) : Network := n.members.foldl (fun n m => n.carry m true) n

end Network

end Interledger.Simulation
