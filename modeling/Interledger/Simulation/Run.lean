import Interledger.Simulation.Network

/-! Running a network step by step. After every step, and after every reaction, the
timers that are due fire and the events are brought; reactions then take turns, the
oldest adaptor first. -/

namespace Interledger.Simulation

open Log

inductive Step where
  | openLedger (name : Bytes) (info : InfoForm)
  | openAdaptor (name : Bytes) (ledger : Option Bytes) (account : Bytes)
  | advance (ms : Nat)
  | askLedger (name : Bytes) (request : LedgerRequest)
  | askAdaptor (name : Bytes) (request : AdaptorRequest Reactor)

/-- What a step gave back, and what was received, told and logged until all was quiet. -/
structure Report where
  reply : Reply
  received : List Received
  told : List (Bytes × Notice)
  log : List Bytes
  workerLog : List Bytes

namespace Network

/-! ### Requests -/

/-- A call that gives nothing back. -/
def command (n : Network) (thread : Thread) (i : Nat)
    (f : Hub Reactor → Outcome (Hub Reactor) Unit) : Reply × Network :=
  let (r, n) := n.callHub thread i f
  (r.map fun () => .nothing, n)

/-- A question about one hub. -/
def query (n : Network) (i : Nat) (f : Hub Reactor → Reply) : Reply × Network :=
  ((n.hubs.get? i).elim (.error .noLedger) f, n)

/-- Goes on with a value that was read, or ends with what is wrong with it. -/
def withForm {α : Type} (n : Network) (form : Except Error α) (f : α → Reply × Network) :
    Reply × Network :=
  match form with
  | .ok a => f a
  | .error e => (.error e, n)

/-- Sets what a listener answers, on every ledger. -/
def setAnswer (n : Network) (name : Bytes) (answer : Bool) : Network :=
  { n with
    answers := n.answers.insert name answer
    hubs := n.hubs.map fun h => { h with answers := h.answers.insert name answer } }

def askLedger (n : Network) (i : Nat) : LedgerRequest → Reply × Network
  | .addAccount account name balance =>
    n.withForm (do return (← Address.parse account, ← readAmount balance)) fun (a, balance) =>
      n.command .caller i (·.onLedger (·.addAccount a name balance))
  | .addConnector account =>
    n.withForm (Address.parse account) fun a =>
      n.command .caller i (·.onLedger (·.addConnector a))
  | .hasAccount account =>
    n.withForm (Address.parse account) fun a =>
      n.query i fun h => .ok (.truth (h.ledger.hasAccount a))
  | .accountInfo account =>
    n.withForm (Address.parse account) fun a =>
      n.query i fun h => (h.ledger.accountInfo a).map .account
  | .connectors => n.query i fun h => .ok (.addresses h.ledger.connectors)
  | .info => n.query i fun h => .ok (.info h.ledger.info)
  | .prepare transfer =>
    n.withForm (transfer.read none) fun t =>
      let (r, n) := n.callHub .caller i (·.onLedger (·.prepare n.now t))
      (r.map fun s => .state (some s), n)
  | .fulfill id account preimage =>
    n.withForm (do return (← Address.parse account, ← Fulfillment.ofBytes preimage)) fun (a, f) =>
      n.command .caller i (·.onLedger (·.fulfill n.now id a f))
  | .reject id account reason =>
    n.withForm (Address.parse account) fun a =>
      n.command .caller i (·.onLedger (·.reject n.now id a reason))
  | .expire id =>
    let (r, n) := n.callHub .caller i (·.onLedger (·.expire n.now id))
    (r.map .truth, n)
  | .adopt id deadlineMs =>
    (.ok .nothing, n.onHub .caller i (·.adopt ⟨id, Instant.ofMillis deadlineMs⟩))
  | .prune cutoffMs =>
    let (r, n) := n.callHub .caller i
      (·.onLedger fun l => let (k, l) := l.prune (Instant.ofMillis cutoffMs); (.ok k, l))
    (r.map .count, n)
  | .stateOf id => n.query i fun h => .ok (.state (h.ledger.book.stateOf? id))
  | .deliver message =>
    n.withForm message.read fun m =>
      let (r, n) := n.callHub .caller i fun h => let (taken, h) := h.deliver m; (.ok taken, h)
      (r.map .truth, n)
  | .find id => n.query i fun h => .ok (.transfer (h.ledger.book.find? id))
  | .contains id => n.query i fun h => .ok (.truth (h.ledger.book.contains id))
  | .prepared =>
    n.query i fun h => .ok (.ids (Bytes.sort (h.ledger.book.prepared.map (·.id))))
  | .history id => n.query i fun h => .ok (.history (h.ledger.book.journal.history id))
  | .replay id => n.query i fun h => .ok (.state (h.ledger.book.journal.replay id))
  | .attach listener account answer =>
    n.withForm (Address.parse account) fun a =>
      (n.setAnswer listener answer).command .caller i (·.attach a listener)
  | .detach listener => (.ok .nothing, n.onHub .caller i (·.detach listener))

/-- Drops the reaction that an adaptor waits with, if there is one. Its event is delivered
all the same. -/
def giveUp (n : Network) (m : Member) : Network :=
  if n.pending.any (·.member = m) then
    { n with pending := n.pending.filter (·.member ≠ m) }.onHub .worker m.hub
      (·.finishEvent m.key none)
  else n

/-- Takes an adaptor out of service. What is still queued goes to its handler, without
reactions. -/
def destroy (n : Network) (thread : Thread) (m : Member) : Network :=
  let n := n.onHub thread m.hub (·.retire n.now m.key)
  let n := ((n.giveUp m).carry m false).onHub .worker m.hub (·.remove m.key)
  { n with members := n.members.filter (· ≠ m) }

/-- Asks an adaptor, for the caller or in reaction to an event. -/
def askAdaptor (n : Network) (thread : Thread) (e : Option Event) (m : Member) :
    AdaptorRequest Reactor → Reply × Network
  | .connect => (.ok .nothing, n.onHub thread m.hub (·.connect m.key))
  | .disconnect => (.ok .nothing, n.onHub thread m.hub (·.disconnect m.key))
  | .isConnected => (.ok (.truth ((n.adaptor? m).any (·.connected))), n)
  | .destroy => (.ok .nothing, n.destroy thread m)
  | .setHandler handler =>
    (.ok .nothing, n.onHub thread m.hub (·.modifyAdaptor m.key (·.setHandler handler)))
  | .sendMessage message =>
    n.withForm message.read fun msg => n.command thread m.hub (·.sendMessage m.key msg)
  | .ledgerInfo => n.query m.hub fun h => .ok (.info h.ledger.info)
  | .sendTransfer transfer =>
    n.withForm (transfer.transfer e) fun t =>
      n.command thread m.hub (·.sendTransfer n.now m.key t)
  | .rejectTransfer transfer reason =>
    n.withForm (transfer.transfer e) fun t =>
      n.command thread m.hub (·.rejectTransfer n.now m.key t reason)
  | .accountInfo account =>
    n.withForm (Address.parse account) fun a =>
      n.query m.hub fun h => (h.ledger.accountInfo a).map .account
  | .subscribe account =>
    n.withForm (Address.parse account) fun a =>
      (.ok .nothing, n.onHub thread m.hub (·.subscribe m.key a))
  | .connectors => n.query m.hub fun h => .ok (.addresses h.ledger.connectors)
  | .fulfill id preimage =>
    n.withForm (preimage.fulfillment e) fun f =>
      n.command thread m.hub (·.fulfillCondition n.now m.key (id.id e) f)

/-! ### Reactions -/

/-- The reaction whose turn it is. -/
def nextPending? (n : Network) : Option Pending :=
  n.members.findSome? fun m => n.pending.find? (·.member = m)

/-- One step of a reaction; a name that nobody has is refused. -/
def reactOnce (n : Network) (p : Pending) : ReactionStep Reactor → Reply × Network
  | .fail text => (.error (.raised text), n)
  | .ask adaptor request =>
    let target : Option Member :=
      match adaptor with
      | some name => n.member? name
      | none => some p.member
    match target with
    | some m => n.askAdaptor .worker (some p.event) m request
    | none => (.error .adaptorUnknown, n)

/-- Runs the steps of a reaction up to the first that fails. What a step armed too late
fires before the next one. -/
def runSteps (n : Network) (p : Pending) : List (ReactionStep Reactor) → List Reply × Network
  | [] => ([], n)
  | s :: ss =>
    let (r, n) := n.reactOnce p s
    let n := n.fireTimers
    match r with
    | .error _ => ([r], n)
    | .ok _ =>
      let (rs, n) := n.runSteps p ss
      (r :: rs, n)

/-- What the last reply fails with. -/
def failure? (replies : List Reply) : Option Bytes :=
  match replies.getLast? with
  | some (.error e) => some e.message
  | _ => none

/-- Runs a reaction and ends the delivery that it belongs to. -/
def react (n : Network) (p : Pending) : Network :=
  let n := { n with pending := n.pending.filter (·.member ≠ p.member) }
  let (replies, n) := n.runSteps p p.steps
  let n := { n with
    received := n.received.modify p.position fun r => { r with reaction := some replies } }
  n.onHub .worker p.member.hub (·.finishEvent p.member.key (failure? replies))

/-- Fires, brings and reacts until all is quiet, for at most `turns` reactions. -/
def settle (n : Network) : (turns : Nat) → Network
  | 0 => n
  | turns + 1 =>
    let n := n.fireTimers.carryAll
    match n.nextPending? with
    | some p => (n.react p).settle turns
    | none => n

/-! ### Steps -/

/-- How many reactions one step may set off. -/
def maxReactions : Nat := 100000

def perform (n : Network) : Step → Reply × Network
  | .openLedger name info =>
    n.withForm (info.read >>= Ledger.make) fun l =>
      (.ok (.info l.info), n.addHub name (Hub.make l))
  | .openAdaptor name ledger account =>
    n.withForm (Address.parse account) fun a =>
      match ledger.bind n.ledgers.get? with
      | none => (.error .noLedger, n)
      | some i =>
        let (r, n) := n.callHub .caller i (·.openAdaptor a)
        match r with
        | .error e => (.error e, n)
        | .ok k => (.ok (.address a), { n with members := n.members ++ [⟨name, i, k⟩] })
  | .advance ms => (.ok .nothing, { n with now := n.now + Instant.ofMillis ms })
  | .askLedger name request =>
    match n.ledgers.get? name with
    | some i => n.askLedger i request
    | none => (.error .noLedger, n)
  | .askAdaptor name request =>
    match n.member? name with
    | some m => n.askAdaptor .caller none m request
    | none => (.error .adaptorUnknown, n)

/-- Performs a step and waits until all is quiet. -/
def step (n : Network) (s : Step) : Report × Network :=
  let (reply, n) := n.perform s
  let n := n.settle maxReactions
  (⟨reply, n.received, n.told, n.log.map (·.text), Bytes.sort (n.workerLog.map (·.text))⟩,
    { n with received := [], told := [], log := [], workerLog := [] })

end Network

end Interledger.Simulation
