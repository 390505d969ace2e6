import Interledger.Hub
import Interledger.Ledger.Adoption

/-! The steps of the workers of a hub: alarms take timers out and call them back, and
couriers take events, deliver them and finish. -/

namespace Interledger.Hub

open Log

variable {η : Type}

def passTimers (h : Hub η) (now : Int) (k : Nat) : Hub η :=
  h.modifyAdaptor k fun a => { a with alarm := a.alarm.pass now }

/-- Calls back the next timer that an adaptor's alarm has taken out. -/
def fireTimer (h : Hub η) (now : Int) (k : Nat) : Hub η :=
  match (h.adaptors.get? k).bind fun a => a.alarm.next?.map fun r => (a, r) with
  | none => h
  | some (a, t, alarm) =>
    let fields : List Field := [⟨"account", a.name⟩, ⟨"transfer_id", t.id⟩]
    match (h.modifyAdaptor k fun a => { a with alarm }).onLedger (·.expire now t.id) with
    | (.ok true, h) => h.write [⟨.info, "transfer expired", fields⟩]
    | (.ok false, h) => h.write [⟨.debug, "expiry skipped, transfer already final", fields⟩]
    | (.error e, h) => h.write [alarm.failLine t e.message]

/-- The timers that an adaptor's alarm has taken out and not called back. -/
def owed (h : Hub η) (k : Nat) : List Timer :=
  ((h.adaptors.get? k).bind (·.alarm.batch)).getD []

/-- Calls back all that an adaptor's alarm owes. -/
def fireOwed (h : Hub η) (now : Int) (k : Nat) : Hub η :=
  (h.owed k).foldl (fun h _ => h.fireTimer now k) h

/-- A whole pass of an adaptor's alarm. -/
def runTimers (h : Hub η) (now : Int) (k : Nat) : Hub η := (h.passTimers now k).fireOwed now k

def adopt (h : Hub η) (t : Timer) : Hub η := { h with ledger := h.ledger.adopt t }.publish

def passAdopted (h : Hub η) (now : Int) : Hub η :=
  { h with ledger := h.ledger.passAdopted now }

def fireAdopted (h : Hub η) (now : Int) : Hub η :=
  { h with ledger := h.ledger.fireAdopted now }.publish

/-- A whole pass of the ledger's alarm. -/
def runAdopted (h : Hub η) (now : Int) : Hub η :=
  let h := h.passAdopted now
  (h.ledger.adopted.batch.getD []).foldl (fun h _ => h.fireAdopted now) h

def takeEvent (h : Hub η) (k : Nat) : Hub η :=
  h.modifyAdaptor k fun a => { a with courier := a.courier.take }

def deliverEvent (h : Hub η) (k : Nat) : Hub η :=
  h.updateAdaptor k fun a => (a.courier.deliver.1, { a with courier := a.courier.deliver.2 })

def finishEvent (h : Hub η) (k : Nat) (failure : Option Bytes) : Hub η :=
  h.updateAdaptor k fun a =>
    ((a.courier.finish failure).1, { a with courier := (a.courier.finish failure).2 })

end Interledger.Hub
