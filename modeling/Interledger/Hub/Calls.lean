import Interledger.Hub.Workers

/-! The calls on an adaptor. Those that touch the ledger need a connection, and are
checked against the adaptor's own account before the ledger sees them. -/

namespace Interledger.Hub

open Log

variable {η : Type}

/-- Opens an adaptor for an account, and tells its number. -/
def openAdaptor (h : Hub η) (account : Address) : Outcome (Hub η) Nat :=
  match Adaptor.make account with
  | .ok a =>
    (.ok h.nextKey, { h with
      adaptors := h.adaptors.insert h.nextKey a, nextKey := h.nextKey + 1 })
  | .error e => (.error e, h)

/-- Attaches an adaptor to the ledger. When the ledger does not know its account, the
adaptor stays detached and its handler is told why. -/
def connect (h : Hub η) (k : Nat) : Hub η :=
  match h.adaptors.get? k with
  | none => h
  | some a =>
    if a.connected then h
    else
      match h.onLedger (·.attach a.account (.adaptor k)) with
      | (.error e, h) =>
        (h.modifyAdaptor k (·.raise (.disconnect e.message))).write
          [⟨.warning, "ledger connect failed", [⟨"account", a.name⟩, ⟨"error", e.message⟩]⟩]
      | (.ok (), h) =>
        (h.modifyAdaptor k fun a =>
          { a with connected := true }.raise (.connect h.ledger.info)).write
          [⟨.info, "ledger connected",
            [⟨"account", a.name⟩, ⟨"ledger", h.ledger.info.address.text⟩]⟩]

def disconnect (h : Hub η) (k : Nat) : Hub η :=
  match h.adaptors.get? k with
  | none => h
  | some a =>
    if a.connected then
      ({ h with ledger := h.ledger.detach (.adaptor k) }.modifyAdaptor k fun a =>
        { a with connected := false }.raise (.disconnect "disconnect requested")).write
        [⟨.info, "ledger disconnected", [⟨"account", a.name⟩]⟩]
    else h

/-- The adaptor of a number, for a call that needs a connection. -/
def connected (h : Hub η) (k : Nat) (call : AdaptorCall) : Except Error (Adaptor η) :=
  match h.adaptors.get? k with
  | none => .error .adaptorUnknown
  | some a => if a.connected then .ok a else .error (.notConnected call a.name)

def sendMessage (h : Hub η) (k : Nat) (m : Message) : Outcome (Hub η) Unit :=
  match h.connected k .sendMessage with
  | .error e => (.error e, h)
  | .ok a =>
    if m.sender ≠ a.account then (.error (.cannotSendAs a.name m.sender.text), h)
    else
      let (taken, h) := h.deliver m
      (.ok (), h.write [⟨.debug, "ledger message sent",
        [⟨"from", a.name⟩, ⟨"to", m.recipient.text⟩, .bool "delivered" taken]⟩])

/-- Arms the timer of a transfer that was left prepared. -/
def armExpiry (h : Hub η) (k : Nat) (t : Transfer) (state : TransferState) : Hub η :=
  match t.expiresAt with
  | none => h
  | some deadline =>
    if state = .prepared then
      h.updateAdaptor k fun a =>
        match a.alarm.schedule ⟨t.id, deadline⟩ with
        | (true, alarm) => ([], { a with alarm })
        | (false, alarm) =>
          ([⟨.warning, "expiry timer already armed",
            [⟨"account", a.name⟩, ⟨"transfer_id", t.id⟩]⟩], { a with alarm })
    else h

def sendTransfer (h : Hub η) (now : Int) (k : Nat) (t : Transfer) :
    Outcome (Hub η) Unit :=
  match h.connected k .sendTransfer with
  | .error e => (.error e, h)
  | .ok a =>
    if t.sender ≠ a.account then (.error (.cannotDebit a.name t.sender.text), h)
    else
      match h.onLedger (·.prepare now t) with
      | (.error e, h) => (.error e, h)
      | (.ok state, h) =>
        (.ok (), (h.armExpiry k t state).write [⟨.info, "transfer sent",
          [⟨"account", a.name⟩, ⟨"transfer_id", t.id⟩, .int "amount" t.amount,
            ⟨"state", state.name⟩]⟩])

def rejectTransfer (h : Hub η) (now : Int) (k : Nat) (t : Transfer) (reason : Reason) :
    Outcome (Hub η) Unit :=
  match h.connected k .rejectTransfer with
  | .error e => (.error e, h)
  | .ok a =>
    if t.receiver ≠ a.account then (.error (.cannotReject a.name t.id), h)
    else
      match h.onLedger (·.reject now t.id a.account reason) with
      | (.error e, h) => (.error e, h)
      | (.ok (), h) =>
        (.ok (), h.write [⟨.info, "transfer rejected",
          [⟨"account", a.name⟩, ⟨"transfer_id", t.id⟩, ⟨"reason", reason.text⟩]⟩])

def fulfillCondition (h : Hub η) (now : Int) (k : Nat) (id : Bytes) (f : Fulfillment) :
    Outcome (Hub η) Unit :=
  match h.connected k .fulfillCondition with
  | .error e => (.error e, h)
  | .ok a =>
    match h.onLedger (·.fulfill now id a.account f) with
    | (.error e, h) => (.error e, h)
    | (.ok (), h) =>
      (.ok (), h.write [⟨.info, "transfer fulfilled",
        [⟨"account", a.name⟩, ⟨"transfer_id", id⟩]⟩])

def subscribe (h : Hub η) (k : Nat) (s : Address) : Hub η := h.updateAdaptor k (·.subscribe s)

def haltTimers (h : Hub η) (k : Nat) : Hub η :=
  h.modifyAdaptor k fun a => { a with alarm := a.alarm.halt }

/-- Hands the timers of an adaptor over to the ledger. -/
def handOver (h : Hub η) (k : Nat) : Hub η :=
  match h.adaptors.get? k with
  | none => h
  | some a =>
    let (timers, alarm) := a.alarm.finish.drain
    timers.foldl adopt (h.modifyAdaptor k fun a => { a with alarm })

/-- Takes an adaptor out of service: it disconnects, its alarm calls back what it owes
and hands the rest over to the ledger, and its courier is left with what is queued. -/
def retire (h : Hub η) (now : Int) (k : Nat) : Hub η :=
  ((((h.disconnect k).haltTimers k).fireOwed now k).handOver k).modifyAdaptor k fun a =>
    { a with courier := a.courier.close }

def remove (h : Hub η) (k : Nat) : Hub η := { h with adaptors := h.adaptors.erase k }

end Interledger.Hub
