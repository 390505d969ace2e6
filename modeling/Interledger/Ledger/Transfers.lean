import Interledger.Ledger

/-! What happens to transfers on a ledger.

A proposed transfer is declined or funded; a funded one leaves escrow once, to the
receiver when it is executed and back to the sender when it is rejected or expires. -/

namespace Interledger.Ledger

/-- Why a party of a transfer cannot be one on this ledger. -/
def partyError? (l : Ledger) (party : Party) (a : Address) : Option Error :=
  if l.info.address.covers a = false then
    some (.partyElsewhere party a.text l.info.address.text)
  else if l.accounts.contains a = false then some (.partyNotFound party a.text)
  else none

/-- Takes a prepared transfer out of escrow and pays it to one account; `false` when the
transfer is not prepared. -/
def settle (l : Ledger) (now : Int) (t : Transfer) (target : TransferState)
    (reason : Option Reason) (payee : Address) (notice : Notice) : Outcome Ledger Bool :=
  match l.book.transition? now t.id .prepared target reason with
  | none => (.ok false, l)
  | some book =>
    let l := { l with
      book, adopted := (l.adopted.cancel t.id).2, escrow := l.escrow - t.amount }
    if l.accounts.contains payee then (.ok true, (l.credit payee t.amount).notify notice)
    else (.error (.accountGone payee.text), l)

/-- From prepared to executed: the receiver is paid. -/
def execute (l : Ledger) (now : Int) (t : Transfer) (f : Option Fulfillment) : Outcome Ledger Bool :=
  l.settle now t .executed none t.receiver (.executed t f)

/-- From prepared to rejected or expired: the sender is paid back. -/
def refund (l : Ledger) (now : Int) (t : Transfer) (target : TransferState) (reason : Reason) :
    Outcome Ledger Bool :=
  l.settle now t target (some reason) t.sender (.rejected t reason)

def shortfall (balance amount : Int) : Reason :=
  ⟨.insufficientFunds, "balance " ++ Decimal.text balance ++ " < " ++ Decimal.text amount⟩

/-- Rejects a proposed transfer that its sender cannot fund. -/
def decline (l : Ledger) (now : Int) (t : Transfer) (balance : Int) : Outcome Ledger TransferState :=
  let reason := shortfall balance t.amount
  match l.book.transition? now t.id .proposed .rejected (some reason) with
  | none => (.error (.leftProposed t.id), l)
  | some book => (.ok .rejected, { l with book }.notify (.rejected t reason))

/-- Puts a proposed transfer into escrow. One without a condition is executed at once. -/
def fund (l : Ledger) (now : Int) (t : Transfer) : Outcome Ledger TransferState :=
  match l.book.transition? now t.id .proposed .prepared none with
  | none => (.error (.leftProposed t.id), l)
  | some book =>
    let l := ({ l with book, escrow := l.escrow + t.amount }.credit t.sender (-t.amount)).notify
      (.prepared t)
    if t.condition.isSome then (.ok .prepared, l)
    else
      match l.execute now t none with
      | (.ok true, l) => (.ok .executed, l)
      | (.ok false, l) => (.error (.leftPrepared t.id), l)
      | (.error e, l) => (.error e, l)

/-- Accepts a transfer and tells the state it is left in. -/
def prepare (l : Ledger) (now : Int) (t : Transfer) : Outcome Ledger TransferState :=
  match l.partyError? .sender t.sender with
  | some e => (.error e, l)
  | none =>
    match l.partyError? .receiver t.receiver with
    | some e => (.error e, l)
    | none =>
      match l.book.propose now t with
      | .error e => (.error e, l)
      | .ok book =>
        let l := { l with book }
        match l.balance? t.sender with
        | none => (.error (.accountGone t.sender.text), l)
        | some balance =>
          if balance < t.amount then l.decline now t balance else l.fund now t

/-- The prepared transfer of an id, for its receiver and before its expiry. -/
def held (l : Ledger) (now : Int) (id : Bytes) (caller : Address) : Except Error Transfer :=
  match l.book.find? id with
  | none => .error (.transferUnknown id)
  | some t =>
    if t.receiver ≠ caller then .error (.notReceiver caller.text id)
    else if l.book.stateOf? id ≠ some .prepared then
      .error (.notPrepared id ((l.book.stateOf? id).getD .proposed))
    else if t.expiresAt.any (· ≤ now) then .error (.pastExpiry t.id)
    else .ok t

/-- Executes a transfer for a fulfillment of its condition. -/
def fulfill (l : Ledger) (now : Int) (id : Bytes) (caller : Address) (f : Fulfillment) :
    Outcome Ledger Unit :=
  match l.held now id caller with
  | .error e => (.error e, l)
  | .ok t =>
    match t.condition with
    | none => (.error (.conditionGone id), l)
    | some c =>
      if c.isFulfilledBy f = false then (.error (.wrongFulfillment id), l)
      else
        match l.execute now t (some f) with
        | (.ok true, l) => (.ok (), l)
        | (.ok false, l) => (.error (.noLongerPrepared id), l)
        | (.error e, l) => (.error e, l)

def reject (l : Ledger) (now : Int) (id : Bytes) (caller : Address) (reason : Reason) :
    Outcome Ledger Unit :=
  match l.held now id caller with
  | .error e => (.error e, l)
  | .ok t =>
    match l.refund now t .rejected reason with
    | (.ok true, l) => (.ok (), l)
    | (.ok false, l) => (.error (.noLongerPrepared id), l)
    | (.error e, l) => (.error e, l)

/-- Pays a transfer back at its deadline, if it is still prepared. -/
def expire (l : Ledger) (now : Int) (id : Bytes) : Outcome Ledger Bool :=
  match l.book.find? id with
  | none => (.ok false, l)
  | some t => l.refund now t .expired .atDeadline

def prune (l : Ledger) (cutoff : Int) : Nat × Ledger :=
  ((l.book.stale cutoff).length, { l with book := l.book.prune cutoff })

end Interledger.Ledger
