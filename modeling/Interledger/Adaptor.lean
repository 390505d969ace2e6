import Interledger.Event.Courier
import Interledger.Ledger

/-! An adaptor acts on a ledger for one account. It turns what the ledger tells it into
events for its handler, and arms a timer for each transfer it has sent. -/

namespace Interledger

open Log

structure Adaptor (η : Type) where
  account : Address
  connected : Bool
  subscriptions : List Address
  courier : Courier η
  alarm : Alarm

namespace Adaptor

variable {η : Type}

def name (a : Adaptor η) : Bytes := a.account.text

def make (account : Address) : Except Error (Adaptor η) :=
  if account.isPrefix then .error (.adaptorOfScope account.text)
  else .ok ⟨account, false, [], (Courier.make account.text).start, (Alarm.make account.text).start⟩

def raise (a : Adaptor η) (e : Event) : Adaptor η := { a with courier := a.courier.raise e }

def setHandler (a : Adaptor η) (handler : Option η) : Adaptor η :=
  { a with courier := a.courier.setHandler handler }

/-- Whether a transfer is the account's own, or within a subscription. -/
def concerns (a : Adaptor η) (t : Transfer) : Bool :=
  t.sender = a.account || t.receiver = a.account
    || a.subscriptions.any fun s => s.covers t.sender || s.covers t.receiver

/-- Raises an event about a transfer, if it concerns the account. -/
def report (a : Adaptor η) (t : Transfer) (event : Direction → Event) : Adaptor η :=
  if a.concerns t then a.raise (event (.of a.account t)) else a

/-- Takes out the timer of a transfer that has come to its end. -/
def release (a : Adaptor η) (id : Bytes) : List Line × Adaptor η :=
  match a.alarm.cancel id with
  | (true, alarm) =>
    ([⟨.debug, "expiry timer cancelled", [⟨"account", a.name⟩, ⟨"transfer_id", id⟩]⟩],
      { a with alarm })
  | (false, alarm) => ([], { a with alarm })

def accepts (a : Adaptor η) (m : Message) : Bool := m.recipient = a.account

/-- Takes what the ledger tells a session of this adaptor. -/
def hear (a : Adaptor η) : Notice → List Line × Adaptor η
  | .prepared t => ([], a.report t (.prepared t))
  | .executed t f =>
    let (lines, a) := a.release t.id
    (lines, a.report t (.executed t · f))
  | .rejected t reason =>
    let (lines, a) := a.release t.id
    (lines, a.report t (.rejected t · reason))
  | .message m => ([], if a.accepts m then a.raise (.message m) else a)

def subscribe (a : Adaptor η) (s : Address) : List Line × Adaptor η :=
  if s ∈ a.subscriptions then ([], a)
  else ([⟨.debug, "subscribed to account", [⟨"account", a.name⟩, ⟨"subscription", s.text⟩]⟩],
    { a with subscriptions := s.insert a.subscriptions })

end Adaptor

end Interledger
