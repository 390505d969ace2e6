import Interledger.Ledger.Info
import Interledger.Transfer

/-! What an adaptor tells its handler about: its connection, the transfers that
concern its account, and the messages sent to it. -/

namespace Interledger

/-- Which side of a transfer an account is on. -/
inductive Direction where
  | incoming
  | outgoing
  | observed
  | other (code : Nat)
  deriving DecidableEq

namespace Direction

def ofCode : Nat → Direction
  | 0 => .incoming
  | 1 => .outgoing
  | 2 => .observed
  | code => .other code

def name : Direction → Bytes
  | incoming => "incoming"
  | outgoing => "outgoing"
  | observed => "observed"
  | other _ => "unknown"

/-- The side of a transfer that an account sees: receiving comes before sending. -/
def of (account : Address) (t : Transfer) : Direction :=
  if t.receiver = account then .incoming
  else if t.sender = account then .outgoing
  else .observed

end Direction

inductive Event where
  | connect (ledger : LedgerInfo)
  | disconnect (reason : Bytes)
  | prepared (transfer : Transfer) (direction : Direction)
  | executed (transfer : Transfer) (direction : Direction) (fulfillment : Option Fulfillment)
  | rejected (transfer : Transfer) (direction : Direction) (reason : Reason)
  | message (message : Message)
  deriving DecidableEq

namespace Event

def name : Event → Bytes
  | connect _ => "connect"
  | disconnect _ => "disconnect"
  | prepared .. => "transfer_prepared"
  | executed .. => "transfer_executed"
  | rejected .. => "transfer_rejected"
  | message _ => "message_received"

def transfer? : Event → Option Transfer
  | prepared t _ | executed t _ _ | rejected t _ _ => some t
  | connect _ | disconnect _ | message _ => none

def direction? : Event → Option Direction
  | prepared _ d | executed _ d _ | rejected _ d _ => some d
  | connect _ | disconnect _ | message _ => none

def fulfillment? : Event → Option Fulfillment
  | executed _ _ f => f
  | _ => none

/-- The id of the event's transfer, empty when it has none. -/
def transferId (e : Event) : Bytes :=
  match e.transfer? with
  | some t => t.id
  | none => []

end Event

end Interledger
