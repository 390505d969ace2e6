import Interledger.Event
import Interledger.Packet.Builder

/-! Values as they are written, not yet checked. Reading a form checks its parts in the
order in which they stand, and the first one that fails is the error. In a reaction to
an event a part may be taken from that event. -/

namespace Interledger.Simulation

/-- An amount; behind a minus sign any number of digits makes a negative one. -/
def readAmount (t : Bytes) : Except Error Int :=
  match t with
  | 45 :: _ :: _ => .ok (Decimal.signed t)
  | _ => Amount.parse t

/-- A part that is given, or the event's. -/
inductive Part (α : Type) where
  | given (a : α)
  | ofEvent

structure PacketForm where
  account : Bytes
  amount : Bytes
  data : Bytes

def PacketForm.read (f : PacketForm) : Except Error Packet := do
  let b ← Packet.Builder.empty.setAccount (← Address.parse f.account)
  let b ← b.setAmount (← readAmount f.amount)
  (b.setData f.data).build

inductive ConditionForm where
  | none
  | hex (text : Bytes)
  | preimage (bytes : Bytes)
  | ofEvent

structure TransferForm where
  id : Bytes
  sender : Bytes
  receiver : Bytes
  amount : Bytes
  packet : Part PacketForm
  condition : ConditionForm
  expiresMs : Option Nat

def boundTransfer (e : Option Event) : Except Error Transfer :=
  match e.bind (·.transfer?) with
  | some t => .ok t
  | none => .error .nothingBound

def Part.id (e : Option Event) : Part Bytes → Bytes
  | given id => id
  | ofEvent => (e.map (·.transferId)).getD []

/-- A fulfillment; an event that has none gives an empty one, which is refused. -/
def Part.fulfillment (e : Option Event) : Part Bytes → Except Error Fulfillment
  | given s => Fulfillment.ofBytes s
  | ofEvent => Fulfillment.ofBytes (((e.bind (·.fulfillment?)).map (·.bytes)).getD [])

def Part.packet (e : Option Event) : Part PacketForm → Except Error Packet
  | given f => f.read
  | ofEvent => (boundTransfer e).map (·.packet)

def ConditionForm.read (e : Option Event) : ConditionForm → Except Error (Option Condition)
  | none => .ok Option.none
  | hex t => (Condition.ofHex t).map some
  | preimage s => (Fulfillment.ofBytes s).map (some <| Condition.ofFulfillment ·)
  | ofEvent => (boundTransfer e).map (·.condition)

def TransferForm.read (e : Option Event) (f : TransferForm) : Except Error Transfer := do
  let sender ← Address.parse f.sender
  let receiver ← Address.parse f.receiver
  let amount ← readAmount f.amount
  let packet ← f.packet.packet e
  let condition ← f.condition.read e
  Transfer.make f.id sender receiver amount packet condition
    (f.expiresMs.map Instant.ofMillis)

def Part.transfer (e : Option Event) : Part TransferForm → Except Error Transfer
  | given f => f.read e
  | ofEvent => boundTransfer e

structure MessageForm where
  sender : Bytes
  recipient : Bytes
  data : Bytes

def MessageForm.read (f : MessageForm) : Except Error Message := do
  let sender ← Address.parse f.sender
  let recipient ← Address.parse f.recipient
  return ⟨sender, recipient, f.data⟩

structure InfoForm where
  address : Bytes
  currencyCode : Bytes
  currencyScale : Int
  precision : Int

def InfoForm.read (f : InfoForm) : Except Error LedgerInfo := do
  let address ← Address.parse f.address
  return ⟨address, f.currencyCode, f.currencyScale, f.precision⟩

inductive EventForm where
  | connect (ledger : InfoForm)
  | disconnect (reason : Bytes)
  | prepared (transfer : TransferForm) (direction : Direction)
  | executed (transfer : TransferForm) (direction : Direction) (fulfillment : Option Bytes)
  | rejected (transfer : TransferForm) (direction : Direction) (reason : Reason)
  | message (message : MessageForm)

def EventForm.read : EventForm → Except Error Event
  | connect l => l.read.map .connect
  | disconnect reason => .ok (.disconnect reason)
  | prepared t d => do return .prepared (← t.read none) d
  | executed t d f => do
    let t ← t.read none
    match f with
    | some s => return .executed t d (some (← Fulfillment.ofBytes s))
    | none => return .executed t d none
  | rejected t d reason => do return .rejected (← t.read none) d reason
  | message m => m.read.map .message

end Interledger.Simulation
