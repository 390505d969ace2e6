import Interledger.Packet.Builder

/-! A builder in place: three slots that calls write one after the other. What a call has written
stays written when it fails afterwards. What calls come to here, they come to on a `Builder`. -/

namespace Interledger.Packet

/-- What a packet is made of. -/
@[ext]
structure Parts where
  account : Address
  amount : Int
  data : Bytes
  deriving DecidableEq

structure Slots where
  account : Option Address
  amount : Option Int
  data : Option Bytes
  deriving DecidableEq

/-- Calls on the slots. -/
abbrev SlotM := ExceptT Error (StateM Slots)

/-- The answer of a call, and the slots that it leaves. -/
def SlotM.on {α : Type} (x : SlotM α) (s : Slots) : Except Error α × Slots := (x.run.run s).run

namespace Slots

def empty : Slots := ⟨none, none, none⟩

def setAccount (a : Address) : SlotM Unit := do
  if a.isPrefix then throw (.packetToScope a.text)
  modify fun s => { s with account := some a }

def setAmount (n : Int) : SlotM Unit := do
  if n < 0 then throw .packetAmountNegative
  modify fun s => { s with amount := some n }

def setAmountText (t : Bytes) : SlotM Unit := do
  let n ← liftExcept (Amount.parse t)
  setAmount n

def setData (data : Bytes) : SlotM Unit := modify fun s => { s with data := some data }

/-- A block that is not there has no bytes to take. -/
def setBlock (block : Option Bytes) (size : Nat) : SlotM Unit := do
  if block = none ∧ 0 < size then throw .packetNoData
  setData (if size = 0 then [] else (block.getD []).take size)

def build : SlotM Parts := do
  let s ← get
  let some account := s.account | throw (.packetLacks .account)
  let some amount := s.amount | throw (.packetLacks .amount)
  let some data := s.data | throw (.packetLacks .data)
  return ⟨account, amount, data⟩

end Slots

inductive Call where
  | account (a : Address)
  | amount (n : Int)
  | amountText (t : Bytes)
  | data (data : Bytes)
  | block (block : Option Bytes) (size : Nat)
  | build
  deriving DecidableEq

namespace Call

def code : Call → SlotM Unit
  | account a => Slots.setAccount a
  | amount n => Slots.setAmount n
  | amountText t => Slots.setAmountText t
  | data s => Slots.setData s
  | block s size => Slots.setBlock s size
  | build => discard Slots.build

/-- The same call on a builder, which it leaves as it was when it fails. -/
def setting (b : Builder) : Call → Except Error Builder
  | account a => b.setAccount a
  | amount n => b.setAmount n
  | amountText t => b.setAmountText t
  | data s => .ok (b.setData s)
  | block s size => b.setBlock s size
  | build => b.build.map fun _ => b

end Call

end Interledger.Packet
