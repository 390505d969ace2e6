import Interledger.Packet

/-! Building a packet field by field. A setter checks its own field and keeps what it
was given last; a field that is missing shows only when the packet is built. -/

namespace Interledger.Packet

structure Builder where
  account : Option { a : Address // a.isPrefix = false }
  amount : Option { n : Int // 0 ≤ n }
  data : Option Bytes
  deriving DecidableEq

namespace Builder

def empty : Builder := ⟨none, none, none⟩

def setAccount (b : Builder) (a : Address) : Except Error Builder :=
  if h : a.isPrefix = false then .ok { b with account := some ⟨a, h⟩ }
  else .error (.packetToScope a.text)

def setAmount (b : Builder) (n : Int) : Except Error Builder :=
  if h : 0 ≤ n then .ok { b with amount := some ⟨n, h⟩ } else .error .packetAmountNegative

def setAmountText (b : Builder) (t : Bytes) : Except Error Builder := do
  b.setAmount (← Amount.parse t)

def setData (b : Builder) (s : Bytes) : Builder := { b with data := some s }

/-- The first `size` bytes of a block; a block that is not there has none. -/
def setBlock (b : Builder) (block : Option Bytes) (size : Nat) : Except Error Builder :=
  match block with
  | some s => .ok (b.setData (s.take size))
  | none => if 0 < size then .error .packetNoData else .ok (b.setData [])

def build (b : Builder) : Except Error Packet :=
  match b.account, b.amount, b.data with
  | some a, some n, some s => .ok ⟨a, n, s, a.2, n.2⟩
  | none, _, _ => .error (.packetLacks .account)
  | some _, none, _ => .error (.packetLacks .amount)
  | some _, some _, none => .error (.packetLacks .data)

end Builder

/-- A packet of all three fields, checked in order. -/
def make (account : Address) (amount : Int) (data : Bytes) : Except Error Packet := do
  let b ← Builder.empty.setAccount account
  let b ← b.setAmount amount
  (b.setData data).build

end Interledger.Packet
