import Interledger.Packet.Builder

/-! A packet as a record of three byte strings: the address and the amount as text,
the data as it is. -/

namespace Interledger.Packet

structure Record where
  account : Bytes
  amount : Bytes
  data : Bytes
  deriving DecidableEq

def Record.empty : Record := ⟨[], [], []⟩

def toRecord (p : Packet) : Record := ⟨p.account.text, Decimal.text p.amount, p.data⟩

def ofRecord (m : Record) : Except Error Packet := do
  let b ← Builder.empty.setAccount (← Address.parse m.account)
  let b ← b.setAmountText m.amount
  (b.setData m.data).build

end Interledger.Packet
