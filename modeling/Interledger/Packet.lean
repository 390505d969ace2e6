import Interledger.Address
import Interledger.Amount

/-! The payment packet: the end-to-end part of a payment, which every ledger on the
way carries unchanged. -/

namespace Interledger

structure Packet where
  account : Address
  amount : Int
  data : Bytes
  account_leaf : account.isPrefix = false
  amount_nonneg : 0 ≤ amount
  deriving DecidableEq

def Packet.text (p : Packet) : Bytes :=
  "PaymentPacket\x7bdestination_account=" ++ p.account.text ++ ", destination_amount="
    ++ Decimal.text p.amount ++ ", data=" ++ Decimal.digits p.data.length ++ " bytes\x7d"

end Interledger
