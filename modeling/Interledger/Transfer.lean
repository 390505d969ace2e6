import Interledger.Condition
import Interledger.Instant
import Interledger.Packet
import Interledger.Transfer.Reason

/-! A transfer on one ledger, one leg of a payment. A transfer without a condition
executes as soon as it is prepared; one without an expiry never times out. -/

namespace Interledger

@[ext]
structure Transfer where
  id : Bytes
  sender : Address
  receiver : Address
  amount : Int
  packet : Packet
  condition : Option Condition
  expiresAt : Option Int
  id_ne_nil : id ≠ []
  sender_leaf : sender.isPrefix = false
  receiver_leaf : receiver.isPrefix = false
  sender_ne_receiver : sender ≠ receiver
  amount_nonneg : 0 ≤ amount

namespace Transfer

/-- Transfers are equal when their data are: the rest of the fields are facts about them. -/
instance : DecidableEq Transfer := fun t u =>
  decidable_of_iff (t.id = u.id ∧ t.sender = u.sender ∧ t.receiver = u.receiver
    ∧ t.amount = u.amount ∧ t.packet = u.packet ∧ t.condition = u.condition
    ∧ t.expiresAt = u.expiresAt) Transfer.ext_iff.symm

def make (id : Bytes) (sender receiver : Address) (amount : Int) (packet : Packet)
    (condition : Option Condition) (expiresAt : Option Int) : Except Error Transfer :=
  if h₁ : id = [] then .error .transferNoId
  else if h₂ : sender.isPrefix then .error (.transferOfScope .sender sender.text)
  else if h₃ : receiver.isPrefix then .error (.transferOfScope .receiver receiver.text)
  else if h₄ : sender = receiver then .error (.transferToSelf sender.text)
  else if h₅ : amount < 0 then .error .transferNegative
  else .ok {
    id, sender, receiver, amount, packet, condition, expiresAt
    id_ne_nil := h₁
    sender_leaf := by simpa using h₂
    receiver_leaf := by simpa using h₃
    sender_ne_receiver := h₄
    amount_nonneg := by omega }

def text (t : Transfer) : Bytes :=
  let condition : Bytes :=
    match t.condition with
    | some c => ", condition=" ++ c.hex
    | none => []
  let expiry : Bytes :=
    match t.expiresAt with
    | some e => ", expires_at_ms=" ++ Decimal.digits (Instant.toMillis e)
    | none => []
  "Transfer\x7bid=" ++ t.id ++ ", sender=" ++ t.sender.text ++ ", receiver=" ++ t.receiver.text
    ++ ", amount=" ++ Decimal.text t.amount ++ condition ++ expiry ++ ", packet=" ++ t.packet.text ++ "\x7d"

end Transfer

end Interledger
