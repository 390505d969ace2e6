import Interledger.Error
import Interledger.Hex
import Interledger.Sha256

/-! Conditions and what fulfills them. A condition is a SHA-256 digest; a fulfillment
is a preimage of it, of 1 to 256 bytes. -/

namespace Interledger

structure Fulfillment where
  bytes : Bytes
  ne_nil : bytes ≠ []
  length_le : bytes.length ≤ 256
  deriving DecidableEq

structure Condition where
  digest : Bytes
  length_eq : digest.length = 32
  deriving DecidableEq

def Fulfillment.ofBytes (s : Bytes) : Except Error Fulfillment :=
  if h : s ≠ [] ∧ s.length ≤ 256 then .ok ⟨s, h.1, h.2⟩ else .error (.fulfillmentSize s.length)

namespace Condition

def ofFulfillment (f : Fulfillment) : Condition := ⟨Sha256.digest f.bytes, by simp⟩

def isFulfilledBy (c : Condition) (f : Fulfillment) : Bool := Sha256.digest f.bytes = c.digest

def hex (c : Condition) : Bytes := Hex.encode c.digest

/-- Reads sixty-four hexadecimal digits. -/
def ofHex (t : Bytes) : Except Error Condition :=
  if ht : t.length = 64 then
    match h : Hex.decode? t with
    | some s => .ok ⟨s, Hex.length_eq_of_decode? ht h⟩
    | none => .error (.conditionNotHex t)
  else .error .conditionLength

end Condition

end Interledger
