import Interledger.Bytes

/-! Why a transfer was rejected: a code and an optional message. -/

namespace Interledger

inductive ReasonCode where
  | expired
  | insufficientFunds
  | invalidFulfillment
  | receiverUnreachable
  | cancelled
  | other (code : Nat)
  deriving DecidableEq

namespace ReasonCode

def ofCode : Nat → ReasonCode
  | 0 => .expired
  | 1 => .insufficientFunds
  | 2 => .invalidFulfillment
  | 3 => .receiverUnreachable
  | 4 => .cancelled
  | code => .other code

def name : ReasonCode → Bytes
  | expired => "expired"
  | insufficientFunds => "insufficient-funds"
  | invalidFulfillment => "invalid-fulfillment"
  | receiverUnreachable => "receiver-unreachable"
  | cancelled => "cancelled"
  | other _ => "unknown"

end ReasonCode

structure Reason where
  code : ReasonCode
  message : Bytes
  deriving DecidableEq

namespace Reason

def text (r : Reason) : Bytes :=
  if r.message = [] then r.code.name else r.code.name ++ ": " ++ r.message

/-- The reason of every refund at a deadline. -/
def atDeadline : Reason := ⟨.expired, "transfer expired"⟩

end Reason

end Interledger
