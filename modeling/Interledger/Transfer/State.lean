import Interledger.Bytes

/-! The states of a transfer.

A transfer is proposed, then prepared with its money in escrow, then executed,
rejected or expired; one that is never funded goes from proposed to rejected. The
last three states are terminal. A code that names no state behaves like prepared. -/

namespace Interledger

inductive TransferState where
  | proposed
  | prepared
  | executed
  | rejected
  | expired
  | other (code : Nat)
  deriving DecidableEq

namespace TransferState

def ofCode : Nat → TransferState
  | 0 => .proposed
  | 1 => .prepared
  | 2 => .executed
  | 3 => .rejected
  | 4 => .expired
  | code => .other code

def name : TransferState → Bytes
  | proposed => "proposed"
  | prepared => "prepared"
  | executed => "executed"
  | rejected => "rejected"
  | expired => "expired"
  | other _ => "unknown"

def isTerminal : TransferState → Bool
  | executed | rejected | expired => true
  | proposed | prepared | other _ => false

/-- Whether one state may follow another. -/
def allows : TransferState → TransferState → Bool
  | proposed, next => next = prepared || next = rejected
  | prepared, next | other _, next => next.isTerminal
  | executed, _ | rejected, _ | expired, _ => false

theorem allows_of_isTerminal {s : TransferState} (h : s.isTerminal) (t : TransferState) :
    s.allows t = false := by
  cases s <;> simp_all [isTerminal, allows]

end TransferState

end Interledger
