import Interledger.Escrow.Journal
import Interledger.Table
import Interledger.Transfer

/-! The book of the transfers that a ledger has accepted. An id is taken for ever: a
record holds its transfer until it is pruned, and then only its last state. State
changes are compare-and-set, and each is written to the journal. -/

namespace Interledger

inductive BookEntry where
  | live (transfer : Transfer) (state : TransferState) (updatedAt : Int)
  | settled (state : TransferState)
  deriving DecidableEq

namespace BookEntry

def state : BookEntry → TransferState
  | live _ s _ => s
  | settled s => s

def transfer? : BookEntry → Option Transfer
  | live t _ _ => some t
  | settled _ => none

/-- The entry's transfer, when it is held in escrow. -/
def prepared? : BookEntry → Option Transfer
  | live t .prepared _ => some t
  | _ => none

/-- Whether pruning at `cutoff` drops the entry's transfer. -/
def isStale (cutoff : Int) : BookEntry → Bool
  | live _ s updatedAt => s.isTerminal && updatedAt < cutoff
  | settled _ => false

end BookEntry

structure Book where
  entries : Table Bytes BookEntry
  journal : Journal
  deriving DecidableEq

namespace Book

def empty : Book := ⟨.empty, .empty⟩

def contains (b : Book) (id : Bytes) : Bool := b.entries.contains id

def find? (b : Book) (id : Bytes) : Option Transfer := (b.entries.get? id).bind (·.transfer?)

def stateOf? (b : Book) (id : Bytes) : Option TransferState := (b.entries.get? id).map (·.state)

/-- The transfers held in escrow. -/
def prepared (b : Book) : List Transfer := b.entries.entries.filterMap (·.2.prepared?)

def propose (b : Book) (now : Int) (t : Transfer) : Except Error Book :=
  if b.contains t.id then .error (.transferKnown t.id)
  else .ok ⟨b.entries.insert t.id (.live t .proposed now),
    b.journal.append ⟨t.id, .proposed, now, none⟩⟩

/-- Moves a transfer from one state to another; `none` when it is not in the first, or
when the first does not allow the second. -/
def transition? (b : Book) (now : Int) (id : Bytes) (source target : TransferState)
    (reason : Option Reason) : Option Book :=
  match b.entries.get? id with
  | some (.live t s _) =>
    if s = source ∧ source.allows target then
      some ⟨b.entries.insert id (.live t target now), b.journal.append ⟨id, target, now, reason⟩⟩
    else none
  | some (.settled _) | none => none

/-- The ids whose transfers are terminal since before `cutoff`. -/
def stale (b : Book) (cutoff : Int) : List Bytes :=
  (b.entries.entries.filter (·.2.isStale cutoff)).map (·.1)

/-- Drops the transfers and the histories that are stale, keeping their last states. -/
def prune (b : Book) (cutoff : Int) : Book :=
  ⟨⟨b.entries.entries.map fun e => if e.2.isStale cutoff then (e.1, .settled e.2.state) else e⟩,
    b.journal.eraseAll (b.stale cutoff)⟩

end Book

end Interledger
