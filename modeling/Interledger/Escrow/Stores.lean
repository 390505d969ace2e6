import Interledger.Escrow.Book

/-! The book in three stores: the records of the transfers that it holds, the last states of those
that it has dropped, and the journal. Pruning walks over the records and takes the stale ones out
from under the walk, which goes on with what has moved up. -/

namespace Interledger

/-- A transfer with its state, and with the time at which it came into it. -/
structure BookRecord where
  transfer : Transfer
  state : TransferState
  updatedAt : Int
  deriving DecidableEq

def BookRecord.isStale (cutoff : Int) (r : BookRecord) : Bool := r.state.isTerminal && r.updatedAt < cutoff

/-- Puts a value unless the key has one. -/
def Table.emplace {κ α : Type} [DecidableEq κ] (t : Table κ α) (k : κ) (a : α) : Table κ α :=
  if t.contains k then t else t.insert k a

structure Stores where
  records : Table Bytes BookRecord
  settled : Table Bytes TransferState
  journal : Journal
  deriving DecidableEq

namespace Stores

def empty : Stores := ⟨.empty, .empty, .empty⟩

def contains (st : Stores) (id : Bytes) : Bool := st.records.contains id || st.settled.contains id

def stateOf? (st : Stores) (id : Bytes) : Option TransferState :=
  match st.records.get? id with
  | some r => some r.state
  | none => st.settled.get? id

/-- The transfers held in escrow. -/
def prepared (st : Stores) : List Transfer :=
  (st.records.entries.filter (·.2.state = .prepared)).map (·.2.transfer)

def propose (st : Stores) (now : Int) (t : Transfer) : Except Error Stores :=
  if st.contains t.id then .error (.transferKnown t.id)
  else .ok ⟨st.records.insert t.id ⟨t, .proposed, now⟩, st.settled,
    st.journal.append ⟨t.id, .proposed, now, none⟩⟩

def transition? (st : Stores) (now : Int) (id : Bytes) (source target : TransferState)
    (reason : Option Reason) : Option Stores :=
  match st.records.get? id with
  | none => none
  | some r =>
    if r.state = source ∧ source.allows target then
      some ⟨st.records.insert id ⟨r.transfer, target, now⟩, st.settled,
        st.journal.append ⟨id, target, now, reason⟩⟩
    else none

/-- How far a walk over the records is: what it stands at, and how many it has taken out. -/
structure Walk where
  stores : Stores
  position : Nat
  taken : Nat

namespace Walk

/-- Steps over the record that the walk stands at, or takes it out: its state goes to the settled
ones and its history is erased. There is no turn behind the last record. -/
def turn (cutoff : Int) (w : Walk) : Option Walk :=
  match w.stores.records.entries[w.position]? with
  | none => none
  | some (id, r) =>
    if r.state.isTerminal = false ∨ cutoff ≤ r.updatedAt then
      some { w with position := w.position + 1 }
    else
      some ⟨⟨⟨w.stores.records.entries.eraseIdx w.position⟩, w.stores.settled.emplace id r.state,
        w.stores.journal.erase id⟩, w.position, w.taken + 1⟩

/-- The number of records from the walk on. -/
def left (w : Walk) : Nat := w.stores.records.entries.length - w.position

/-- Each turn is about one record. -/
theorem left_of_turn {cutoff : Int} {w w' : Walk} (h : w.turn cutoff = some w') :
    w.left = w'.left + 1 := by
  unfold turn at h
  split at h
  · cases h
  next id r hr =>
  obtain ⟨hlt, -⟩ := List.getElem?_eq_some_iff.1 hr
  split at h
  · cases h
    unfold left
    dsimp only
    omega
  · cases h
    unfold left
    dsimp only
    rw [List.length_eraseIdx_of_lt hlt]
    omega

/-- Turns for as long as there are records. -/
def finish (cutoff : Int) (w : Walk) : Walk :=
  match _h : w.turn cutoff with
  | none => w
  | some w' => finish cutoff w'
termination_by w.left
decreasing_by
  have := left_of_turn _h
  omega

end Walk

/-- Takes out what is stale, and counts it. -/
def prune (st : Stores) (cutoff : Int) : Nat × Stores :=
  let w := Walk.finish cutoff ⟨st, 0, 0⟩
  (w.taken, w.stores)

end Stores

end Interledger
