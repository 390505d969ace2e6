import Interledger.Transfer.Reason
import Interledger.Transfer.State

/-! The journal: every state that a transfer came into, with the time and the reason, in
the order of writing. The history of a transfer is what was written about it. Replaying
takes its first state as it is and follows the rest for as long as each state allows the
next. -/

namespace Interledger

structure JournalEntry where
  id : Bytes
  state : TransferState
  time : Int
  reason : Option Reason
  deriving DecidableEq

structure Journal where
  entries : List JournalEntry
  deriving DecidableEq

namespace Journal

def empty : Journal := ⟨[]⟩

def history (j : Journal) (id : Bytes) : List JournalEntry := j.entries.filter (·.id = id)

def append (j : Journal) (e : JournalEntry) : Journal := ⟨j.entries ++ [e]⟩

def eraseAll (j : Journal) (ids : List Bytes) : Journal := ⟨j.entries.filter (·.id ∉ ids)⟩

def erase (j : Journal) (id : Bytes) : Journal := j.eraseAll [id]

/-- The state reached from `s` by the longest legal initial part of the entries. -/
def follow (s : TransferState) : List JournalEntry → TransferState
  | [] => s
  | e :: es => if s.allows e.state then follow e.state es else s

def replay (j : Journal) (id : Bytes) : Option TransferState :=
  match j.history id with
  | [] => none
  | e :: es => some (follow e.state es)

theorem history_append (j : Journal) (e : JournalEntry) (id : Bytes) :
    (j.append e).history id = if e.id = id then j.history id ++ [e] else j.history id := by
  simp only [append, history, List.filter_append]
  split <;> simp [*]

theorem history_eraseAll (j : Journal) (ids : List Bytes) (id : Bytes) :
    (j.eraseAll ids).history id = if id ∈ ids then [] else j.history id := by
  simp only [eraseAll, history, List.filter_filter]
  split
  · next h =>
    rw [List.filter_eq_nil_iff]
    intro e _ he
    simp only [Bool.and_eq_true, decide_eq_true_eq] at he
    exact he.2 (he.1 ▸ h)
  · next h =>
    apply List.filter_congr
    intro e _
    by_cases he : e.id = id <;> simp [he, h]

theorem history_erase (j : Journal) (id id' : Bytes) :
    (j.erase id).history id' = if id' = id then [] else j.history id' := by
  simp [erase, history_eraseAll]

end Journal

end Interledger
