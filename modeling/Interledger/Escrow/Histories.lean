import Interledger.Escrow.Journal
import Interledger.Table

/-! The journal with the history of each transfer apart, under its id. A history comes into being
with its first line and is dropped as a whole. Replaying walks over it by place: from the state of
the first line, which nothing is asked of, and no further than the first state that is not
allowed. -/

namespace Interledger

/-- What is written of a transfer at one time. -/
structure JournalLine where
  state : TransferState
  time : Int
  reason : Option Reason
  deriving DecidableEq

/-- The entry, without its id. -/
def JournalEntry.line (e : JournalEntry) : JournalLine := ⟨e.state, e.time, e.reason⟩

structure Histories where
  lines : Table Bytes (List JournalLine)
  deriving DecidableEq

namespace Histories

def empty : Histories := ⟨.empty⟩

def append (hs : Histories) (id : Bytes) (l : JournalLine) : Histories :=
  ⟨hs.lines.insert id ((hs.lines.get? id).getD [] ++ [l])⟩

def history (hs : Histories) (id : Bytes) : List JournalLine :=
  match hs.lines.get? id with
  | none => []
  | some ls => ls

/-- The state that is reached from `s` by the lines at place `i` and behind it. -/
def walk (ls : List JournalLine) (s : TransferState) (i : Nat) : TransferState :=
  if h : i < ls.length then
    let next := ls[i].state
    if s.allows next then walk ls next (i + 1) else s
  else s
termination_by ls.length - i

def replay (hs : Histories) (id : Bytes) : Option TransferState :=
  match hs.lines.get? id with
  | none | some [] => none
  | some (l :: ls) => some (walk (l :: ls) l.state 1)

def erase (hs : Histories) (id : Bytes) : Histories := ⟨hs.lines.erase id⟩

end Histories

end Interledger
