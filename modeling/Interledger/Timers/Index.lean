import Interledger.Table
import Interledger.Timers

/-! Timers as a worker keeps them, in two indexes: by deadline, for what falls due next, and
by id, for the timer of a transfer. The index by id holds no timers but handles of entries in
the other, so whatever comes or goes has to come or go in both. A handle is given once. -/

namespace Interledger.Timers

structure Entry where
  handle : Nat
  timer : Timer
  deriving DecidableEq

structure Index where
  /-- By deadline; equal deadlines stand in the order in which they came. -/
  entries : List Entry
  /-- By id. -/
  handles : Table Bytes Nat
  /-- The handle of the next entry. -/
  next : Nat
  deriving DecidableEq

namespace Index

def empty : Index := ⟨[], .empty, 0⟩

/-- The timers in order, without what finds them. -/
def timers (ix : Index) : Timers := ⟨ix.entries.map (·.timer)⟩

def size (ix : Index) : Nat := ix.handles.entries.length

/-- Behind everything that falls due no later. -/
def place (e : Entry) : List Entry → List Entry
  | [] => [e]
  | f :: fs => if e.timer.deadline < f.timer.deadline then e :: f :: fs else f :: place e fs

/-- Enters a timer and gives its entry, unless its id has one. -/
def arm? (ix : Index) (t : Timer) : Option (Entry × Index) :=
  if ix.handles.contains t.id then none
  else
    let e : Entry := ⟨ix.next, t⟩
    some (e, ⟨place e ix.entries, ix.handles.insert t.id e.handle, ix.next + 1⟩)

/-- What taking out the timer of an id gives: no timer, its entry, or a handle that leads
nowhere. -/
inductive Taken where
  | absent
  | entry (e : Entry) (rest : Index)
  | dangling

def cancel (ix : Index) (id : Bytes) : Taken :=
  match ix.handles.get? id with
  | none => .absent
  | some handle =>
    match ix.entries.find? (·.handle = handle) with
    | none => .dangling
    | some e =>
      .entry e ⟨ix.entries.filter (·.handle ≠ handle), ix.handles.erase id, ix.next⟩

/-- Takes out all entries, in order. -/
def drain (ix : Index) : List Entry × Index := (ix.entries, ⟨[], .empty, ix.next⟩)

/-- Takes out the first entry for as long as it is due, each from both indexes. -/
def popFrom (now : Int) (next : Nat) : List Entry → Table Bytes Nat → List Entry × Index
  | [], handles => ([], ⟨[], handles, next⟩)
  | e :: es, handles =>
    if isDue now e.timer then
      let (due, ix) := popFrom now next es (handles.erase e.timer.id)
      (e :: due, ix)
    else ([], ⟨e :: es, handles, next⟩)

def pop (ix : Index) (now : Int) : List Entry × Index :=
  popFrom now ix.next ix.entries ix.handles

end Index

end Interledger.Timers
