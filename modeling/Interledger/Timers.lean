import Interledger.Bytes

/-! Armed timers, at most one an id, in the order of their deadlines; equal deadlines
stand in the order in which they were armed. -/

namespace Interledger

structure Timer where
  id : Bytes
  deadline : Int
  deriving DecidableEq

/-- The timers in the order in which they fall due. -/
structure Timers where
  list : List Timer
  deriving DecidableEq

namespace Timers

def empty : Timers := ⟨[]⟩

def size (ts : Timers) : Nat := ts.list.length

def isArmed (ts : Timers) (id : Bytes) : Bool := ts.list.any (·.id = id)

/-- Behind everything that falls due no later. -/
def place (t : Timer) : List Timer → List Timer
  | [] => [t]
  | u :: us => if t.deadline < u.deadline then t :: u :: us else u :: place t us

/-- Arms a timer, unless its id is armed already. -/
def arm? (ts : Timers) (t : Timer) : Option Timers :=
  if ts.isArmed t.id then none else some ⟨place t ts.list⟩

/-- Takes a timer out, when its id is armed. -/
def cancel? (ts : Timers) (id : Bytes) : Option Timers :=
  if ts.isArmed id then some ⟨ts.list.filter (·.id ≠ id)⟩ else none

def isDue (now : Int) (t : Timer) : Bool := t.deadline ≤ now

/-- The timers due at `now`, in order. -/
def due (ts : Timers) (now : Int) : List Timer := ts.list.takeWhile (isDue now)

def later (ts : Timers) (now : Int) : Timers := ⟨ts.list.dropWhile (isDue now)⟩

theorem due_append_later (ts : Timers) (now : Int) :
    ts.due now ++ (ts.later now).list = ts.list := List.takeWhile_append_dropWhile

end Timers

end Interledger
