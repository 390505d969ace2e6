import Interledger.Log
import Interledger.Timers

/-! An alarm: timers and the worker that fires them. In one pass the worker takes out
all that is due; it calls these back one by one, in order, before its next pass. -/

namespace Interledger

structure Alarm where
  name : Bytes
  timers : Timers
  running : Bool
  /-- What the worker has taken out and not called back yet; `none` without a worker. -/
  batch : Option (List Timer)
  deriving DecidableEq

namespace Alarm

def make (name : Bytes) : Alarm := ⟨name, .empty, false, none⟩

/-- Sets the worker going, unless it is. -/
def start (a : Alarm) : Alarm :=
  if a.running then a else { a with running := true, batch := some (a.batch.getD []) }

/-- Asks the worker to end. -/
def halt (a : Alarm) : Alarm := { a with running := false }

/-- Ends a worker that was asked to and owes no callback. -/
def finish (a : Alarm) : Alarm :=
  if a.running = false ∧ a.batch = some [] then { a with batch := none } else a

def stop (a : Alarm) : Alarm := a.halt.finish

/-- Arms a timer and tells whether its id was free. -/
def schedule (a : Alarm) (t : Timer) : Bool × Alarm :=
  match a.timers.arm? t with
  | some ts => (true, { a with timers := ts })
  | none => (false, a)

/-- Takes a timer out and tells whether it was armed. -/
def cancel (a : Alarm) (id : Bytes) : Bool × Alarm :=
  match a.timers.cancel? id with
  | some ts => (true, { a with timers := ts })
  | none => (false, a)

def drain (a : Alarm) : List Timer × Alarm := (a.timers.list, { a with timers := .empty })

/-- One pass of an idle worker. -/
def pass (a : Alarm) (now : Int) : Alarm :=
  if a.running = true ∧ a.batch = some [] then
    { a with timers := a.timers.later now, batch := some (a.timers.due now) }
  else a

/-- The next timer to call back. -/
def next? (a : Alarm) : Option (Timer × Alarm) :=
  match a.batch with
  | some (t :: ts) => some (t, { a with batch := some ts })
  | some [] | none => none

/-- Whether a pass would take anything out. -/
def isDue (a : Alarm) (now : Int) : Bool :=
  a.running && a.batch = some [] && !(a.timers.due now).isEmpty

/-- What a failing callback logs. -/
def failLine (a : Alarm) (t : Timer) (failure : Bytes) : Log.Line :=
  ⟨.error, "transfer expiry failed",
    [⟨"adaptor", a.name⟩, ⟨"transfer_id", t.id⟩, ⟨"error", failure⟩]⟩

end Alarm

end Interledger
