import Interledger.Error
import Interledger.Instant
import Interledger.Table
import Interledger.Timers.Alarm

/-! An alarm on its own, with callbacks that follow a script: the n-th callback of an id
does the n-th thing written for it. -/

namespace Interledger.Simulation

open Log

inductive TimerAction where
  | schedule (id : Bytes) (deadlineMs : Nat)
  | cancel (id : Bytes)
  | fail (text : Bytes)

/-- A callback that was made, and what scheduling or cancelling in it gave. -/
structure Fired where
  id : Bytes
  scheduled : Option Bool
  cancelled : Option Bool

structure AlarmRun where
  now : Int
  alarm : Alarm
  /-- What the next callbacks of each id do. -/
  scripts : Table Bytes (List TimerAction)
  fired : List Fired
  log : List Line

inductive AlarmRequest where
  | start
  | stop
  | schedule (id : Bytes) (deadlineMs : Nat)
  | cancel (id : Bytes)
  | drain
  | pending
  | advance (ms : Nat)

inductive AlarmAnswer where
  | nothing
  | truth (b : Bool)
  | timers (ts : List Timer)

namespace AlarmRun

def make (name : Bytes) (now : Int) (scripts : Table Bytes (List TimerAction)) : AlarmRun :=
  ⟨now, .make name, scripts, [], []⟩

/-- Calls a timer back. -/
def callBack (r : AlarmRun) (t : Timer) : AlarmRun :=
  match r.scripts.get? t.id with
  | none | some [] => { r with fired := r.fired ++ [⟨t.id, none, none⟩] }
  | some (action :: rest) =>
    let r := { r with scripts := r.scripts.insert t.id rest }
    match action with
    | .schedule id deadlineMs =>
      let (done, alarm) := r.alarm.schedule ⟨id, Instant.ofMillis deadlineMs⟩
      { r with alarm, fired := r.fired ++ [⟨t.id, some done, none⟩] }
    | .cancel id =>
      let (done, alarm) := r.alarm.cancel id
      { r with alarm, fired := r.fired ++ [⟨t.id, none, some done⟩] }
    | .fail text =>
      { r with
        fired := r.fired ++ [⟨t.id, none, none⟩]
        log := r.log ++ [r.alarm.failLine t (Error.raised text).message] }

/-- Calls back the next timer that was taken out. -/
def fireOne (r : AlarmRun) : AlarmRun :=
  match r.alarm.next? with
  | some (t, alarm) => { r with alarm }.callBack t
  | none => r

/-- One pass and its callbacks. -/
def pass (r : AlarmRun) : AlarmRun :=
  let r := { r with alarm := r.alarm.pass r.now }
  (r.alarm.batch.getD []).foldl (fun r _ => r.fireOne) r

/-- Passes until nothing is due, for at most `passes` of them. -/
def settle (r : AlarmRun) : (passes : Nat) → AlarmRun
  | 0 => r
  | passes + 1 => if r.alarm.isDue r.now then r.pass.settle passes else r

/-- No run needs more passes than there are timers and things to do in callbacks. -/
def maxPasses (r : AlarmRun) : Nat :=
  r.scripts.entries.foldl (fun n e => n + e.2.length) r.alarm.timers.size

def perform (r : AlarmRun) : AlarmRequest → AlarmAnswer × AlarmRun
  | .start => (.nothing, { r with alarm := r.alarm.start })
  | .stop => (.nothing, { r with alarm := r.alarm.stop })
  | .schedule id deadlineMs =>
    let (done, alarm) := r.alarm.schedule ⟨id, Instant.ofMillis deadlineMs⟩
    (.truth done, { r with alarm })
  | .cancel id =>
    let (done, alarm) := r.alarm.cancel id
    (.truth done, { r with alarm })
  | .drain =>
    let (ts, alarm) := r.alarm.drain
    (.timers ts, { r with alarm })
  | .pending => (.nothing, r)
  | .advance ms => (.nothing, { r with now := r.now + Instant.ofMillis ms })

/-- Performs a request and lets everything due fire; what was fired and logged before is
forgotten. -/
def step (r : AlarmRun) (request : AlarmRequest) : AlarmAnswer × AlarmRun :=
  let (answer, r) := { r with fired := [], log := [] }.perform request
  (answer, r.settle r.maxPasses)

end AlarmRun

end Interledger.Simulation
