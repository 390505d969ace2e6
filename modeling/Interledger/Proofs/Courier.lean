import Interledger.Event.Courier
import Mathlib.Data.List.Induction

/-! Runs of a courier. Whatever is raised, whichever handlers come and go and whenever the worker
is started and asked to end, the events that were processed, the one in hand and those in the
queue are what was raised, in order. An event that was processed was given to the handler in the
slot, or dropped for want of one; a failing handler leaves nothing but a line in the log; and a
worker that was asked to end does so, and only with nothing left to bring.

The steps of a run are whole calls and the worker's own moves; a call that waits for the worker's
end has a second step, its return. To start a worker over a thread that nobody has joined aborts
the program, and no step after that does anything. -/

namespace Interledger.Courier

open Log (Line Level)

variable {η : Type}

/-! ### Steps -/

/-- The calls on a courier, also from inside a handler, and the moves of its worker. -/
inductive Step (η : Type) where
  | raise (e : Event)
  | setHandler (handler : Option η)
  | start
  | close
  | join
  | take
  | deliver
  | finish (failure : Option Bytes)

/-- What a step logs, and the courier it leaves. -/
@[simp] def Step.perform (c : Courier η) : Step η → List Line × Courier η
  | raise e => ([], c.raise e)
  | setHandler handler => ([], c.setHandler handler)
  | start => ([], c.start)
  | close => ([], c.close)
  | join => ([], c.join)
  | take => ([], c.take)
  | deliver => c.deliver
  | finish failure => c.finish failure

@[simp] def Step.raised? : Step η → Option Event
  | raise e => some e
  | setHandler _ | start | close | join | take | deliver | finish _ => none

/-- The step with a handler that does not fail. -/
def Step.quiet : Step η → Step η
  | finish _ => finish none
  | s => s

/-- The event that the worker holds until it is processed. -/
@[simp] def Worker.held : Worker η → Option Event
  | absent | idle => none
  | holding e | delivering e _ => some e

/-- The event that a handler has, and the handler. -/
@[simp] def Worker.given : Worker η → Option (Event × η)
  | absent | idle | holding _ => none
  | delivering e h => some (e, h)

/-- The event whose delivery a step begins, with what the slot holds then. -/
@[simp] def Step.slot? (c : Courier η) : Step η → Option (Event × Option η)
  | deliver =>
    match c.worker with
    | .holding e => some (e, c.handler)
    | .absent | .idle | .delivering .. => none
  | raise _ | setHandler _ | start | close | join | take | finish _ => none

/-! ### What a step does -/

/-- What a step can do, with what it logs. -/
inductive Turn (c : Courier η) : Step η → List Line → Courier η → Prop
  | still {s : Step η} (hr : s.raised? = none) (hs : s.slot? c = none) (hc : s ≠ .close) :
    Turn c s [] c
  | raised (e : Event) : Turn c (.raise e) [] (c.raise e)
  | replaced (handler : Option η) : Turn c (.setHandler handler) [] (c.setHandler handler)
  | launched (hr : c.running = false) (ht : c.thread ≠ .joinable) :
    Turn c .start [] { c with running := true, thread := .joinable, worker := .idle }
  | aborted (hr : c.running = false) (ht : c.thread = .joinable) :
    Turn c .start [] { c with running := true, isAborted := true }
  | closed : Turn c .close [] c.close
  | joined (ht : c.thread = .joinable) (hw : c.worker = .absent) :
    Turn c .join [] { c with thread := .joined }
  | taken {e : Event} {es : List Event} (hw : c.worker = .idle) (hq : c.queue.events = e :: es) :
    Turn c .take [] { c with queue := { c.queue with events := es }, worker := .holding e }
  | ended (hw : c.worker = .idle) (hq : c.queue.events = []) (hc : c.queue.isClosed) :
    Turn c .take [] { c with worker := .absent }
  | given {e : Event} {h : η} (hw : c.worker = .holding e) (hh : c.handler = some h) :
    Turn c .deliver [] { c with worker := .delivering e h }
  | dropped {e : Event} (hw : c.worker = .holding e) (hh : c.handler = none) :
    Turn c .deliver [c.dropLine e] { c with worker := .idle }
  | finished {e : Event} {h : η} (failure : Option Bytes) (hw : c.worker = .delivering e h) :
    Turn c (.finish failure) (failure.map (c.failLine e)).toList { c with worker := .idle }

theorem turn_start (c : Courier η) : c.Turn .start [] c.start := by
  unfold start
  split
  · exact .still rfl rfl nofun
  next hr =>
    have hr : c.running = false := Bool.eq_false_iff.2 hr
    split
    next ht => exact .aborted hr ht
    next ht => exact .launched hr (by rw [ht]; nofun)
    next ht => exact .launched hr (by rw [ht]; nofun)

theorem turn_join (c : Courier η) : c.Turn .join [] c.join := by
  unfold join
  split
  next ht hw => exact .joined ht hw
  · exact .still rfl rfl nofun

theorem turn_take (c : Courier η) : c.Turn .take [] c.take := by
  unfold take
  split
  next hw =>
    unfold EventQueue.take
    cases hq : c.queue.events with
    | cons e es => exact .taken hw hq
    | nil =>
      cases hc : c.queue.isClosed with
      | true => exact .ended hw hq hc
      | false => exact .still rfl rfl nofun
  all_goals exact .still rfl rfl nofun

theorem turn_deliver (c : Courier η) : c.Turn .deliver c.deliver.1 c.deliver.2 := by
  unfold deliver
  split
  next hw =>
    split
    next hh => exact .given hw hh
    next hh => exact .dropped hw hh
  all_goals
    next hw => exact .still rfl (by simp only [Step.slot?, hw]) nofun

theorem turn_finish (c : Courier η) (failure : Option Bytes) :
    c.Turn (.finish failure) (c.finish failure).1 (c.finish failure).2 := by
  unfold finish
  cases hw : c.worker with
  | absent | idle | holding e => exact .still rfl rfl nofun
  | delivering e h => exact .finished failure hw

/-- The list of what steps do is complete. -/
theorem turn_perform (c : Courier η) (s : Step η) : c.Turn s (s.perform c).1 (s.perform c).2 := by
  cases s with
  | raise e => exact .raised e
  | setHandler handler => exact .replaced handler
  | start => exact turn_start c
  | close => exact .closed
  | join => exact turn_join c
  | take => exact turn_take c
  | deliver => exact turn_deliver c
  | finish failure => exact turn_finish c failure

/-- A worker is there only with a thread that can be joined; and where such a thread does not
count as running, its worker was asked to end. -/
structure Threaded (c : Courier η) : Prop where
  worker_absent : c.thread ≠ .joinable → c.worker = .absent
  isClosed : c.thread = .joinable → c.running = false → c.queue.isClosed

theorem threaded_make (name : Bytes) : (make name : Courier η).Threaded := ⟨fun _ => rfl, nofun⟩

namespace Turn

variable {c c' : Courier η} {s : Step η} {lines : List Line}

theorem threaded (h : c.Turn s lines c') (hc : c.Threaded) : c'.Threaded := by
  -- A worker that makes a move is not absent, so its thread can be joined.
  have hmove : c.worker ≠ .absent → c.thread = .joinable := fun hw => by
    by_contra ht
    exact hw (hc.worker_absent ht)
  cases h with
  | still => exact hc
  | raised | replaced => exact ⟨hc.worker_absent, hc.isClosed⟩
  | launched => exact ⟨fun h => absurd rfl h, nofun⟩
  | aborted hr ht => exact ⟨fun h => absurd ht h, nofun⟩
  | closed => exact ⟨hc.worker_absent, fun _ _ => rfl⟩
  | joined ht hw => exact ⟨fun _ => hw, nofun⟩
  | ended hw hq hclosed => exact ⟨fun _ => rfl, fun _ _ => hclosed⟩
  | taken hw | given hw | dropped hw | finished _ hw =>
    exact ⟨fun h => absurd (hmove (by rw [hw]; nofun)) h, hc.isClosed⟩

/-- Only `setHandler` writes the slot. -/
theorem handler_eq (h : c.Turn s lines c') (hs : ∀ handler, s ≠ .setHandler handler) :
    c'.handler = c.handler := by
  cases h with
  | replaced handler => exact absurd rfl (hs handler)
  | _ => rfl

/-- Only a start aborts the program, where no worker counts as running and the last one's thread
was not joined. -/
theorem isAborted (h : c.Turn s lines c') (ha : c'.isAborted) :
    c.isAborted ∨ s = .start ∧ c.running = false ∧ c.thread = .joinable := by
  cases h with
  | aborted hr ht => exact .inr ⟨rfl, hr, ht⟩
  | _ => exact .inl ha

/-- A worker ends in its own turn, with a closed queue and nothing in it. -/
theorem ends (h : c.Turn s lines c') (hw : c.worker ≠ .absent) (hw' : c'.worker = .absent) :
    c'.queue.events = [] ∧ c.queue.isClosed := by
  cases h with
  | ended _ hq hc => exact ⟨hq, hc⟩
  | still | raised | replaced | aborted | closed | joined => exact absurd hw' hw
  | launched | taken | given | dropped | finished => cases hw'

end Turn

theorem handler_start (c : Courier η) : c.start.handler = c.handler :=
  (turn_start c).handler_eq nofun

theorem handler_join (c : Courier η) : c.join.handler = c.handler := (turn_join c).handler_eq nofun

theorem handler_take (c : Courier η) : c.take.handler = c.handler := (turn_take c).handler_eq nofun

theorem handler_deliver (c : Courier η) : c.deliver.2.handler = c.handler :=
  (turn_deliver c).handler_eq nofun

theorem handler_finish (c : Courier η) (failure : Option Bytes) :
    (c.finish failure).2.handler = c.handler :=
  (turn_finish c failure).handler_eq nofun

/-! ### Diaries -/

/-- A courier and what went through it. -/
structure Diary (η : Type) where
  courier : Courier η
  raised : List Event
  /-- What has left the hands of the worker. -/
  processed : List Event
  /-- The events whose delivery has begun, each with the slot at that moment. -/
  slots : List (Event × Option η)
  /-- The calls of handlers. -/
  calls : List (Event × η)
  log : List Line

namespace Diary

def make (name : Bytes) : Diary η := ⟨.make name, [], [], [], [], []⟩

/-- What the worker has in hand before a step and no longer after it was processed; a handler
that has an event after a step and had none before was called. -/
def record (d : Diary η) (s : Step η) (lines : List Line) (courier : Courier η) : Diary η :=
  let before := d.courier.worker
  let after := courier.worker
  { courier
    raised := d.raised ++ s.raised?.toList
    processed := d.processed ++ if after.held.isNone then before.held.toList else []
    slots := d.slots ++ (s.slot? d.courier).toList
    calls := d.calls ++ if before.given.isNone then after.given.toList else []
    log := d.log ++ lines }

/-- Once the program is aborted nothing goes on. -/
def next (d : Diary η) (s : Step η) : Diary η :=
  if d.courier.isAborted then d else d.record s (s.perform d.courier).1 (s.perform d.courier).2

def run (name : Bytes) (steps : List (Step η)) : Diary η := steps.foldl next (make name)

@[simp] theorem run_concat (name : Bytes) (steps : List (Step η)) (s : Step η) :
    run name (steps ++ [s]) = (run name steps).next s := by
  simp [run]

theorem run_append (name : Bytes) (steps more : List (Step η)) :
    run name (steps ++ more) = more.foldl next (run name steps) :=
  List.foldl_append

variable {d : Diary η} {s : Step η}

theorem next_of_isAborted (ha : d.courier.isAborted) (s : Step η) : d.next s = d := if_pos ha

theorem next_of_not_isAborted (ha : d.courier.isAborted = false) (s : Step η) :
    d.next s = d.record s (s.perform d.courier).1 (s.perform d.courier).2 :=
  if_neg (Bool.eq_false_iff.1 ha)

theorem courier_next (ha : d.courier.isAborted = false) (s : Step η) :
    (d.next s).courier = (s.perform d.courier).2 := by
  rw [next_of_not_isAborted ha]
  rfl

/-- Everything that was raised was processed, or is in hand, or is queued; and every delivery
that has begun is a call of the handler in the slot, or a line for want of one. -/
structure Complete (d : Diary η) : Prop where
  threaded : d.courier.Threaded
  account : d.processed ++ d.courier.worker.held.toList ++ d.courier.queue.events = d.raised
  slots : d.slots.map (·.1) = d.processed ++ (d.courier.worker.given.map (·.1)).toList
  calls : d.calls = d.slots.filterMap fun p => p.2.map (p.1, ·)
  drops : d.log.filter (·.level = .warning) =
    (d.slots.filter (·.2.isNone)).map fun p => d.courier.dropLine p.1

/-- A step that moves no event. -/
theorem Complete.of_same (hd : d.Complete) {courier : Courier η} (ht : courier.Threaded)
    (hr : s.raised? = none) (hs : s.slot? d.courier = none) (hn : courier.name = d.courier.name)
    (hq : courier.queue.events = d.courier.queue.events)
    (hh : courier.worker.held = d.courier.worker.held)
    (hg : courier.worker.given = d.courier.worker.given) : (d.record s [] courier).Complete := by
  have hnone : ∀ {α : Type} (o : Option α), (if o.isNone then o.toList else []) = [] := by
    rintro α (_ | _) <;> rfl
  have hrecord : d.record s [] courier = { d with courier } := by
    simp only [record, hr, hs, hh, hg, hnone, Option.toList_none, List.append_nil]
  rw [hrecord]
  refine ⟨ht, ?_, ?_, hd.calls, ?_⟩
  · rw [hh, hq]
    exact hd.account
  · rw [hg]
    exact hd.slots
  · simp only [hd.drops, dropLine, hn]

theorem Complete.record (hd : d.Complete) {lines : List Line} {courier : Courier η}
    (h : d.courier.Turn s lines courier) : (d.record s lines courier).Complete := by
  have ht := h.threaded hd.threaded
  have haccount := hd.account
  have hslots := hd.slots
  cases h with
  | still hr hs => exact hd.of_same ht hr hs rfl rfl rfl rfl
  | replaced | aborted | closed | joined => exact hd.of_same ht rfl rfl rfl rfl rfl rfl
  | launched hr hj =>
    have hw := hd.threaded.worker_absent hj
    exact hd.of_same ht rfl rfl rfl rfl (by rw [hw]; rfl) (by rw [hw]; rfl)
  | ended hw => exact hd.of_same ht rfl rfl rfl rfl (by rw [hw]; rfl) (by rw [hw]; rfl)
  | raised e =>
    have hrecord : d.record (.raise e) [] (d.courier.raise e) =
        { d with courier := d.courier.raise e, raised := d.raised ++ [e] } := by
      cases hw : d.courier.worker <;> simp [Diary.record, raise, hw]
    rw [hrecord]
    refine ⟨ht, ?_, hslots, hd.calls, hd.drops⟩
    rw [← haccount]
    simp [raise, EventQueue.enqueue]
  | taken hw hq =>
    rw [hw] at haccount hslots
    rw [hq] at haccount
    refine ⟨ht, ?_, ?_, ?_, ?_⟩
    · simpa [Diary.record, hw] using haccount
    · simpa [Diary.record, hw] using hslots
    · simpa [Diary.record, hw] using hd.calls
    · simpa [Diary.record, dropLine] using hd.drops
  | given hw hh =>
    rw [hw] at haccount hslots
    refine ⟨ht, ?_, ?_, ?_, ?_⟩
    · simpa [Diary.record, hw] using haccount
    · simpa [Diary.record, hw] using hslots
    · simp [Diary.record, hw, hh, hd.calls]
    · simpa [Diary.record, dropLine, hw, hh] using hd.drops
  | dropped hw hh =>
    rw [hw] at haccount hslots
    refine ⟨ht, ?_, ?_, ?_, ?_⟩
    · simpa [Diary.record, hw] using haccount
    · simpa [Diary.record, hw] using hslots
    · simp [Diary.record, hw, hh, hd.calls]
    · simp [Diary.record, dropLine, hw, hh, hd.drops]
  | finished failure hw =>
    rw [hw] at haccount hslots
    refine ⟨ht, ?_, ?_, ?_, ?_⟩
    · simpa [Diary.record, hw] using haccount
    · simpa [Diary.record, hw] using hslots
    · simpa [Diary.record, hw] using hd.calls
    · rw [Diary.record, List.filter_append, hd.drops]
      simp [failLine, dropLine]

theorem Complete.next (hd : d.Complete) (s : Step η) : (d.next s).Complete := by
  unfold Diary.next
  split
  · exact hd
  · exact hd.record (turn_perform d.courier s)

/-- A diary without the failures of handlers. -/
def hush (d : Diary η) : Diary η := { d with log := d.log.filter (·.level = .warning) }

theorem perform_quiet (c : Courier η) (s : Step η) : s.quiet.perform c =
    ((s.perform c).1.filter (·.level = .warning), (s.perform c).2) := by
  cases s with
  | deliver =>
    obtain ⟨name, queue, handler, running, thread, worker, isAborted⟩ := c
    cases worker with
    | holding e => cases handler <;> rfl
    | absent | idle | delivering => rfl
  | finish failure =>
    obtain ⟨name, queue, handler, running, thread, worker, isAborted⟩ := c
    cases worker with
    | delivering e h => cases failure <;> rfl
    | absent | idle | holding => rfl
  | raise | setHandler | start | close | join | take => rfl

theorem next_quiet (d : Diary η) (s : Step η) : d.hush.next s.quiet = (d.next s).hush := by
  have hraise : s.quiet.raised? = s.raised? := by cases s <;> rfl
  have hslot : s.quiet.slot? d.courier = s.slot? d.courier := by cases s <;> rfl
  by_cases ha : d.courier.isAborted
  · have hhush : d.hush.courier.isAborted := ha
    rw [next_of_isAborted ha, next_of_isAborted hhush]
  · simp only [next, record, hush, if_neg ha, perform_quiet, hraise, hslot, List.filter_append]

theorem run_quiet (name : Bytes) (steps : List (Step η)) :
    run name (steps.map Step.quiet) = (run name steps).hush := by
  induction steps using List.reverseRecOn with
  | nil => rfl
  | append_singleton steps s ih =>
    rw [List.map_append, List.map_singleton, run_concat, run_concat, ih, next_quiet]

/-! ### Aborts -/

section
variable {name : Bytes} {steps : List (Step η)}

/-- A worker that has ended still has its thread, until a call has waited for it. -/
example : (run "n" [.start, .close, .take, .start] : Diary Nat).courier.isAborted = true ∧
    (run "n" [.start, .close, .take, .join, .start] : Diary Nat).courier.isAborted = false :=
  ⟨rfl, rfl⟩

/-! ### The end -/

/-- A turn of the worker, whatever it has in hand, with the failure of the handler if any. -/
def round (failure : Option Bytes) : List (Step η) := [.deliver, .finish failure, .take]

end

end Diary

end Interledger.Courier
