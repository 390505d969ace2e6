import Interledger.Proofs.Alarm.Index
import Mathlib.Data.List.Count
import Mathlib.Data.List.Induction

/-! Runs of an alarm. Beside the alarm stand its timers in two indexes, moved by the same
steps, and what has come and gone: the two give the same answers, and of the timers that were
armed each one leaves once, cancelled, drained or taken out by a pass, or is still there. -/

namespace Interledger.Alarm

open Timers (Entry Index)

/-! ### Steps -/

/-- The calls on an alarm and the moves of its worker. Stopping is `halt`, and then waiting for
the worker to finish; a callback may fail. -/
inductive Step where
  | start
  | halt
  | finish
  | schedule (t : Timer)
  | cancel (id : Bytes)
  | drain
  | pending
  | pass
  | callBack (failure : Option Bytes)

def Step.isCallBack : Step → Bool
  | callBack _ => true
  | _ => false

/-- The step with a callback that does not fail. -/
def Step.quiet : Step → Step
  | callBack _ => callBack none
  | s => s

/-- One step at a reading of the clock. A failing callback changes the alarm as any other. -/
def Step.perform (now : Int) (a : Alarm) : Step → Alarm
  | start => a.start
  | halt => a.halt
  | finish => a.finish
  | schedule t => (a.schedule t).2
  | cancel id => (a.cancel id).2
  | drain => a.drain.2
  | pending => a
  | pass => a.pass now
  | callBack _ => (a.next?.map (·.2)).getD a

/-- An alarm with its timers in two indexes, and what has come and gone. -/
structure Roll where
  alarm : Alarm
  index : Index
  /-- What was scheduled with success. The handle of an entry is its place in this list. -/
  armed : List Timer
  /-- The ids that were cancelled with success. -/
  cancelled : List Bytes
  drained : List Timer
  /-- What passes have taken out. -/
  popped : List Entry
  /-- The callbacks, each with its reading of the clock. -/
  called : List (Int × Timer)
  log : List Log.Line

namespace Roll

def make (name : Bytes) : Roll := ⟨.make name, .empty, [], [], [], [], [], []⟩

/-- The step of the alarm, and the same step of the two indexes. -/
def next (r : Roll) (now : Int) (s : Step) : Roll :=
  let alarm := s.perform now r.alarm
  match s with
  | .start | .halt | .finish | .pending => { r with alarm }
  | .schedule t => { r with
      alarm
      index := (r.index.arm? t).elim r.index (·.2)
      armed := r.armed ++ if (r.alarm.schedule t).1 then [t] else [] }
  | .cancel id => { r with
      alarm
      index := match r.index.cancel id with
        | .entry _ index => index
        | .absent | .dangling => r.index
      cancelled := r.cancelled ++ if (r.alarm.cancel id).1 then [id] else [] }
  | .drain => { r with
      alarm
      index := r.index.drain.2
      drained := r.drained ++ r.alarm.drain.1 }
  | .pass =>
    if r.alarm.running = true ∧ r.alarm.batch = some [] then
      { r with alarm, index := (r.index.pop now).2, popped := r.popped ++ (r.index.pop now).1 }
    else { r with alarm }
  | .callBack failure =>
    match r.alarm.next? with
    | some (t, _) => { r with
        alarm
        called := r.called ++ [(now, t)]
        log := r.log ++ (failure.map (r.alarm.failLine t)).toList }
    | none => { r with alarm }

/-- A run of a new alarm: steps with the readings of the clock. -/
def run (name : Bytes) (steps : List (Int × Step)) : Roll :=
  steps.foldl (fun r s => r.next s.1 s.2) (make name)

@[simp] theorem run_concat (name : Bytes) (steps : List (Int × Step)) (s : Int × Step) :
    run name (steps ++ [s]) = (run name steps).next s.1 s.2 := by
  simp [run]

/-! ### What a step does -/

/-- The alarm and the two indexes hold the same timers. -/
structure Agrees (r : Roll) : Prop where
  consistent : r.index.Consistent
  timers_eq : r.alarm.timers = r.index.timers

/-- What the worker has taken out and not called back. -/
def owed (r : Roll) : List Timer := r.alarm.batch.getD []

/-- What a step can do. A worker that owes a callback does not stand still in its turn. -/
inductive Turn (r : Roll) (now : Int) : Step → Roll → Prop
  | still {s : Step} (alarm : Alarm) (ht : alarm.timers = r.alarm.timers)
      (hb : alarm.batch.getD [] = r.owed) (hs : s.isCallBack = false ∨ r.owed = []) :
    Turn r now s { r with alarm }
  | armed {t : Timer} {alarm : Alarm} {index : Index}
      (ha : r.index.arm? t = some (⟨r.index.next, t⟩, index)) (ht : alarm.timers = index.timers)
      (hb : alarm.batch.getD [] = r.owed) :
    Turn r now (.schedule t) { r with alarm, index, armed := r.armed ++ [t] }
  | cancelled {e : Entry} {alarm : Alarm} (he : e ∈ r.index.entries)
      (ht : alarm.timers = (r.index.without [e.timer.id]).timers)
      (hb : alarm.batch.getD [] = r.owed) :
    Turn r now (.cancel e.timer.id) { r with
      alarm, index := r.index.without [e.timer.id], cancelled := r.cancelled ++ [e.timer.id] }
  | drained : Turn r now .drain { r with
      alarm := r.alarm.drain.2
      index := r.index.drain.2
      drained := r.drained ++ r.index.entries.map (·.timer) }
  | popped {alarm : Alarm} (hidle : r.alarm.batch = some [])
      (ht : alarm.timers = (r.index.pop now).2.timers)
      (hb : alarm.batch = some ((r.index.due now).map (·.timer))) :
    Turn r now .pass { r with
      alarm, index := (r.index.pop now).2, popped := r.popped ++ r.index.due now }
  | called {t : Timer} {ts : List Timer} {failure : Option Bytes} (log : List Log.Line)
      (hb : r.alarm.batch = some (t :: ts)) :
    Turn r now (.callBack failure) { r with
      alarm := { r.alarm with batch := some ts }, called := r.called ++ [(now, t)], log }

variable {r r' : Roll} {now : Int} {s : Step}

/-- The list of what steps do is complete. -/
theorem Agrees.turn (hr : r.Agrees) (now : Int) (s : Step) : r.Turn now s (r.next now s) := by
  obtain ⟨hix, htimers⟩ := hr
  cases s with
  | start => exact .still _ (timers_start _) (batch_start _) (.inl rfl)
  | halt => exact .still _ rfl rfl (.inl rfl)
  | finish => exact .still _ (timers_finish _) (batch_finish _) (.inl rfl)
  | pending => exact .still _ rfl rfl (.inl rfl)
  | schedule t =>
    have harm := hix.timers_arm? t
    rw [← htimers] at harm
    simp only [next, Step.perform, Alarm.schedule]
    cases ha : r.index.arm? t with
    | none =>
      rw [ha] at harm
      simp only [← harm, Option.map_none, Bool.false_eq_true, if_false, List.append_nil]
      exact .still _ rfl rfl (.inl rfl)
    | some p =>
      obtain ⟨e, index⟩ := p
      obtain ⟨-, rfl, -⟩ := Index.arm?_eq_some ha
      rw [ha] at harm
      simp only [← harm, Option.map_some, if_true]
      exact .armed ha rfl rfl
  | cancel id =>
    simp only [next, Step.perform, Alarm.cancel]
    rcases hix.cancel_cases id with ⟨hid, hc⟩ | ⟨e, he, rfl, hc⟩
    · have hnone : r.alarm.timers.cancel? id = none := by
        rw [htimers, Timers.cancel?, if_neg]
        rw [hix.isArmed_iff, hix.contains_iff]
        exact hid
      simp only [hnone, hc, Bool.false_eq_true, if_false, List.append_nil]
      exact .still _ rfl rfl (.inl rfl)
    · have hsome := hix.timers_cancel? he
      rw [← htimers] at hsome
      simp only [hsome, hc, if_true]
      exact .cancelled he rfl rfl
  | drain =>
    simp only [next, Step.perform, Alarm.drain, htimers]
    exact .drained
  | pass =>
    simp only [next, Step.perform, Alarm.pass]
    split
    next hidle =>
      rw [Index.pop_fst]
      refine .popped hidle.2 ?_ ?_
      · rw [Index.timers_pop, htimers]
      · rw [Index.map_timer_due, htimers]
    · exact .still _ rfl rfl (.inl rfl)
  | callBack failure =>
    simp only [next, Step.perform, Alarm.next?]
    rcases hb : r.alarm.batch with _ | _ | ⟨t, ts⟩
    · exact .still _ rfl rfl (.inr (congrArg (·.getD []) hb))
    · exact .still _ rfl rfl (.inr (congrArg (·.getD []) hb))
    · exact .called _ hb

theorem Agrees.of_turn (hr : r.Agrees) (h : r.Turn now s r') : r'.Agrees := by
  cases h with
  | still alarm ht => exact ⟨hr.consistent, ht.trans hr.timers_eq⟩
  | armed ha ht => exact ⟨hr.consistent.arm? ha, ht⟩
  | cancelled he ht => exact ⟨hr.consistent.without _, ht⟩
  | drained => exact ⟨Index.consistent_drain _, rfl⟩
  | popped hidle ht => exact ⟨hr.consistent.pop now, ht⟩
  | called log hb => exact ⟨hr.consistent, hr.timers_eq⟩

theorem agrees_run (name : Bytes) (steps : List (Int × Step)) : (run name steps).Agrees := by
  induction steps using List.reverseRecOn with
  | nil => exact ⟨Index.consistent_empty, rfl⟩
  | append_singleton steps s ih =>
    rw [run_concat]
    exact ih.of_turn (ih.turn s.1 s.2)

/-- The last step of a run is one of those that a step can do. -/
theorem turn_run (name : Bytes) (steps : List (Int × Step)) (s : Int × Step) :
    (run name steps).Turn s.1 s.2 (run name (steps ++ [s])) := by
  rw [run_concat]
  exact (agrees_run name steps).turn s.1 s.2

/-- What holds at a moment and is kept by every step holds from that moment on. -/
theorem run_induction {P : Roll → Prop} (name : Bytes) (steps more : List (Int × Step))
    (h : P (run name steps)) (hstep : ∀ r now s r', r.Agrees → P r → r.Turn now s r' → P r') :
    P (run name (steps ++ more)) := by
  induction more using List.reverseRecOn with
  | nil => rwa [List.append_nil]
  | append_singleton more s ih =>
    rw [← List.append_assoc]
    exact hstep _ _ _ _ (agrees_run ..) ih (turn_run ..)

/-! ### What comes and goes -/

/-- The handle of an entry is the place of its timer among all that were armed, and what was
armed has left in one of three ways or is still there. -/
structure Balanced (r : Roll) : Prop where
  next_eq : r.index.next = r.armed.length
  armed : ∀ e ∈ r.index.entries, r.armed[e.handle]? = some e.timer
  count : ∀ id, (r.armed.map (·.id)).count id =
    r.cancelled.count id + (r.drained.map (·.id)).count id +
      (r.popped.map (·.timer.id)).count id + (r.index.entries.map (·.timer.id)).count id

theorem balanced_make (name : Bytes) : (make name).Balanced := ⟨rfl, nofun, fun _ => rfl⟩

theorem Balanced.of_turn (hb : r.Balanced) (hr : r.Agrees) (h : r.Turn now s r') :
    r'.Balanced := by
  obtain ⟨hnext, harmed, hcount⟩ := hb
  cases h with
  | still => exact ⟨hnext, harmed, hcount⟩
  | @armed t alarm index ha ht hb =>
    obtain ⟨-, -, rfl⟩ := Index.arm?_eq_some ha
    have hplace := Index.place_perm ⟨r.index.next, t⟩ r.index.entries
    refine ⟨?_, fun e he => ?_, fun id => ?_⟩
    · simp [hnext]
    · rcases List.mem_cons.1 (hplace.mem_iff.1 he) with rfl | he
      · simp [hnext]
      · rw [List.getElem?_append_left (hnext ▸ hr.consistent.fresh e he)]
        exact harmed e he
    · have hids := (hplace.map fun e : Entry => e.timer.id).count_eq id
      have := hcount id
      simp only [List.map_append, List.map_cons, List.map_nil, List.count_append,
        List.count_cons, List.count_nil] at hids ⊢
      omega
  | @cancelled e alarm he ht hb =>
    refine ⟨hnext, fun f hf => harmed f (List.filter_sublist.subset hf), fun id => ?_⟩
    have hids := hr.consistent.count_without he id
    have := hcount id
    simp only [List.count_append]
    omega
  | drained =>
    refine ⟨hnext, nofun, fun id => ?_⟩
    have := hcount id
    simp only [List.map_append, List.map_map, Function.comp_def, List.count_append,
      Index.drain, List.map_nil, List.count_nil]
    omega
  | popped hidle ht hb =>
    have hsplit := Index.entries_pop r.index now
    refine ⟨?_, fun e he => ?_, fun id => ?_⟩
    · rw [Index.next_pop, hnext]
    · exact harmed e (hsplit ▸ List.mem_append_right _ he)
    · have := hcount id
      rw [← hsplit] at this
      simp only [List.map_append, List.count_append] at this ⊢
      omega
  | called log hb => exact ⟨hnext, harmed, hcount⟩

theorem balanced_run (name : Bytes) (steps : List (Int × Step)) : (run name steps).Balanced :=
  run_induction name [] steps (balanced_make name) fun _ _ _ _ hr hb h => hb.of_turn hr h

/-! ### Answers -/

section Answers

variable {id : Bytes} {t : Timer}

theorem Agrees.isArmed_iff (hr : r.Agrees) :
    r.alarm.timers.isArmed id ↔ id ∈ r.index.entries.map (·.timer.id) := by
  rw [hr.timers_eq, hr.consistent.isArmed_iff, hr.consistent.contains_iff]

theorem Agrees.schedule_iff (hr : r.Agrees) :
    ((r.alarm.schedule t).1 = true ↔ t.id ∉ r.index.entries.map (·.timer.id)) ∧
      ((r.index.arm? t).isSome ↔ t.id ∉ r.index.entries.map (·.timer.id)) := by
  have hcontains : r.index.handles.contains t.id ↔ _ := hr.consistent.contains_iff
  rw [← hr.isArmed_iff] at hcontains ⊢
  rw [Alarm.schedule, Timers.arm?, Index.arm?]
  by_cases h : r.alarm.timers.isArmed t.id <;> simp [h, hcontains]

theorem Agrees.cancel_iff (hr : r.Agrees) :
    (r.alarm.cancel id).1 = true ↔ id ∈ r.index.entries.map (·.timer.id) := by
  rw [← hr.isArmed_iff, Alarm.cancel, Timers.cancel?]
  by_cases h : r.alarm.timers.isArmed id <;> simp [h]

end Answers

/-- A timer leaves the schedule exactly once. After every step both indexes hold the timers of
the alarm: each id once, its handle leading to its entry, and the entries in the order of their
deadlines and then of arming. Of an id, as many timers were armed as were cancelled, drained and
taken out by passes, and one more while it is armed. -/
theorem timers_leave_once (name : Bytes) (steps : List (Int × Step)) :
    let r := run name steps
    let live := r.index.entries.map (·.timer.id)
    r.alarm.timers.list = r.index.entries.map (·.timer) ∧
    (live.Nodup ∧ (r.index.entries.map (·.handle)).Nodup ∧
      ∀ id handle, r.index.handles.get? id = some handle ↔
        ∃ e ∈ r.index.entries, e.timer.id = id ∧ e.handle = handle) ∧
    (r.index.entries.Pairwise Entry.Precedes ∧
      ∀ e ∈ r.index.entries, r.armed[e.handle]? = some e.timer) ∧
    (r.index.size = r.index.entries.length ∧ r.alarm.timers.size = r.index.entries.length) ∧
    (∀ id, (r.armed.map (·.id)).count id =
      r.cancelled.count id + (r.drained.map (·.id)).count id +
        (r.popped.map (·.timer.id)).count id + if id ∈ live then 1 else 0) ∧
    (∀ t, ((r.alarm.schedule t).1 = true ↔ t.id ∉ live) ∧
      ((r.index.arm? t).isSome ↔ t.id ∉ live)) ∧
    (∀ id, ((r.alarm.cancel id).1 = true ↔ id ∈ live) ∧
      (id ∉ live → r.index.cancel id = .absent) ∧
      (id ∈ live → ∃ e ∈ r.index.entries, e.timer.id = id ∧
        r.index.cancel id = .entry e (r.index.without [id]))) ∧
    (r.alarm.drain.1 = r.index.entries.map (·.timer) ∧
      r.index.drain.1 = r.index.entries ∧
      r.alarm.drain.2.timers.size = 0 ∧ r.index.drain.2.size = 0) ∧
    (∀ now, r.alarm.running = true → r.alarm.batch = some [] →
      (r.alarm.pass now).batch = some ((r.index.pop now).1.map (·.timer)) ∧
      (r.index.pop now).1 = r.index.due now ∧
      (r.alarm.pass now).timers = (r.index.pop now).2.timers) := by
  intro r live
  have hr := agrees_run name steps
  have hix := hr.consistent
  have htimers := hr.timers_eq
  obtain ⟨-, harmed, hcount⟩ := balanced_run name steps
  have hlist : r.alarm.timers.list = r.index.entries.map (·.timer) := congrArg Timers.list htimers
  have hsize : r.alarm.timers.size = r.index.entries.length := by
    rw [Timers.size, hlist, List.length_map]
  refine ⟨hlist, ⟨hix.nodup_ids, hix.nodup_handles, fun _ _ => hix.get?_eq_some_iff⟩,
    ⟨hix.precedes, harmed⟩, ⟨?_, hsize⟩, fun id => ?_, fun _ => hr.schedule_iff,
    fun id => ⟨hr.cancel_iff, fun hid => ?_, fun hid => ?_⟩, ⟨hlist, rfl, rfl, rfl⟩,
    fun now hrun hidle => ⟨?_, Index.pop_fst _ _, ?_⟩⟩
  · rw [hix.size_eq, ← htimers, hsize]
  · rw [← hix.nodup_ids.count]
    exact hcount id
  · rcases hix.cancel_cases id with ⟨-, hc⟩ | ⟨e, he, rfl, -⟩
    · exact hc
    · exact absurd (List.mem_map_of_mem he) hid
  · rcases hix.cancel_cases id with ⟨hn, -⟩ | ⟨e, he, heq, hc⟩
    · exact absurd hid hn
    · exact ⟨e, he, heq, hc⟩
  · rw [Alarm.pass, if_pos ⟨hrun, hidle⟩, Index.pop_fst, Index.map_timer_due, htimers]
  · rw [Alarm.pass, if_pos ⟨hrun, hidle⟩, Index.timers_pop, htimers]

end Roll

end Interledger.Alarm
