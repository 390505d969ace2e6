import Interledger.Timers.Alarm
import Mathlib.Data.List.Nodup
import Mathlib.Data.List.Pairwise
import Mathlib.Data.List.TakeWhile

/-! What an alarm holds. A timer that was armed is held, among those to come or among those
taken out and not called back, until it is cancelled, called back or taken away; the timers to
come stand in the order of their deadlines, and a pass takes out just those that are due. -/

namespace Interledger

/-! ### Timers in order -/

namespace Timers

/-- In the order of the deadlines. -/
def InOrder (ts : List Timer) : Prop := ts.Pairwise (·.deadline ≤ ·.deadline)

theorem place_perm (t : Timer) (ts : List Timer) : (place t ts).Perm (t :: ts) := by
  induction ts with
  | nil => exact .refl _
  | cons u us ih =>
    unfold place
    split
    · exact .refl _
    · exact (ih.cons u).trans (.swap t u us)

theorem mem_place {t u : Timer} {ts : List Timer} : u ∈ place t ts ↔ u = t ∨ u ∈ ts := by
  rw [(place_perm t ts).mem_iff, List.mem_cons]

theorem inOrder_place {ts : List Timer} (h : InOrder ts) (t : Timer) : InOrder (place t ts) := by
  induction ts with
  | nil => exact List.pairwise_singleton ..
  | cons u us ih =>
    obtain ⟨hu, hus⟩ := List.pairwise_cons.1 h
    unfold place
    split
    next hlt =>
      refine List.pairwise_cons.2 ⟨fun v hv => ?_, h⟩
      rcases List.mem_cons.1 hv with rfl | hv
      · omega
      · have := hu v hv
        omega
    next hge =>
      refine List.pairwise_cons.2 ⟨fun v hv => ?_, ih hus⟩
      rcases mem_place.1 hv with rfl | hv
      · omega
      · exact hu v hv

theorem isArmed_eq_false_iff {ts : Timers} {id : Bytes} :
    ts.isArmed id = false ↔ id ∉ ts.list.map (·.id) := by
  simp [isArmed]

theorem deadline_of_mem_due {ts : Timers} {now : Int} {t : Timer} (h : t ∈ ts.due now) :
    t.deadline ≤ now := by
  simpa [isDue] using List.mem_takeWhile_imp h

/-- In order, nothing that is due comes later. -/
theorem mem_due {ts : Timers} (h : InOrder ts.list) {now : Int} {t : Timer} (ht : t ∈ ts.list)
    (hd : t.deadline ≤ now) : t ∈ ts.due now := by
  obtain ⟨list⟩ := ts
  change t ∈ list.takeWhile (isDue now)
  induction list with
  | nil => cases ht
  | cons u us ih =>
    obtain ⟨hu, hus⟩ := List.pairwise_cons.1 h
    have hdue : isDue now u = true := by
      rcases List.mem_cons.1 ht with rfl | ht
      · exact decide_eq_true hd
      · exact decide_eq_true (Int.le_trans (hu t ht) hd)
    rw [List.takeWhile_cons_of_pos hdue]
    rcases List.mem_cons.1 ht with rfl | ht
    · exact List.mem_cons_self
    · exact List.mem_cons_of_mem u (ih hus ht)

end Timers

/-! ### What an alarm holds -/

namespace Alarm

/-- An alarm without the timers of some ids. -/
def without (a : Alarm) (ids : List Bytes) : Alarm :=
  { a with timers := ⟨a.timers.list.filter fun t => !ids.contains t.id⟩ }

/-- An alarm once the next timer that was taken out is called back. -/
def rest (a : Alarm) : Alarm := { a with batch := a.batch.map List.tail }

variable {a : Alarm} {now : Int} {t : Timer}

theorem mem_without {ids : List Bytes} :
    t ∈ (a.without ids).timers.list ↔ t ∈ a.timers.list ∧ t.id ∉ ids := by
  simp [without]

@[simp] theorem without_nil (a : Alarm) : a.without [] = a := by
  simp [without]

theorem without_without (a : Alarm) (ids ids' : List Bytes) :
    (a.without ids).without ids' = a.without (ids ++ ids') := by
  simp only [without, List.filter_filter, List.contains_append, Bool.not_or, Bool.and_comm]

theorem cancel_eq (a : Alarm) (id : Bytes) : (a.cancel id).2 = a.without [id] := by
  have hone : (fun t : Timer => !([id] : List Bytes).contains t.id) = fun t => decide (t.id ≠ id) := by
    funext t
    by_cases h : t.id = id <;> simp [h]
  unfold cancel Timers.cancel?
  by_cases h : a.timers.isArmed id
  · simp only [h, if_true, without, hone]
  · have hid : ∀ t ∈ a.timers.list, t.id ≠ id := by simpa [Timers.isArmed] using h
    have hlist : a.timers.list.filter (fun t => decide (t.id ≠ id)) = a.timers.list :=
      List.filter_eq_self.2 fun t ht => decide_eq_true (hid t ht)
    simp only [h, without, hone, hlist]
    rfl

theorem next?_eq (a : Alarm) : a.next? = (a.batch.bind List.head?).map fun t => (t, a.rest) := by
  unfold next? rest
  obtain ⟨name, timers, running, batch⟩ := a
  rcases batch with _ | _ | ⟨t, ts⟩ <;> rfl

/-- Without a timer to call back, nothing is called back. -/
theorem rest_of_next?_eq_none (h : a.next? = none) : a.rest = a := by
  obtain ⟨name, timers, running, batch⟩ := a
  rcases batch with _ | _ | ⟨t, ts⟩
  · rfl
  · rfl
  · cases h

theorem batch_of_next? {a' : Alarm} (h : a.next? = some (t, a')) :
    t ∈ a.batch.getD [] ∧ a' = a.rest := by
  rw [next?_eq] at h
  obtain ⟨u, hu, h⟩ := Option.map_eq_some_iff.1 h
  obtain ⟨ts, hb, hts⟩ := Option.bind_eq_some_iff.1 hu
  cases h
  rw [hb]
  exact ⟨List.mem_of_head? hts, rfl⟩

theorem schedule_eq (a : Alarm) (t : Timer) : a.schedule t =
    if t.id ∈ a.timers.list.map (·.id) then (false, a)
    else (true, { a with timers := ⟨Timers.place t a.timers.list⟩ }) := by
  unfold schedule Timers.arm?
  by_cases h : t.id ∈ a.timers.list.map (·.id)
  · have harmed : a.timers.isArmed t.id = true := by
      rw [← Bool.not_eq_false, Timers.isArmed_eq_false_iff]
      exact not_not_intro h
    rw [if_pos h, if_pos harmed]
  · rw [if_neg h, if_neg (by rw [Timers.isArmed_eq_false_iff.2 h]; exact Bool.false_ne_true)]

@[simp] theorem timers_start (a : Alarm) : a.start.timers = a.timers := by
  unfold start
  split <;> rfl

@[simp] theorem timers_finish (a : Alarm) : a.finish.timers = a.timers := by
  unfold finish
  split <;> rfl

/-! ### What changes add -/

theorem batch_finish (a : Alarm) : a.finish.batch.getD [] = a.batch.getD [] := by
  unfold finish
  split
  next h => rw [h.2]; rfl
  · rfl

theorem batch_start (a : Alarm) : a.start.batch.getD [] = a.batch.getD [] := by
  unfold start
  split <;> rfl

theorem mem_batch_rest (h : t ∈ a.rest.batch.getD []) : t ∈ a.batch.getD [] := by
  obtain ⟨name, timers, running, batch⟩ := a
  rcases batch with _ | _ | ⟨u, us⟩
  · cases h
  · cases h
  · exact List.mem_cons_of_mem u h

theorem mem_timers_schedule {u : Timer} (h : t ∈ (a.schedule u).2.timers.list) :
    t = u ∨ t ∈ a.timers.list := by
  rw [schedule_eq] at h
  split at h
  · exact .inr h
  · exact Timers.mem_place.1 h

theorem batch_schedule (a : Alarm) (u : Timer) : (a.schedule u).2.batch = a.batch := by
  rw [schedule_eq]
  split <;> rfl

/-- A pass takes out only what is due, and moves nothing else. -/
theorem mem_batch_pass (h : t ∈ (a.pass now).batch.getD []) :
    t ∈ a.batch.getD [] ∨ t ∈ a.timers.list ∧ t.deadline ≤ now := by
  unfold pass at h
  split at h
  · exact .inr ⟨(List.takeWhile_sublist _).subset h, Timers.deadline_of_mem_due h⟩
  · exact .inl h

theorem mem_timers_pass (h : t ∈ (a.pass now).timers.list) : t ∈ a.timers.list := by
  unfold pass at h
  split at h
  · exact (List.dropWhile_sublist _).subset h
  · exact h

/-! ### An alarm between two passes -/

/-- Nothing is left to call back, and whoever has timers has a worker waiting for them. -/
structure Ready (a : Alarm) : Prop where
  inOrder : Timers.InOrder a.timers.list
  nodup_ids : (a.timers.list.map (·.id)).Nodup
  idle : a.batch.getD [] = []
  worker : a.running → a.batch = some []
  running : a.timers.list ≠ [] → a.running

namespace Ready

theorem make (name : Bytes) : (Alarm.make name).Ready :=
  ⟨.nil, List.nodup_nil, rfl, nofun, fun h => absurd rfl h⟩

theorem start (ha : a.Ready) : a.start.Ready ∧ a.start.running := by
  unfold Alarm.start
  split
  next hr => exact ⟨ha, hr⟩
  · exact ⟨⟨ha.inOrder, ha.nodup_ids, ha.idle, fun _ => congrArg some ha.idle, fun _ => rfl⟩, rfl⟩

theorem schedule (ha : a.Ready) (hr : a.running) (ht : t.id ∉ a.timers.list.map (·.id)) :
    (a.schedule t).1 = true ∧ (a.schedule t).2.Ready ∧ (a.schedule t).2.running ∧
      (a.schedule t).2.timers.list.Perm (t :: a.timers.list) := by
  rw [schedule_eq, if_neg ht]
  have hperm := Timers.place_perm t a.timers.list
  refine ⟨rfl, ⟨Timers.inOrder_place ha.inOrder t, ?_, ha.idle, ha.worker, fun _ => hr⟩, hr, hperm⟩
  exact (hperm.map _).nodup_iff.2 (List.nodup_cons.2 ⟨ht, ha.nodup_ids⟩)

/-- Fewer timers with the same worker. -/
theorem sublist (ha : a.Ready) {a' : Alarm} (hs : a'.timers.list.Sublist a.timers.list)
    (hb : a'.batch = a.batch) (hr : a'.running = a.running) : a'.Ready where
  inOrder := ha.inOrder.sublist hs
  nodup_ids := ha.nodup_ids.sublist (hs.map _)
  idle := hb ▸ ha.idle
  worker h := hb ▸ ha.worker (hr ▸ h)
  running h := hr ▸ ha.running fun hnil => h (List.sublist_nil.1 (hnil ▸ hs))

end Ready

/-- Arms timers one after the other, with a worker to wait for them. -/
def adoptAll (a : Alarm) (ts : List Timer) : Alarm := ts.foldl (fun a t => (a.start.schedule t).2) a

/-- All timers of other ids are adopted. -/
theorem Ready.adoptAll (ha : a.Ready) {ts : List Timer} (hts : (ts.map (·.id)).Nodup)
    (hnew : ∀ t ∈ ts, t.id ∉ a.timers.list.map (·.id)) :
    (a.adoptAll ts).Ready ∧ (a.adoptAll ts).timers.list.Perm (ts ++ a.timers.list) := by
  induction ts generalizing a with
  | nil => exact ⟨ha, .refl _⟩
  | cons t ts ih =>
    obtain ⟨ht, hts⟩ := List.nodup_cons.1 hts
    have hstart := ha.start
    have hfree : t.id ∉ a.start.timers.list.map (·.id) := by
      rw [timers_start]
      exact hnew t (by simp)
    obtain ⟨-, hready, -, hperm⟩ := hstart.1.schedule hstart.2 hfree
    rw [timers_start] at hperm
    have hrest : ∀ u ∈ ts, u.id ∉ (a.start.schedule t).2.timers.list.map (·.id) := by
      intro u hu
      rw [(hperm.map _).mem_iff, List.map_cons, List.mem_cons]
      rintro (hid | hid)
      · exact ht (List.mem_map.2 ⟨u, hu, hid⟩)
      · exact hnew u (by simp [hu]) hid
    obtain ⟨hall, hperm'⟩ := ih hready hts hrest
    exact ⟨hall, hperm'.trans ((hperm.append_left ts).trans List.perm_middle)⟩

end Alarm

end Interledger
