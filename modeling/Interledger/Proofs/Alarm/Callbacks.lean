import Interledger.Proofs.Alarm.Runs
import Mathlib.Data.List.Infix

/-! The callbacks of an alarm. What passes have taken out is called back once, in the order in
which it was taken out, and all of it before the worker passes again or ends, whatever callbacks
fail and whenever it is asked to end. Nothing is called back before its deadline, and timers that
were armed at one moment are called back in the order in which they stood then. -/

namespace Interledger.Alarm.Roll

open Timers (Entry Index)

variable {r r' : Roll} {now : Int} {s : Step} {name : Bytes}

/-! ### Each once -/

/-- The entries that were called back. -/
def calledBack (r : Roll) : List Entry := r.popped.take r.called.length

/-- What was taken out is called back or owed, and is not entered again. -/
structure Paid (r : Roll) : Prop where
  popped : r.popped.map (·.timer) = r.called.map (·.2) ++ r.owed
  nodup : ((r.popped ++ r.index.entries).map (·.handle)).Nodup
  fresh : ∀ e ∈ r.popped, e.handle < r.index.next

theorem paid_make (name : Bytes) : (make name).Paid := ⟨rfl, List.nodup_nil, nofun⟩

/-- Fewer entries with the same callbacks. -/
theorem Paid.sublist (hp : r.Paid) (hpopped : r'.popped = r.popped)
    (hcalled : r'.called = r.called) (howed : r'.owed = r.owed)
    (hs : r'.index.entries.Sublist r.index.entries) (hn : r'.index.next = r.index.next) :
    r'.Paid := by
  refine ⟨?_, ?_, fun e he => ?_⟩
  · rw [hpopped, hcalled, howed]
    exact hp.popped
  · rw [hpopped]
    exact hp.nodup.sublist ((hs.append_left _).map _)
  · rw [hn]
    exact hp.fresh e (hpopped ▸ he)

theorem Paid.of_turn (hp : r.Paid) (hr : r.Agrees) (h : r.Turn now s r') : r'.Paid := by
  have hpopped := hp.popped
  cases h with
  | still alarm ht hb => exact hp.sublist rfl rfl hb (.refl _) rfl
  | @armed t alarm index ha ht hb =>
    obtain ⟨-, -, rfl⟩ := Index.arm?_eq_some ha
    have hperm : (r.popped ++ Index.place ⟨r.index.next, t⟩ r.index.entries).Perm
        (⟨r.index.next, t⟩ :: (r.popped ++ r.index.entries)) :=
      ((Index.place_perm _ _).append_left _).trans List.perm_middle
    refine ⟨hpopped.trans (congrArg _ hb.symm), ?_, fun e he => ?_⟩
    · refine (hperm.map _).nodup_iff.2 (List.nodup_cons.2 ⟨fun hm => ?_, hp.nodup⟩)
      obtain ⟨e, he, heq⟩ := List.mem_map.1 hm
      have hlt : e.handle < r.index.next := by
        rcases List.mem_append.1 he with he | he
        · exact hp.fresh e he
        · exact hr.consistent.fresh e he
      exact hlt.ne heq
    · exact Nat.lt_succ_of_lt (hp.fresh e he)
  | cancelled he ht hb => exact hp.sublist rfl rfl hb List.filter_sublist rfl
  | drained => exact hp.sublist rfl rfl rfl (List.nil_sublist _) rfl
  | @popped alarm hidle ht hb =>
    have hsplit := Index.entries_pop r.index now
    have hnone : r.owed = [] := congrArg (·.getD []) hidle
    refine ⟨?_, ?_, fun e he => ?_⟩
    · rw [List.map_append, hpopped, hnone, List.append_nil, owed, hb]
      rfl
    · rw [List.append_assoc, hsplit]
      exact hp.nodup
    · rw [Index.next_pop]
      rcases List.mem_append.1 he with he | he
      · exact hp.fresh e he
      · exact hr.consistent.fresh e (hsplit ▸ List.mem_append_left _ he)
  | called log hb =>
    refine ⟨?_, hp.nodup, hp.fresh⟩
    rw [hpopped, owed, hb]
    simp [owed]

theorem paid_run (name : Bytes) (steps : List (Int × Step)) : (run name steps).Paid :=
  run_induction name [] steps (paid_make name) fun _ _ _ _ hr hp h => hp.of_turn hr h

theorem Paid.length_popped (hp : r.Paid) : r.popped.length = r.called.length + r.owed.length := by
  simpa using congrArg List.length hp.popped

theorem Paid.map_calledBack (hp : r.Paid) : r.calledBack.map (·.timer) = r.called.map (·.2) := by
  have hlength : r.called.length = (r.called.map (·.2)).length := by rw [List.length_map]
  rw [calledBack, List.map_take, hp.popped, hlength, List.take_left]

theorem Paid.calledBack_eq (hp : r.Paid) (h : r.owed = []) : r.calledBack = r.popped := by
  have hlength := hp.length_popped
  rw [h, List.length_nil, Nat.add_zero] at hlength
  rw [calledBack, ← hlength, List.take_length]

/-- A worker that owes a callback does not pass and does not end. -/
theorem pass_of_owed (h : r.owed ≠ []) (now : Int) : r.alarm.pass now = r.alarm :=
  if_neg fun hidle => h (congrArg (·.getD []) hidle.2)

theorem finish_of_owed (h : r.owed ≠ []) : r.alarm.finish = r.alarm :=
  if_neg fun hidle => h (congrArg (·.getD []) hidle.2)

/-! ### From one moment on -/

/-- What is taken out after a moment stands behind what was taken out before; and the entries
of that moment leave, and remain, in the order in which they stood. -/
structure Later (r r' : Roll) : Prop where
  next_le : r.index.next ≤ r'.index.next
  popped : ∃ out, r'.popped = r.popped ++ out ∧
    ((out ++ r'.index.entries).filter (· ∈ r.index.entries)).Sublist r.index.entries

theorem later_refl (r : Roll) : r.Later r where
  next_le := Nat.le_refl _
  popped := ⟨[], (List.append_nil _).symm, List.filter_sublist⟩

/-- Fewer entries, with nothing taken out. -/
theorem Later.sublist {r₀ : Roll} (hl : r₀.Later r) (hpopped : r'.popped = r.popped)
    (hs : r'.index.entries.Sublist r.index.entries) (hn : r'.index.next = r.index.next) :
    r₀.Later r' := by
  obtain ⟨out, hout, hsub⟩ := hl.popped
  exact ⟨hl.next_le.trans_eq hn.symm, out, hpopped.trans hout,
    ((hs.append_left out).filter _).trans hsub⟩

theorem Later.of_turn {r₀ : Roll} (hr₀ : r₀.Agrees) (hl : r₀.Later r) (h : r.Turn now s r') :
    r₀.Later r' := by
  cases h with
  | still => exact hl.sublist rfl (.refl _) rfl
  | @armed t alarm index ha ht hb =>
    obtain ⟨-, -, rfl⟩ := Index.arm?_eq_some ha
    obtain ⟨hnext, out, hout, hsub⟩ := hl
    -- The same timer may stand there already, but not under a handle that is given now.
    have hnew : (⟨r.index.next, t⟩ : Entry) ∉ r₀.index.entries := fun he =>
      (hr₀.consistent.fresh _ he).not_ge hnext
    refine ⟨Nat.le_succ_of_le hnext, out, hout, ?_⟩
    rw [List.filter_append] at hsub ⊢
    rw [Index.filter_place (by simpa using hnew)]
    exact hsub
  | cancelled => exact hl.sublist rfl List.filter_sublist rfl
  | drained => exact hl.sublist rfl (List.nil_sublist _) rfl
  | popped =>
    obtain ⟨hnext, out, hout, hsub⟩ := hl
    refine ⟨hnext.trans_eq (Index.next_pop _ _).symm, out ++ r.index.due now, ?_, ?_⟩
    · rw [hout, List.append_assoc]
    · rw [List.append_assoc, Index.entries_pop]
      exact hsub
  | called => exact hl.sublist rfl (.refl _) rfl

theorem later_run (name : Bytes) (steps more : List (Int × Step)) :
    (run name steps).Later (run name (steps ++ more)) :=
  run_induction name steps more (later_refl _)
    fun _ _ _ _ _ hl h => hl.of_turn (agrees_run name steps) h

/-- What was taken out before a moment is no entry of that moment. -/
theorem filter_popped (hp : r.Paid) : r.popped.filter (· ∈ r.index.entries) = [] := by
  have hdisjoint := hp.nodup
  rw [List.map_append] at hdisjoint
  refine List.filter_eq_nil_iff.2 fun e he hm => ?_
  exact List.disjoint_of_nodup_append hdisjoint (List.mem_map_of_mem he)
    (List.mem_map_of_mem (of_decide_eq_true hm))

theorem calledBack_sublist (name : Bytes) (steps more : List (Int × Step)) :
    ((run name (steps ++ more)).calledBack.filter (· ∈ (run name steps).index.entries)).Sublist
      (run name steps).index.entries := by
  obtain ⟨-, out, hout, hsub⟩ := later_run name steps more
  refine ((List.take_sublist _ _).filter _).trans ?_
  rw [hout, List.filter_append, filter_popped (paid_run name steps), List.nil_append]
  exact ((List.sublist_append_left out _).filter _).trans hsub

/-- A step makes a callback just when it is the worker's turn and one is owed. -/
theorem Turn.length_called (h : r.Turn now s r') : r'.called.length =
    r.called.length + if s.isCallBack ∧ r.owed ≠ [] then 1 else 0 := by
  cases h with
  | still alarm ht hb hs =>
    have hnot : ¬(s.isCallBack ∧ r.owed ≠ []) := by
      rcases hs with hs | hs <;> simp [hs]
    rw [if_neg hnot]
    rfl
  | called log hb =>
    have howed : r.owed ≠ [] := by simp [owed, hb]
    rw [if_pos ⟨rfl, howed⟩, List.length_append, List.length_singleton]
  | armed | cancelled | drained | popped => rfl

/-- As many callbacks are made as the worker has turns, until what it owed is paid. -/
theorem length_called (name : Bytes) (steps more : List (Int × Step)) :
    min (run name steps).popped.length
        ((run name steps).called.length + more.countP (·.2.isCallBack)) ≤
      (run name (steps ++ more)).called.length := by
  induction more using List.reverseRecOn with
  | nil =>
    rw [List.append_nil, List.countP_nil]
    exact Nat.min_le_right ..
  | append_singleton more s ih =>
    have hstep := (turn_run name (steps ++ more) s).length_called
    have hpaid := (paid_run name (steps ++ more)).length_popped
    obtain ⟨-, out, hout, -⟩ := later_run name steps more
    have hout := congrArg List.length hout
    rw [List.length_append] at hout
    rw [← List.append_assoc, hstep, List.countP_append, List.countP_singleton]
    by_cases howed : (run name (steps ++ more)).owed = []
    · -- A turn with nothing owed adds no callback: all that was taken out has had its own.
      rw [howed, List.length_nil] at hpaid
      omega
    · by_cases hs : s.2.isCallBack
      · rw [if_pos hs, if_pos ⟨hs, howed⟩]
        omega
      · rw [if_neg hs, if_neg fun h => hs h.1]
        exact ih

/-- Whatever comes between them, callbacks pay what is owed. -/
theorem popped_calledBack {name : Bytes} {steps more : List (Int × Step)}
    (h : (run name steps).owed.length ≤ more.countP (·.2.isCallBack)) :
    (run name steps).popped <+: (run name (steps ++ more)).calledBack := by
  have hcalled := length_called name steps more
  have hpaid := (paid_run name steps).length_popped
  obtain ⟨-, out, hout, -⟩ := later_run name steps more
  refine List.prefix_take_iff.2 ⟨⟨out, hout.symm⟩, ?_⟩
  omega

/-! ### Failing callbacks -/

theorem next_quiet (r : Roll) (now : Int) (s : Step) :
    { r with log := [] }.next now s.quiet = { r.next now s with log := [] } := by
  cases s with
  | pass =>
    simp only [next, Step.quiet]
    split <;> rfl
  | callBack failure =>
    simp only [next, Step.quiet]
    cases r.alarm.next? <;> rfl
  | start | halt | finish | schedule | cancel | drain | pending => rfl

theorem run_quiet (name : Bytes) (steps : List (Int × Step)) :
    run name (steps.map fun s => (s.1, s.2.quiet)) = { run name steps with log := [] } := by
  induction steps using List.reverseRecOn with
  | nil => rfl
  | append_singleton steps s ih =>
    rw [List.map_append, List.map_singleton, run_concat, run_concat, ih, next_quiet]

/-! ### In time -/

/-- A pass takes out what is due, and only what is owed is called back. -/
theorem Turn.deadlines (h : r.Turn now s r') (howed : ∀ t ∈ r.owed, t.deadline ≤ now) :
    (∀ t ∈ r'.owed, t.deadline ≤ now) ∧ ∀ p ∈ r'.called, p ∈ r.called ∨ p.2.deadline ≤ p.1 := by
  cases h with
  | still alarm ht hb | armed ha ht hb | cancelled he ht hb =>
    exact ⟨fun t h => howed t (hb ▸ h), fun _ => .inl⟩
  | drained => exact ⟨howed, fun _ => .inl⟩
  | popped hidle ht hb =>
    refine ⟨fun t h => ?_, fun _ => .inl⟩
    rw [owed, hb, Index.map_timer_due] at h
    exact Timers.deadline_of_mem_due h
  | @called t ts failure log hb =>
    have hts : ∀ u ∈ t :: ts, u.deadline ≤ now := fun u hu => howed u (by rwa [owed, hb])
    refine ⟨fun u hu => hts u (List.mem_cons_of_mem t hu), fun p hp => ?_⟩
    rcases List.mem_append.1 hp with hp | hp
    · exact .inl hp
    · cases List.mem_singleton.1 hp
      exact .inr (hts t List.mem_cons_self)

/-- What the worker owes was due at some reading of the clock; as the clock does not go back,
nothing is called back before its deadline. -/
theorem deadlines_run {steps : List (Int × Step)} (hclock : (steps.map (·.1)).Pairwise (· ≤ ·)) :
    (∀ t ∈ (run name steps).owed, ∃ s ∈ steps, t.deadline ≤ s.1) ∧
      ∀ p ∈ (run name steps).called, p.2.deadline ≤ p.1 := by
  induction steps using List.reverseRecOn with
  | nil => exact ⟨nofun, nofun⟩
  | append_singleton steps s ih =>
    rw [List.map_append, List.pairwise_append] at hclock
    obtain ⟨hbefore, -, hlast⟩ := hclock
    obtain ⟨howed, hcalled⟩ := ih hbefore
    have hdue : ∀ t ∈ (run name steps).owed, t.deadline ≤ s.1 := by
      intro t ht
      obtain ⟨u, hu, hd⟩ := howed t ht
      exact Int.le_trans hd (hlast _ (List.mem_map_of_mem hu) _ List.mem_cons_self)
    obtain ⟨howed', hcalled'⟩ := (turn_run name steps s).deadlines hdue
    exact ⟨fun t ht => ⟨s, by simp, howed' t ht⟩, fun p hp => (hcalled' p hp).elim (hcalled p) id⟩

/-! ### In order -/

/-- Every timer that is taken out is called back once, before the worker takes out more or ends,
whatever comes between; without the failures of callbacks the run is the same up to the log.
Nothing is called back before its deadline; and of the timers that are armed at one moment those
that are called back come in the order of their deadlines, and then of arming. -/
theorem callbacks_in_order (name : Bytes) {steps more : List (Int × Step)}
    (hclock : ((steps ++ more).map (·.1)).Pairwise (· ≤ ·)) :
    let r := run name steps
    let r' := run name (steps ++ more)
    (r.calledBack.map (·.timer) = r.called.map (·.2) ∧
      r.popped.map (·.timer) = r.called.map (·.2) ++ r.owed ∧ (r.popped.map (·.handle)).Nodup) ∧
    (r.owed ≠ [] → (∀ now, r.alarm.pass now = r.alarm) ∧ r.alarm.finish = r.alarm) ∧
    (r.owed = [] → r.calledBack = r.popped) ∧
    (r.owed.length ≤ more.countP (·.2.isCallBack) → r.popped <+: r'.calledBack) ∧
    run name (steps.map fun s => (s.1, s.2.quiet)) = { r with log := [] } ∧
    (∀ p ∈ r'.called, p.2.deadline ≤ p.1) ∧
    (r'.calledBack.filter (· ∈ r.index.entries)).Pairwise Entry.Precedes := by
  intro r r'
  have hpaid : r.Paid := paid_run name steps
  have hnodup := hpaid.nodup
  rw [List.map_append] at hnodup
  exact ⟨⟨hpaid.map_calledBack, hpaid.popped, hnodup.of_append_left⟩,
    fun h => ⟨pass_of_owed h, finish_of_owed h⟩, hpaid.calledBack_eq, popped_calledBack,
    run_quiet name steps, (deadlines_run hclock).2,
    (agrees_run name steps).consistent.precedes.sublist (calledBack_sublist name steps more)⟩

/-- Up to the moment at which one timer is owed and two more are armed. -/
def sampleSteps : List (Int × Step) := [
  (1, .start), (1, .schedule ⟨"b", 5⟩), (2, .schedule ⟨"c", 5⟩), (2, .schedule ⟨"a", 3⟩), (3, .pass)]

/-- The callback fails, its id is armed anew, and a stopped worker is set going again. -/
def sampleMore : List (Int × Step) := [
  (3, .halt), (3, .callBack (some "failure")), (4, .schedule ⟨"a", 6⟩), (4, .finish), (5, .start),
  (5, .pass), (5, .callBack none), (6, .pass), (6, .callBack none), (6, .pass)]

theorem callbacks_in_order_restarted :
    ((sampleSteps ++ sampleMore).map (·.1)).Pairwise (· ≤ ·) ∧
    let r := run "alarm" sampleSteps
    let r' := run "alarm" (sampleSteps ++ sampleMore)
    r.owed = [⟨"a", 3⟩] ∧ r.index.entries.map (·.timer.id) = ["b", "c"] ∧
      r.popped <+: r'.calledBack ∧ r'.called = [(3, ⟨"a", 3⟩), (5, ⟨"b", 5⟩), (6, ⟨"c", 5⟩)] ∧
      (r'.calledBack.filter (· ∈ r.index.entries)).Pairwise Entry.Precedes := by
  have hclock : ((sampleSteps ++ sampleMore).map (·.1)).Pairwise (· ≤ ·) := by decide
  have howed : (run "alarm" sampleSteps).owed.length ≤
      sampleMore.countP (·.2.isCallBack) := by decide +kernel
  obtain ⟨-, -, -, hpaid, -, -, horder⟩ := callbacks_in_order "alarm" hclock
  exact ⟨hclock, by decide +kernel, by decide +kernel, hpaid howed, by decide +kernel, horder⟩

end Interledger.Alarm.Roll
