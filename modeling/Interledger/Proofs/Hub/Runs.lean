import Interledger.Proofs.Hub.Steps

/-! Runs of a hub.

What a run asks of the ledger is a run of the ledger, and the hub's ledger is the one that
it ends in: all that holds of the runs of a ledger holds of the ledger of a hub, whoever
calls it. A call that fails leaves the whole hub as it was. -/

namespace Interledger.Hub

open Ledger (Chronicle)

variable {η : Type}

/-- The hub after some steps, each with a reading of the clock. -/
def after (h : Hub η) (steps : List (Int × Step η)) : Hub η :=
  steps.foldl (fun h s => (s.2.perform s.1 h).2) h

/-- A run from a new ledger without adaptors. -/
def run (l : Ledger) (steps : List (Int × Step η)) : Hub η := (make l).after steps

/-- What some steps ask of the ledger. -/
def asked (h : Hub η) : List (Int × Step η) → List (Int × Ledger.Step)
  | [] => []
  | s :: ss => ((s.2.call? h).map fun c => (s.1, c)).toList ++ asked (s.2.perform s.1 h).2 ss

/-- The chronicle of the ledger of a run. -/
def chronicle (l : Ledger) (steps : List (Int × Step η)) : Chronicle :=
  .run l (asked (make l) steps)

@[simp] theorem run_concat (l : Ledger) (steps : List (Int × Step η)) (s : Int × Step η) :
    run l (steps ++ [s]) = (s.2.perform s.1 (run l steps)).2 := by
  simp [run, after]

theorem after_append (h : Hub η) (steps steps' : List (Int × Step η)) :
    h.after (steps ++ steps') = (h.after steps).after steps' :=
  List.foldl_append ..

theorem asked_concat (h : Hub η) (steps : List (Int × Step η)) (s : Int × Step η) :
    asked h (steps ++ [s]) =
      asked h steps ++ ((s.2.call? (h.after steps)).map fun c => (s.1, c)).toList := by
  induction steps generalizing h with
  | nil => exact List.append_nil _
  | cons r steps ih =>
    rw [List.cons_append, asked, ih, asked, List.append_assoc]
    rfl

theorem chronicle_concat (l : Ledger) (steps : List (Int × Step η)) (now : Int) (s : Step η) :
    chronicle l (steps ++ [(now, s)]) = (s.call? (run l steps)).elim (chronicle l steps)
      fun c => (chronicle l steps).next now c := by
  rw [chronicle, asked_concat]
  show Chronicle.run l (_ ++ ((s.call? (run l steps)).map _).toList) = _
  cases s.call? (run l steps) with
  | none => exact congrArg _ (List.append_nil _)
  | some c => exact Chronicle.run_concat ..

/-! ### Taking an adaptor out of service -/

theorem fireOwed_eq (h : Hub η) (now : Int) (k : Nat) :
    h.fireOwed now k = h.after ((h.owed k).map fun _ => (now, .fireTimer k)) := by
  rw [after, List.foldl_map]
  rfl

/-- The timers that an adaptor has to hand over. -/
def handed (h : Hub η) (k : Nat) : List Timer :=
  (h.adaptors.get? k).elim [] fun a => a.alarm.finish.drain.1

theorem handOver_eq (h : Hub η) (now : Int) (k : Nat) : h.handOver k =
    (h.drainTimers k).after ((h.handed k).map fun t => (now, .ledger (.adopt t))) := by
  rw [handOver, drainTimers, handed, after, List.foldl_map]
  cases h.adaptors.get? k with
  | none => rfl
  | some a => rfl

/-- The steps of taking an adaptor out of service. -/
def retireSteps (h : Hub η) (now : Int) (k : Nat) : List (Int × Step η) :=
  let halted := (h.disconnect k).haltTimers k
  [(now, .disconnect k), (now, .haltTimers k)] ++
    (halted.owed k).map (fun _ => (now, .fireTimer k)) ++ [(now, .drainTimers k)] ++
    ((halted.fireOwed now k).handed k).map (fun t => (now, .ledger (.adopt t))) ++
    [(now, .closeCourier k)]

theorem retire_eq (h : Hub η) (now : Int) (k : Nat) :
    h.retire now k = h.after (h.retireSteps now k) := by
  let halted := (h.disconnect k).haltTimers k
  let fired := halted.fireOwed now k
  have hfired : h.after ([(now, .disconnect k), (now, .haltTimers k)] ++
      (halted.owed k).map fun _ => (now, .fireTimer k)) = fired := by
    rw [after_append]
    exact (fireOwed_eq halted now k).symm
  calc h.retire now k = (fired.handOver k).closeCourier k := rfl
    _ = ((fired.drainTimers k).after
          ((fired.handed k).map fun t => (now, .ledger (.adopt t)))).closeCourier k := by
        rw [handOver_eq]
    _ = h.after (h.retireSteps now k) := by
        rw [retireSteps, after_append, after_append, after_append, hfired]
        rfl

/-! ### What a step does to the ledger -/

section
variable {h h' : Hub η} {now : Int} {call : Option Ledger.Step}
  {answer : Except Error Ledger.Answer}

theorem Effect.ledger_eq (he : h.Effect now call answer h') : h'.ledger =
    call.elim h.ledger fun c => (c.perform now h.ledger).2.quiet := by
  cases he with
  | refused e => rfl
  | aside _ ha => exact ha.ledger
  | failed hc => exact ledger_publish _
  | @passed c h₁ h₂ _ ha hb =>
    rw [hb.ledger, onLedger, ledger_publish, ha.ledger]
    rfl

theorem Effect.told_eq (he : h.Effect now call answer h') : h'.told =
    h.told ++ call.elim [] fun c => outsideCalls (c.perform now h.ledger).2.callbacks := by
  cases he with
  | refused e => exact (List.append_nil _).symm
  | aside _ ha => exact ha.told.trans (List.append_nil _).symm
  | failed hc => exact told_publish _
  | @passed c h₁ h₂ _ ha hb =>
    rw [hb.told, onLedger, told_publish, ha.ledger, ha.told]
    rfl

end

section
variable {info : LedgerInfo} {l : Ledger}

theorem quiet_chronicle (hl : Ledger.make info = .ok l) (steps : List (Int × Step η)) :
    (chronicle l steps).ledger.quiet = (chronicle l steps).ledger := by
  unfold chronicle
  induction asked (make l) steps using List.reverseRecOn with
  | nil =>
    rw [Ledger.make_eq_ok hl]
    rfl
  | append_singleton steps s ih =>
    rw [Chronicle.run_concat]
    rfl

/-- The hub's ledger is the one of the chronicle, and listeners that are no adaptors were
told what the chronicle says. -/
theorem run_eq_chronicle (hl : Ledger.make info = .ok l) (steps : List (Int × Step η)) :
    (run l steps).ledger = (chronicle l steps).ledger ∧
      (run l steps).told = outsideCalls (chronicle l steps).callbacks := by
  induction steps using List.reverseRecOn with
  | nil => exact ⟨rfl, rfl⟩
  | append_singleton steps s ih =>
    obtain ⟨hledger, htold⟩ := ih
    have hq : (run l steps).Quiet := by
      rw [Quiet, hledger]
      exact quiet_chronicle hl steps
    have he := perform_effect hq s.1 s.2
    rw [run_concat, he.ledger_eq, he.told_eq, chronicle_concat]
    cases s.2.call? (run l steps) with
    | none => exact ⟨hledger, (List.append_nil _).trans htold⟩
    | some c =>
      simp only [Option.elim_some, hledger, htold]
      refine ⟨rfl, ?_⟩
      rw [← outsideCalls_append]
      rfl

theorem quiet_run (hl : Ledger.make info = .ok l) (steps : List (Int × Step η)) :
    (run l steps).Quiet := by
  rw [Quiet, (run_eq_chronicle hl steps).1]
  exact quiet_chronicle hl steps

theorem sound_run (hl : Ledger.make info = .ok l) (steps : List (Int × Step η)) :
    (run l steps).ledger.Sound := by
  rw [(run_eq_chronicle hl steps).1]
  exact Chronicle.sound_run (Ledger.sound_of_make hl) _

/-- What was accepted stays accepted, and so is what is prepared without an error. -/
theorem accepted_concat (hl : Ledger.make info = .ok l) (steps : List (Int × Step η)) (now : Int)
    (s : Step η) :
    (∀ t ∈ (chronicle l steps).accepted, t ∈ (chronicle l (steps ++ [(now, s)])).accepted) ∧
    ∀ t st, s.call? (run l steps) = some (.prepare t) →
      ((run l steps).ledger.prepare now t).1 = .ok st →
        t ∈ (chronicle l (steps ++ [(now, s)])).accepted := by
  rw [chronicle_concat]
  refine ⟨fun t ht => ?_, fun t st hcall hp => ?_⟩
  · cases s.call? (run l steps) with
    | none => exact ht
    | some c => exact List.mem_append_left _ ht
  · rw [(run_eq_chronicle hl steps).1] at hp
    rw [hcall, Option.elim_some]
    refine List.mem_append_right _ ?_
    simp [Ledger.Step.perform, hp, Except.map, Chronicle.acceptance]

/-- The callbacks that one more step makes. -/
theorem callbacks_concat (hl : Ledger.make info = .ok l) (steps : List (Int × Step η)) (now : Int)
    (s : Step η) : (chronicle l (steps ++ [(now, s)])).callbacks =
      (chronicle l steps).callbacks ++ (s.call? (run l steps)).elim []
        fun c => (c.perform now (run l steps).ledger).2.callbacks := by
  rw [chronicle_concat, (run_eq_chronicle hl steps).1]
  cases s.call? (run l steps) with
  | none => exact (List.append_nil _).symm
  | some c => rfl

/-! ### Calls that fail -/

/-- A failing call on the ledger, at whatever depth it fails, leaves it as it was. -/
theorem Effect.ledger_eq_of_error {h h' : Hub η} (hs : h.ledger.Sound) {now : Int}
    {c : Ledger.Step} {e : Error} (he : h.Effect now (some c) (.error e) h') :
    (c.perform now h.ledger).2 = h.ledger := by
  cases he with
  | failed hc =>
    have hl := Ledger.perform_effect hs now c
    rw [hc] at hl
    exact hl.eq_of_error

theorem Effect.eq_of_error {h h' : Hub η} (hq : h.Quiet) (hs : h.ledger.Sound) {now : Int}
    {call : Option Ledger.Step} {e : Error} (he : h.Effect now call (.error e) h') : h' = h := by
  have hl := he
  cases he with
  | refused => rfl
  | failed hc =>
    rw [onLedger, hl.ledger_eq_of_error hs]
    exact publish_of_quiet hq

/-- A call that fails changes nothing: no account, session, record or timer, no queue of an
adaptor, and no listener is called. -/
theorem perform_eq_of_error (hl : Ledger.make info = .ok l) (steps : List (Int × Step η)) (now : Int)
    (s : Step η) {e : Error} (he : (s.perform now (run l steps)).1 = .error e) :
    (s.perform now (run l steps)).2 = run l steps ∧
      (chronicle l (steps ++ [(now, s)])).callbacks = (chronicle l steps).callbacks := by
  have hs := perform_effect (quiet_run hl steps) now s
  rw [he] at hs
  refine ⟨hs.eq_of_error (quiet_run hl steps) (sound_run hl steps), ?_⟩
  rw [callbacks_concat hl]
  cases hc : s.call? (run l steps) with
  | none => exact List.append_nil _
  | some c =>
    rw [hc] at hs
    have hnil : (run l steps).ledger.notices = [] := by
      rw [← quiet_run hl steps]
      rfl
    simp only [Option.elim_some, hs.ledger_eq_of_error (sound_run hl steps), Ledger.callbacks, hnil]
    exact List.append_nil _

end

/-- Two adaptors, and a transfer from one to the other in escrow. -/
def sampleSent : List (Int × Step Unit) := Ledger.Sample.setUp.map (fun s => (s.1, .ledger s.2)) ++
  [(1, .openAdaptor Ledger.Sample.alice), (1, .openAdaptor Ledger.Sample.bob), (1, .connect 0),
    (1, .connect 1), (2, .sendTransfer 0 (Ledger.Sample.locked 'p'))]

/-- The book refuses an id that it knows, and nothing has happened. -/
theorem perform_eq_of_error_known :
    Ledger.make Ledger.Sample.ledger.info = .ok Ledger.Sample.ledger ∧
    let h := run Ledger.Sample.ledger sampleSent
    let s := Step.sendTransfer 0 (Ledger.Sample.locked 'p')
    (s.perform 3 h).1 = .error (.transferKnown "p") ∧ (s.perform 3 h).2 = h ∧
      (chronicle Ledger.Sample.ledger (sampleSent ++ [(3, s)])).callbacks =
        (chronicle Ledger.Sample.ledger sampleSent).callbacks := by
  have hl : Ledger.make Ledger.Sample.ledger.info = .ok Ledger.Sample.ledger := rfl
  have he : ((Step.sendTransfer 0 (Ledger.Sample.locked 'p')).perform 3
      (run Ledger.Sample.ledger sampleSent)).1 = .error (.transferKnown "p") := rfl
  exact ⟨hl, he, perform_eq_of_error hl sampleSent 3 _ he⟩

end Interledger.Hub
