import Interledger.Proofs.Hub.Runs
import Interledger.Proofs.Ledger.Callbacks

/-! What the listeners of a hub are called with. Whoever calls the ledger, directly or through
adaptors, a listener that attends the run receives one callback for each change of state in
the journal, in its order. -/

namespace Interledger.Hub

open Ledger (Chronicle)
open Change Notice

variable {η : Type} {info : LedgerInfo} {l : Ledger}

/-- A listener attends a run of a hub when it attends what is asked of the ledger. -/
def Attends (l : Ledger) (steps : List (Int × Step η)) (w : Listener) : Prop :=
  Chronicle.Attends l (asked (make l) steps) w

theorem filter_isAbout (id : Bytes) (ns : List Notice) :
    (ns.filter (·.transfer?.isSome)).filter (·.isAbout id) = ns.filter (·.isAbout id) := by
  rw [List.filter_filter]
  apply List.filter_congr
  intro n _
  unfold isAbout
  cases n.transfer? <;> simp

/-- The callbacks that a listener attending a run has received are the changes of state in
the journal, with the accepted transfers: one for each, in order, the same for every such
listener. Of each transfer it is told that it was prepared and how it ended, or that it was
declined. A call that fails and an expiry that comes too late make no callback; a funded
transfer without a condition is prepared and executed at once. -/
theorem callbacks_follow_journal (hl : Ledger.make info = .ok l) (steps : List (Int × Step η))
    {w : Listener} (hw : Attends l steps w) :
    let h := run l steps
    let c := chronicle l steps
    c.ledger = h.ledger ∧
    (∀ name, (h.told.filter (·.1 = name)).map (·.2) = (Listener.outside name).received c.callbacks) ∧
    (∀ now (s : Ledger.Step) k, (h.onLedger fun l => s.perform now l).2.adaptors.get? k =
      (h.adaptors.get? k).map fun a =>
        ((Listener.adaptor k).received (s.perform now h.ledger).2.callbacks).foldl
          (fun a n => (a.hear n).2) a) ∧
    h.ledger.book.journal.entries =
      c.written.filter (fun e => (h.ledger.book.find? e.id).isSome) ∧
    (∀ id, endState? c.written id = h.ledger.book.stateOf? id) ∧
    (c.accepted.map (·.id)).Nodup ∧
    List.Forall₂ (Tells c.accepted) (ofEntries [] c.written) (c.heard w) ∧
    (∀ w', Attends l steps w' → c.heard w' = c.heard w) ∧
    (∀ id, Story c.accepted id (h.ledger.book.stateOf? id) ((c.heard w).filter (·.isAbout id))) ∧
    (∀ now s e, (s.perform now c.ledger).1 = .error e → (c.next now s).callbacks = c.callbacks) ∧
    (∀ now id, (c.ledger.expire now id).1 = .ok false →
      (c.next now (.expire id)).callbacks = c.callbacks) ∧
    (∀ now t st, t.condition = none → (c.ledger.prepare now t).1 = .ok st → st ≠ .rejected →
      (c.next now (.prepare t)).heard w = c.heard w ++ [.prepared t, .executed t none]) := by
  intro h c
  obtain ⟨hledger, htold⟩ := run_eq_chronicle hl steps
  have hsound : c.ledger.Sound := hledger ▸ sound_run hl steps
  have hc : c.Narrated := Chronicle.narrated_run hl _
  obtain ⟨hsession, hheard⟩ := Chronicle.heard_eq_told hl hw
  refine ⟨hledger.symm, fun name => ?_, fun now s k => get?_adaptors_publish _ k, ?_,
    hledger ▸ hc.states, (Chronicle.filed_run hl _).nodup_ids, ?_, fun w' hw' => ?_, fun id => ?_,
    fun now s e => Chronicle.callbacks_next_of_error hsound hc,
    fun now id => Chronicle.callbacks_next_of_lost hsound hc,
    fun now t st => Chronicle.heard_next_of_unconditional hsound hc hsession⟩
  · rw [htold]
    exact received_outsideCalls name _
  · rw [hledger]
    exact hc.journal
  · exact hheard.symm ▸ hc.told
  · exact (Chronicle.heard_eq_told hl hw').2.trans hheard.symm
  · have hid := hc.stories id
    rw [← filter_isAbout] at hid
    rw [hledger]
    exact hheard.symm ▸ hid

/-- A listener from outside watches a payment between two adaptors. -/
def sampleWatched : List (Int × Step Unit) :=
  (0, .ledger (.addAccount Ledger.Sample.alice "Alice" 100)) ::
  (0, .ledger (.attach Ledger.Sample.alice (.outside "w"))) ::
  (0, .ledger (.addAccount Ledger.Sample.bob "Bob" 0)) ::
  [(1, .openAdaptor Ledger.Sample.alice), (1, .openAdaptor Ledger.Sample.bob), (1, .connect 0),
    (1, .connect 1), (2, .sendTransfer 0 (Ledger.Sample.locked 'p')),
    (3, .fulfillCondition 1 "p" Ledger.Sample.preimage)]

theorem callbacks_follow_journal_watched :
    Ledger.make Ledger.Sample.ledger.info = .ok Ledger.Sample.ledger ∧
    Attends Ledger.Sample.ledger sampleWatched (.outside "w") ∧
    ((chronicle Ledger.Sample.ledger sampleWatched).heard (.outside "w")).length = 2 := by
  have hl : Ledger.make Ledger.Sample.ledger.info = .ok Ledger.Sample.ledger := rfl
  have hw : Attends Ledger.Sample.ledger sampleWatched (.outside "w") := by
    refine ⟨[(0, .addAccount Ledger.Sample.alice "Alice" 100)], 0, Ledger.Sample.alice,
      [(0, .addAccount Ledger.Sample.bob "Bob" 0), (1, .attach Ledger.Sample.alice (.adaptor 0)),
        (1, .attach Ledger.Sample.bob (.adaptor 1)), (2, .prepare (Ledger.Sample.locked 'p')),
        (3, .fulfill "p" Ledger.Sample.bob Ledger.Sample.preimage)], rfl, by simp, rfl, by simp⟩
  obtain ⟨-, -, -, -, -, -, hchanges, -⟩ := callbacks_follow_journal hl sampleWatched hw
  exact ⟨hl, hw, hchanges.length_eq.symm.trans (by decide +kernel)⟩

end Interledger.Hub
