import Interledger.Proofs.Hub.Passes
import Interledger.Proofs.Ledger.Money

/-! Moves of a hub: a whole call, a whole pass of an alarm, or an adaptor that goes out of
service and leaves its timers to the ledger. A run of moves is a run of steps in which nothing
comes between the steps of one move. A watch keeps besides what was sent through which
adaptor, and a pass pays back to the senders what it lets expire. -/

namespace Interledger

open Ledger (Chronicle)

/-! ### What is paid back -/

namespace Ledger.Chronicle

/-- Whether a transfer in a state counts as paid back to an account at its deadline. -/
def refunds (a : Address) (s : TransferState) (t : Transfer) : Bool :=
  t.sender = a ∧ s = .expired

end Ledger.Chronicle

namespace Book

open Ledger.Chronicle (debits credits escrows refunds)

theorem total_perm {b : Book} {p : TransferState → Transfer → Bool} {ts us : List Transfer}
    (h : ts.Perm us) : b.total p ts = b.total p us :=
  ((h.filter _).map _).sum_eq

/-- What expires of the prepared transfers of a sender is debited no longer. -/
theorem total_debits_of_lapses {b b' : Book} {ids : List Bytes} (h : b.Lapses ids b') (a : Address)
    (ts : List Transfer) : b.total (debits a) ts = b'.total (debits a) ts +
      b'.total (refunds a) (ts.filter fun t => (b.stateOf? t.id).any (escrows · t)) := by
  induction ts with
  | nil => rfl
  | cons t ts ih =>
    rw [total_cons, total_cons, ih, List.filter_cons]
    have hescrow : (b.stateOf? t.id).any (escrows · t) ↔ b.stateOf? t.id = some .prepared := by
      cases hs : b.stateOf? t.id with
      | none => simp
      | some s => simp [escrows]
    rcases h.stateOf?_cases t.id with ⟨hst, hn⟩ | ⟨-, hp, hx⟩
    · by_cases hp : b.stateOf? t.id = some .prepared
      · rw [if_pos (hescrow.2 hp), total_cons, hst, hp]
        simp [debits, refunds]
        omega
      · rw [if_neg (mt hescrow.1 hp), hst]
        omega
    · rw [if_pos (hescrow.2 hp), total_cons, hp, hx]
      simp [debits, refunds]
      omega

theorem total_credits_of_lapses {b b' : Book} {ids : List Bytes} (h : b.Lapses ids b') (a : Address)
    (ts : List Transfer) : b'.total (credits a) ts = b.total (credits a) ts := by
  induction ts with
  | nil => rfl
  | cons t ts ih =>
    have hstate : (b'.stateOf? t.id).any (credits a · t) = (b.stateOf? t.id).any (credits a · t) := by
      rcases h.stateOf?_cases t.id with ⟨hst, -⟩ | ⟨-, hp, hx⟩
      · rw [hst]
      · simp [hp, hx, credits]
    rw [total_cons, total_cons, ih, hstate]

end Book

namespace Ledger.Chronicle

/-- When prepared transfers expire, the balances grow by what goes back to their senders. -/
theorem Balanced.balance?_of_lapses {c c' : Chronicle} (hc : c.Balanced) (hc' : c'.Balanced)
    (hl : c.ledger.Sound) (hf : c.Filed) (ha : c'.accepted = c.accepted) (ho : c'.opened = c.opened)
    {ids : List Bytes} (hb : c.ledger.book.Lapses ids c'.ledger.book) (a : Address) :
    c'.ledger.balance? a = (c.ledger.balance? a).map fun b =>
      b + c'.ledger.book.total (refunds a) c.ledger.book.prepared := by
  rw [hc.balance, hc'.balance, ha, ho, Option.map_map, Book.total_perm (prepared_perm hl hf),
    Book.total_debits_of_lapses hb, Book.total_credits_of_lapses hb]
  congr 1
  funext b
  simp only [Function.comp]
  omega

end Ledger.Chronicle

namespace Hub

variable {η : Type} {h : Hub η} {info : LedgerInfo} {l : Ledger}

/-! ### Moves -/

/-- Whether a step is a whole call, and no part of a pass or of what an adaptor does at its end. -/
def Step.isCall : Step η → Bool
  | ledger (.adopt _) | ledger .passAdopted | ledger .fireAdopted => false
  | passTimers _ | fireTimer _ | haltTimers _ | drainTimers _ | closeCourier _ | remove _ => false
  | _ => true

inductive Move (η : Type) where
  | call (s : Step η) (hs : s.isCall)
  | pass (o : Owner)
  | destroy (k : Nat)

namespace Move

/-- The hub that a move leaves. -/
def perform (now : Int) (h : Hub η) : Move η → Hub η
  | call s _ => (s.perform now h).2
  | pass o => h.pass now o
  | destroy k => (h.retire now k).remove k

/-- The steps of a move. -/
def steps (now : Int) (h : Hub η) : Move η → List (Int × Step η)
  | call s _ => [(now, s)]
  | pass o => h.passSteps now o
  | destroy k => h.retireSteps now k ++ [(now, .remove k)]

/-- What a move sends, with the adaptor that it is sent through. -/
def sends (now : Int) (h : Hub η) : Move η → List (Nat × Transfer)
  | call (.sendTransfer k t) _ => if (h.sendTransfer now k t).1.isOk then [(k, t)] else []
  | _ => []

theorem perform_eq (hq : h.Quiet) (now : Int) (m : Move η) :
    m.perform now h = h.after (m.steps now h) := by
  cases m with
  | call s hs => rfl
  | pass o => exact pass_eq hq now o
  | destroy k =>
    rw [steps, after_append, ← retire_eq]
    rfl

theorem sends_cases {now : Int} {m : Move η} {k : Nat} {t : Transfer} (hs : (k, t) ∈ m.sends now h) :
    ∃ hc, m = .call (.sendTransfer k t) hc ∧ ∃ st, (Step.sendTransfer k t).call? h = some (.prepare t) ∧
      (h.ledger.prepare now t).1 = .ok st := by
  unfold sends at hs
  split at hs
  next k' t' hc =>
    split at hs
    next hok =>
      cases List.mem_singleton.1 hs
      refine ⟨hc, rfl, ?_⟩
      rcases sendTransfer_cases h now k t with ⟨e, -, heq⟩ | ⟨hcall, ⟨e, -, heq⟩ | ⟨st, lines, hp, -⟩⟩
      · rw [heq] at hok
        cases hok
      · rw [heq] at hok
        cases hok
      · exact ⟨st, hcall, hp⟩
    · cases hs
  · cases hs

end Move

/-- A hub, and what was sent through each adaptor. -/
structure Watch (η : Type) where
  hub : Hub η
  sent : List (Nat × Transfer)

namespace Watch

def start (l : Ledger) : Watch η := ⟨.make l, []⟩

def next (w : Watch η) (now : Int) (m : Move η) : Watch η :=
  ⟨m.perform now w.hub, w.sent ++ m.sends now w.hub⟩

/-- A run of moves from a new ledger without adaptors, each with a reading of the clock. -/
def run (l : Ledger) (moves : List (Int × Move η)) : Watch η :=
  moves.foldl (fun w m => w.next m.1 m.2) (start l)

@[simp] theorem run_concat (l : Ledger) (moves : List (Int × Move η)) (m : Int × Move η) :
    run l (moves ++ [m]) = (run l moves).next m.1 m.2 := by
  simp [run]

end Watch

/-! ### Moves as steps -/

theorem run_append (l : Ledger) (steps more : List (Int × Step η)) :
    run l (steps ++ more) = (run l steps).after more := after_append ..

theorem accepted_append (hl : Ledger.make info = .ok l) (steps more : List (Int × Step η)) :
    ∀ t ∈ (chronicle l steps).accepted, t ∈ (chronicle l (steps ++ more)).accepted := by
  induction more using List.reverseRecOn with
  | nil => exact fun t ht => (List.append_nil steps).symm ▸ ht
  | append_singleton more s ih =>
    intro t ht
    rw [← List.append_assoc]
    exact (accepted_concat hl _ s.1 s.2).1 t (ih t ht)

/-- With one more move, a run of moves is still a run of steps. -/
theorem Watch.hub_concat (hl : Ledger.make info = .ok l) {moves : List (Int × Move η)}
    {steps : List (Int × Step η)} (hhub : (Watch.run l moves).hub = Hub.run l steps)
    (m : Int × Move η) : (Watch.run l (moves ++ [m])).hub =
      Hub.run l (steps ++ m.2.steps m.1 (Hub.run l steps)) := by
  rw [run_concat, run_append, next, hhub]
  exact m.2.perform_eq (quiet_run hl steps) m.1

/-- A run of moves is a run of steps that has accepted all that was sent. -/
theorem Watch.exists_run (hl : Ledger.make info = .ok l) (moves : List (Int × Move η)) :
    ∃ steps, (Watch.run l moves).hub = Hub.run l steps ∧
      ∀ k t, (k, t) ∈ (Watch.run l moves).sent → t ∈ (chronicle l steps).accepted := by
  induction moves using List.reverseRecOn with
  | nil => exact ⟨[], rfl, fun _ _ ht => absurd ht List.not_mem_nil⟩
  | append_singleton moves m ih =>
    obtain ⟨now, m⟩ := m
    obtain ⟨steps, hhub, hsent⟩ := ih
    refine ⟨steps ++ m.steps now (Hub.run l steps), hub_concat hl hhub (now, m), fun k t ht => ?_⟩
    rw [run_concat] at ht
    rcases List.mem_append.1 ht with ht | ht
    · exact accepted_append hl _ _ t (hsent k t ht)
    · rw [hhub] at ht
      obtain ⟨hc, rfl, st, hcall, hp⟩ := Move.sends_cases ht
      exact (accepted_concat hl steps now _).2 t st hcall hp

theorem Watch.quiet_run (hl : Ledger.make info = .ok l) (moves : List (Int × Move η)) :
    (Watch.run l moves).hub.Quiet := by
  obtain ⟨steps, hhub, -⟩ := exists_run hl moves
  exact hhub ▸ Hub.quiet_run hl steps

theorem Watch.sound_run (hl : Ledger.make info = .ok l) (moves : List (Int × Move η)) :
    (Watch.run l moves).hub.ledger.Sound := by
  obtain ⟨steps, hhub, -⟩ := exists_run hl moves
  exact hhub ▸ Hub.sound_run hl steps

/-! ### Passes -/

/-- Passes and callbacks of timers open no account and accept no transfer. -/
theorem chronicle_concat_of_pass (l : Ledger) (steps : List (Int × Step η)) {s : Int × Step η}
    {o : Owner} (hs : s.2 = o.passes ∨ s.2 = o.fires) :
    (chronicle l (steps ++ [s])).accepted = (chronicle l steps).accepted ∧
      (chronicle l (steps ++ [s])).opened = (chronicle l steps).opened := by
  obtain ⟨now, s⟩ := s
  have hcall : ∀ c, s.call? (run l steps) = some c →
      c = .passAdopted ∨ c = .fireAdopted ∨ ∃ id, c = .expire id := by
    intro c hc
    rcases hs with rfl | rfl
    · cases o with
      | ledger =>
        cases hc
        exact .inl rfl
      | adaptor k => cases hc
    · cases o with
      | ledger =>
        cases hc
        exact .inr (.inl rfl)
      | adaptor k =>
        obtain ⟨r, -, rfl⟩ := Option.map_eq_some_iff.1 hc
        exact .inr (.inr ⟨_, rfl⟩)
  rw [chronicle_concat]
  cases hc : s.call? (run l steps) with
  | none => exact ⟨rfl, rfl⟩
  | some c =>
    rcases hcall c hc with rfl | rfl | ⟨id, rfl⟩
    · exact ⟨List.append_nil _, rfl⟩
    · exact ⟨List.append_nil _, rfl⟩
    · exact ⟨List.append_nil _, rfl⟩

theorem chronicle_append_of_passes (l : Ledger) (o : Owner) (steps more : List (Int × Step η))
    (hmore : ∀ s ∈ more, s.2 = o.passes ∨ s.2 = o.fires) :
    (chronicle l (steps ++ more)).accepted = (chronicle l steps).accepted ∧
      (chronicle l (steps ++ more)).opened = (chronicle l steps).opened := by
  induction more using List.reverseRecOn with
  | nil => exact ⟨by rw [List.append_nil], by rw [List.append_nil]⟩
  | append_singleton more s ih =>
    obtain ⟨hacc, hopened⟩ := ih fun r hr => hmore r (by simp [hr])
    obtain ⟨hacc', hopened'⟩ := chronicle_concat_of_pass l (steps ++ more) (hmore s (by simp))
    rw [← List.append_assoc]
    exact ⟨hacc'.trans hacc, hopened'.trans hopened⟩

/-- A pass pays back to the senders what it lets expire. -/
theorem balance?_pass (hl : Ledger.make info = .ok l) (steps : List (Int × Step η)) (now : Int)
    (o : Owner) {ids : List Bytes}
    (hb : (run l steps).ledger.book.Lapses ids ((run l steps).pass now o).ledger.book) (a : Address) :
    ((run l steps).pass now o).ledger.balance? a = ((run l steps).ledger.balance? a).map fun b =>
      b + ((run l steps).pass now o).ledger.book.total (Chronicle.refunds a)
        (run l steps).ledger.book.prepared := by
  let more := (run l steps).passSteps now o
  have hpass : (run l steps).pass now o = run l (steps ++ more) := by
    rw [run_append]
    exact pass_eq (quiet_run hl steps) now o
  have hmore : ∀ s ∈ more, s.2 = o.passes ∨ s.2 = o.fires := by
    intro s hs
    rcases List.mem_cons.1 hs with rfl | hs
    · exact .inl rfl
    · obtain ⟨_, -, rfl⟩ := List.mem_map.1 hs
      exact .inr rfl
  have hsound := sound_run hl steps
  obtain ⟨hacc, hopened⟩ := chronicle_append_of_passes l o steps more hmore
  rw [hpass] at hb ⊢
  rw [(run_eq_chronicle hl steps).1] at hsound hb ⊢
  rw [(run_eq_chronicle hl (steps ++ more)).1] at hb ⊢
  exact (Chronicle.balanced_run hl _).balance?_of_lapses (Chronicle.balanced_run hl _) hsound
    (Chronicle.filed_run hl _) hacc hopened hb a

end Hub

end Interledger
