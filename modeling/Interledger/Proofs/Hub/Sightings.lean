import Interledger.Proofs.Address
import Interledger.Proofs.Hub.Adaptors
import Interledger.Proofs.Hub.Passes
import Interledger.Proofs.Ledger.Callbacks

/-! What an adaptor tells of the transfers of its ledger.

While an adaptor has a session, it sees every notice of the ledger. A notice about a transfer
raises one event if the transfer is its account's own or within a subscription, and none
otherwise, and the event has the side that the account is on. -/

namespace Interledger

/-- The side that an account is on, as a transfer passes by. -/
inductive Direction.Faces (account : Address) (t : Transfer) : Direction → Prop
  | incoming (h : t.receiver = account) : Faces account t .incoming
  | outgoing (h : t.sender = account) : Faces account t .outgoing
  | observed (hr : t.receiver ≠ account) (hs : t.sender ≠ account) : Faces account t .observed

theorem Direction.faces_of (account : Address) (t : Transfer) :
    Direction.Faces account t (.of account t) := by
  unfold Direction.of
  split
  next hr => exact .incoming hr
  next hr =>
  split
  next hs => exact .outgoing hs
  next hs => exact .observed hr hs

/-- A notice that finds an adaptor with a session: the adaptor's account, and what it has
subscribed to at that moment. -/
structure Sighting where
  account : Address
  subscriptions : List Address
  notice : Notice

namespace Sighting

/-- The account's own transfers, and those within a subscription. -/
def Concerns (x : Sighting) (t : Transfer) : Prop :=
  t.receiver = x.account ∨ t.sender = x.account ∨
    ∃ s ∈ x.subscriptions, s.covers t.sender ∨ s.covers t.receiver

/-- What is raised on a notice about a transfer. -/
inductive Raises (x : Sighting) : List Event → Prop
  | prepared {t : Transfer} {d : Direction} (hn : x.notice = .prepared t) (hc : x.Concerns t)
      (hd : d.Faces x.account t) : Raises x [.prepared t d]
  | executed {t : Transfer} {d : Direction} {f : Option Fulfillment} (hn : x.notice = .executed t f)
      (hc : x.Concerns t) (hd : d.Faces x.account t) : Raises x [.executed t d f]
  | rejected {t : Transfer} {d : Direction} {reason : Reason} (hn : x.notice = .rejected t reason)
      (hc : x.Concerns t) (hd : d.Faces x.account t) : Raises x [.rejected t d reason]
  | nothing {t : Transfer} (ht : x.notice.transfer? = some t) (hc : ¬x.Concerns t) : Raises x []

end Sighting

namespace Adaptor

variable {η : Type}

theorem concerns_iff {a : Adaptor η} {t : Transfer} : a.concerns t ↔
    t.receiver = a.account ∨ t.sender = a.account ∨
      ∃ s ∈ a.subscriptions, s.covers t.sender ∨ s.covers t.receiver := by
  simp only [concerns, Bool.or_eq_true, decide_eq_true_eq, List.any_eq_true]
  rw [or_assoc, or_left_comm]

theorem raises_news (a : Adaptor η) {n : Notice} (hn : n.transfer?.isSome) :
    Sighting.Raises ⟨a.account, a.subscriptions, n⟩ (a.news n).toList := by
  have hfaces := fun t => Direction.faces_of a.account t
  cases n with
  | prepared t =>
    simp only [news]
    split
    next hc => exact .prepared rfl (concerns_iff.1 hc) (hfaces t)
    next hc => exact .nothing rfl (mt concerns_iff.2 hc)
  | executed t f =>
    simp only [news]
    split
    next hc => exact .executed rfl (concerns_iff.1 hc) (hfaces t)
    next hc => exact .nothing rfl (mt concerns_iff.2 hc)
  | rejected t reason =>
    simp only [news]
    split
    next hc => exact .rejected rfl (concerns_iff.1 hc) (hfaces t)
    next hc => exact .nothing rfl (mt concerns_iff.2 hc)
  | message m => cases hn

/-- Of the news of some notices, those about transfers are what the sightings raise. -/
theorem raises_filterMap_news (a : Adaptor η) (ns : List Notice) : ∃ ess,
    List.Forall₂ Sighting.Raises ((ns.map fun n => ⟨a.account, a.subscriptions, n⟩).filter
      (·.notice.transfer?.isSome)) ess ∧
    (ns.filterMap a.news).filter (·.transfer?.isSome) = ess.flatten := by
  have hsome : ∀ n e, a.news n = some e → (e.transfer?.isSome ↔ n.transfer?.isSome) := by
    intro n e he
    cases n <;> (obtain ⟨-, he⟩ := Option.ite_none_right_eq_some.1 he; cases he; rfl)
  induction ns with
  | nil => exact ⟨[], .nil, rfl⟩
  | cons n ns ih =>
    obtain ⟨ess, hraises, hevents⟩ := ih
    rw [List.map_cons, List.filter_cons, List.filterMap_cons]
    by_cases hn : n.transfer?.isSome
    · refine ⟨(a.news n).toList :: ess, ?_, ?_⟩
      · rw [if_pos hn]
        exact .cons (a.raises_news hn) hraises
      · cases he : a.news n with
        | none => exact hevents
        | some e =>
          rw [List.filter_cons, if_pos ((hsome n e he).2 hn), hevents]
          rfl
    · refine ⟨ess, ?_, ?_⟩
      · rw [if_neg hn]
        exact hraises
      · cases he : a.news n with
        | none => exact hevents
        | some e => rw [List.filter_cons, if_neg (mt (hsome n e he).1 hn), hevents]

end Adaptor

namespace Hub

variable {η : Type} {h : Hub η} {now : Int} {k : Nat}

/-! ### Sightings of a step and of a run -/

/-- What the ledger tells in a step. -/
def Step.tells (h : Hub η) (now : Int) (s : Step η) : List Notice :=
  (s.call? h).elim [] fun c => (c.perform now h.ledger).2.notices

/-- An adaptor with a session hears all that the ledger tells, and without one nothing. -/
theorem heard_eq (hq : h.Quiet) (hs : h.ledger.Sound) (now : Int) (s : Step η) (k : Nat) :
    s.heard h now k = if h.session k = [] then [] else s.tells h now := by
  unfold Step.heard Step.tells
  cases hcall : s.call? h with
  | none => exact (ite_self _).symm
  | some c =>
    have he := Ledger.perform_effect hs now c
    simp only [Option.elim_some]
    by_cases hseated : c.seated? = some (.adaptor k)
    · rw [Ledger.callbacks, notices_of_seated hq hs now hseated, ite_self]
      rfl
    · have hsession := he.sessionsOf_eq hseated
      split
      next hnil => exact Ledger.received_eq_nil (hsession.trans hnil)
      next hsome =>
        obtain ⟨x, hx⟩ := List.exists_mem_of_ne_nil _ hsome
        rw [session, ← hsession] at hx
        obtain ⟨hmem, hlistener⟩ := List.mem_filter.1 hx
        exact Ledger.Chronicle.received_callbacks (he.sound hs).nodup_listeners
          (List.mem_map.2 ⟨x, hmem, by simpa using hlistener⟩)

/-- What an adaptor sees in a step, while it has a session. -/
def Step.sightings (h : Hub η) (now : Int) (k : Nat) (s : Step η) : List Sighting :=
  (h.adaptors.get? k).elim [] fun a =>
    if h.session k = [] then []
    else (s.tells h now).map fun n => ⟨a.account, a.subscriptions, n⟩

def sightings (h : Hub η) (k : Nat) : List (Int × Step η) → List Sighting
  | [] => []
  | s :: ss => s.2.sightings h s.1 k ++ sightings (s.2.perform s.1 h).2 k ss

theorem sightings_concat (h : Hub η) (k : Nat) (steps : List (Int × Step η))
    (s : Int × Step η) : h.sightings k (steps ++ [s]) =
      h.sightings k steps ++ s.2.sightings (h.after steps) s.1 k := by
  induction steps generalizing h with
  | nil => exact List.append_nil _
  | cons r steps ih =>
    rw [List.cons_append, sightings, ih, sightings, List.append_assoc]
    rfl

/-- What an adaptor sees is some of what the ledger tells, in its order. -/
theorem sightings_sublist {info : LedgerInfo} {l : Ledger} (hl : Ledger.make info = .ok l)
    (steps : List (Int × Step η)) (k : Nat) :
    (((make l).sightings k steps).map (·.notice)).Sublist (chronicle l steps).told := by
  induction steps using List.reverseRecOn with
  | nil => exact .slnil
  | append_singleton steps s ih =>
    have htold : (chronicle l (steps ++ [s])).told =
        (chronicle l steps).told ++ s.2.tells (run l steps) s.1 := by
      rw [chronicle_concat, Step.tells, (run_eq_chronicle hl steps).1]
      cases s.2.call? (run l steps) with
      | none => exact (List.append_nil _).symm
      | some c => rfl
    have hstep : ((s.2.sightings (run l steps) s.1 k).map (·.notice)).Sublist
        (s.2.tells (run l steps) s.1) := by
      unfold Step.sightings
      cases (run l steps).adaptors.get? k with
      | none => exact List.nil_sublist _
      | some a =>
        rw [Option.elim_some]
        split
        · exact List.nil_sublist _
        · rw [List.map_map]
          show ((s.2.tells (run l steps) s.1).map id).Sublist _
          rw [List.map_id]
    rw [sightings_concat, List.map_append, htold]
    exact ih.append hstep

theorem raises_step (hq : h.Quiet) (hs : h.ledger.Sound) (now : Int) (s : Step η) (k : Nat) :
    ∃ ess, List.Forall₂ Sighting.Raises
      ((s.sightings h now k).filter (·.notice.transfer?.isSome)) ess ∧
      (s.raised now h k).filter (·.transfer?.isSome) = ess.flatten := by
  obtain ⟨es, hes, hraised⟩ := raised_eq hq hs now s k
  have hnone : es.filter (·.transfer?.isSome) = [] := by
    rw [List.filter_eq_nil_iff]
    intro e he
    have hlink := hes e he
    cases e <;> simp [Event.isLink, Event.transfer?] at hlink ⊢
  rw [hraised, List.filter_append, hnone, List.append_nil, heard_eq hq hs, Step.sightings]
  cases h.adaptors.get? k with
  | none => exact ⟨[], .nil, rfl⟩
  | some a =>
    simp only [Option.elim_some]
    split
    · exact ⟨[], .nil, rfl⟩
    · exact a.raises_filterMap_news _

theorem raises_after (hq : h.Quiet) (hs : h.ledger.Sound) (k : Nat) (steps : List (Int × Step η)) :
    ∃ ess, List.Forall₂ Sighting.Raises
      ((h.sightings k steps).filter (·.notice.transfer?.isSome)) ess ∧
      (h.raised k steps).filter (·.transfer?.isSome) = ess.flatten := by
  induction steps generalizing h with
  | nil => exact ⟨[], .nil, rfl⟩
  | cons s steps ih =>
    obtain ⟨ess, hraises, hevents⟩ := raises_step hq hs s.1 s.2 k
    obtain ⟨ess', hraises', hevents'⟩ := ih (quiet_perform hq s.1 s.2) (sound_perform hq hs s.1 s.2)
    refine ⟨ess ++ ess', ?_, ?_⟩
    · rw [sightings, List.filter_append]
      exact List.rel_append hraises hraises'
    · rw [raised, List.filter_append, hevents, hevents', List.flatten_append]

end Hub

end Interledger
