import Interledger.Proofs.Hub.Alarms
import Interledger.Proofs.Hub.Authority

/-! Deadlines are kept, as long as it is left to the timers to expire transfers. A receiver
decides before the deadline and a timer after it, however calls, passes of the clocks and
callbacks of timers come between each other, and whether the adaptor that armed the timer is
still there. -/

namespace Interledger.Hub

open Ledger (Chronicle)

variable {η : Type} {info : LedgerInfo} {l : Ledger}

/-! ### Expiry by timers -/

/-- The timers that a step takes out of an adaptor for the ledger to adopt. -/
def drains (h : Hub η) : Step η → List Timer
  | .drainTimers k => h.handed k
  | _ => []

/-- The timers that were taken out of adaptors in some steps. -/
def drained (h : Hub η) : List (Int × Step η) → List Timer
  | [] => []
  | s :: ss => h.drains s.2 ++ drained (s.2.perform s.1 h).2 ss

/-- Whether a step leaves it to timers to expire transfers; the ledger adopts no others than
those that have been taken out of adaptors. -/
def Step.isTimed (hand : List Timer) : Step η → Bool
  | ledger (.expire _) => false
  | ledger (.adopt t) => t ∈ hand
  | _ => true

/-- Whether transfers expire only by timers in some steps. -/
def expiresByTimers (h : Hub η) (hand : List Timer) : List (Int × Step η) → Bool
  | [] => true
  | s :: ss => s.2.isTimed hand && expiresByTimers (s.2.perform s.1 h).2 (hand ++ h.drains s.2) ss

theorem drained_concat (h : Hub η) (steps : List (Int × Step η)) (s : Int × Step η) :
    h.drained (steps ++ [s]) = h.drained steps ++ (h.after steps).drains s.2 := by
  induction steps generalizing h with
  | nil => exact List.append_nil _
  | cons r steps ih =>
    rw [List.cons_append, drained, ih, drained, List.append_assoc]
    rfl

theorem expiresByTimers_append (h : Hub η) (hand : List Timer) (steps more : List (Int × Step η)) :
    h.expiresByTimers hand (steps ++ more) = (h.expiresByTimers hand steps &&
      (h.after steps).expiresByTimers (hand ++ h.drained steps) more) := by
  induction steps generalizing h hand with
  | nil =>
    rw [drained, List.append_nil]
    rfl
  | cons r steps ih =>
    rw [List.cons_append, expiresByTimers, ih, expiresByTimers, drained, Bool.and_assoc,
      List.append_assoc]
    rfl

/-! ### What timers stand for -/

/-- A timer stands for an accepted transfer, until the expiry of the transfer. -/
def Stands (accepted : List Transfer) (tm : Timer) : Prop :=
  ∃ t ∈ accepted, t.id = tm.id ∧ t.expiresAt = some tm.deadline

theorem Stands.mono {ts ts' : List Transfer} (h : ∀ t ∈ ts, t ∈ ts') {tm : Timer}
    (hm : Stands ts tm) : Stands ts' tm := by
  obtain ⟨t, ht, hid, hx⟩ := hm
  exact ⟨t, h t ht, hid, hx⟩

/-- All timers stand for accepted transfers, and what was taken out to be called back was due. -/
structure Punctual (h : Hub η) (accepted : List Transfer) (hand : List Timer) (times : List Int) :
    Prop where
  armed : ∀ o a, h.alarm? o = some a → ∀ tm ∈ a.timers.list, Stands accepted tm
  popped : ∀ o a, h.alarm? o = some a → ∀ tm ∈ a.batch.getD [],
    Stands accepted tm ∧ ∃ now ∈ times, tm.deadline ≤ now
  hand : ∀ tm ∈ hand, Stands accepted tm

theorem stands_of_arms? {h : Hub η} {now : Int} {k : Nat} {t : Transfer} {tm : Timer}
    (harms : h.arms? now k t = some tm) {accepted : List Transfer} (ht : t ∈ accepted) :
    Stands accepted tm := by
  obtain ⟨-, -, hx, hid⟩ := arms?_eq_some_iff.1 harms
  exact ⟨t, ht, hid.symm, hx⟩

/-- Each step keeps that, when it leaves the transfers to the timers. -/
theorem Punctual.next {h h' : Hub η} {accepted accepted' : List Transfer} {hand : List Timer}
    {times : List Int} {now : Int} {s : Step η} (hp : h.Punctual accepted hand times)
    (hs : s.isTimed hand) (hacc : ∀ t ∈ accepted, t ∈ accepted')
    (hsent : ∀ k t tm, s = .sendTransfer k t → h.arms? now k t = some tm → t ∈ accepted')
    (hturn : ∀ o, h.Turn now h'.ledger.book s o (h.alarm? o) (h'.alarm? o)) :
    h'.Punctual accepted' (hand ++ h.drains s) (times ++ [now]) := by
  have harmed : ∀ o a, h.alarm? o = some a → ∀ tm ∈ a.timers.list, Stands accepted' tm :=
    fun o a ha tm hm => (hp.armed o a ha tm hm).mono hacc
  refine ⟨fun o a' ha' tm hm => ?_, fun o a' ha' tm hm => ?_, fun tm hm => ?_⟩
  · rcases (ha' ▸ hturn o).of_some with ⟨account, -, -, rfl⟩ | ⟨a, ids, ha, -, rfl⟩
    · cases hm
    rcases mem_timers_tend (List.mem_of_mem_filter hm) with hm | rfl | ⟨k, t, rfl, harms⟩
    · exact harmed o a ha tm hm
    · exact (hp.hand tm (by simpa [Step.isTimed] using hs)).mono hacc
    · exact stands_of_arms? harms (hsent k t tm rfl harms)
  · rcases (ha' ▸ hturn o).of_some with ⟨account, -, -, rfl⟩ | ⟨a, ids, ha, -, rfl⟩
    · cases hm
    rcases mem_batch_tend hm with hm | ⟨hm, hdue⟩
    · obtain ⟨hstands, time, htime, hdue⟩ := hp.popped o a ha tm hm
      exact ⟨hstands.mono hacc, time, List.mem_append_left _ htime, hdue⟩
    · exact ⟨harmed o a ha tm hm, now, by simp, hdue⟩
  · rcases List.mem_append.1 hm with hm | hm
    · exact (hp.hand tm hm).mono hacc
    · cases s with
      | drainTimers k =>
        obtain ⟨a, hk, hm⟩ := mem_handed_iff.1 hm
        exact harmed (.adaptor k) a hk tm hm
      | _ => cases hm

theorem punctual_run (hl : Ledger.make info = .ok l) {steps : List (Int × Step η)}
    (hs : (make l).expiresByTimers [] steps) :
    (run l steps).Punctual (chronicle l steps).accepted ((make l).drained steps)
      (steps.map (·.1)) := by
  induction steps using List.reverseRecOn with
  | nil =>
    rw [Ledger.make_eq_ok hl]
    refine ⟨fun o a ha tm hm => ?_, fun o a ha tm hm => ?_, nofun⟩
    · cases o with
      | ledger =>
        cases ha
        cases hm
      | adaptor k => cases ha
    · cases o with
      | ledger =>
        cases ha
        cases hm
      | adaptor k => cases ha
  | append_singleton steps s ih =>
    obtain ⟨now, s⟩ := s
    rw [expiresByTimers_append, Bool.and_eq_true] at hs
    obtain ⟨hsteps, hlast⟩ := hs
    have hlast : s.isTimed ((make l).drained steps) := by
      simpa [expiresByTimers] using hlast
    obtain ⟨hacc, hprepared⟩ := accepted_concat hl steps now s
    have hsent : ∀ k t tm, s = .sendTransfer k t → (run l steps).arms? now k t = some tm →
        t ∈ (chronicle l (steps ++ [(now, s)])).accepted := by
      rintro k t tm rfl harms
      obtain ⟨hcall, hp, -⟩ := arms?_eq_some_iff.1 harms
      exact hprepared t _ hcall hp
    rw [drained_concat, List.map_append, run_concat]
    exact (ih hsteps).next hlast hacc hsent
      (turn_perform (quiet_run hl steps) (sound_run hl steps) now s)

/-! ### Who comes in time -/

/-- Whether a step decides, for a receiver, about the transfer of an id. -/
def Step.settles (id : Bytes) : Step η → Prop
  | ledger (.fulfill i _ _) | ledger (.reject i _ _) | fulfillCondition _ i _ => i = id
  | rejectTransfer _ t _ => t.id = id
  | _ => False

theorem call?_expire {h : Hub η} {s : Step η} {id : Bytes} (hc : s.call? h = some (.expire id)) :
    s = .ledger (.expire id) ∨
      ∃ k a tm, h.alarm? (.adaptor k) = some a ∧ tm ∈ a.batch.getD [] ∧ tm.id = id := by
  have hasks := call?_eq_some.1 hc
  cases hasks with
  | ledger => exact .inl rfl
  | @fireTimer k a tm alarm ha hn =>
    exact .inr ⟨k, a.alarm, tm, by rw [alarm?, ha]; rfl, (Alarm.batch_of_next? hn).1, rfl⟩

/-- What a timer stands for is not decided about by its receiver once the timer is due. -/
theorem held_of_due {c : Chronicle} (hf : c.Filed) (hl : c.ledger.Sound) {tm : Timer}
    (hm : Stands c.accepted tm) {now : Int} (hdue : tm.deadline ≤ now) (caller : Address) :
    ∃ e, c.ledger.held now tm.id caller = .error e := by
  cases hh : c.ledger.held now tm.id caller with
  | error e => exact ⟨e, rfl⟩
  | ok t =>
    obtain ⟨u, hu, hid, hx⟩ := hm
    obtain ⟨⟨_, hg⟩, -, hlate⟩ := Ledger.held_eq_ok_iff.1 hh
    obtain rfl : t = u := hf.eq_of_live hu ((hl.live hg).1.trans hid.symm) (hid ▸ hg)
    rw [hx] at hlate
    simp [hdue] at hlate

theorem settles_fails {h : Hub η} {now : Int} {id : Bytes}
    (hheld : ∀ caller, ∃ e, h.ledger.held now id caller = .error e) {s : Step η}
    (hs : s.settles id) : ∃ e, (s.perform now h).1 = .error e := by
  have hfulfill : ∀ caller f, ∃ e, (h.ledger.fulfill now id caller f).1 = .error e := by
    intro caller f
    obtain ⟨e, he⟩ := hheld caller
    exact ⟨e, by rw [Ledger.fulfill, he]⟩
  have hreject : ∀ caller reason, ∃ e, (h.ledger.reject now id caller reason).1 = .error e := by
    intro caller reason
    obtain ⟨e, he⟩ := hheld caller
    exact ⟨e, by rw [Ledger.reject, he]⟩
  cases s with
  | ledger s =>
    cases s with
    | fulfill i caller f =>
      obtain rfl : i = id := hs
      obtain ⟨e, he⟩ := hfulfill caller f
      exact ⟨e, by simp [Step.perform, onLedger, Ledger.Step.perform, he, Except.map]⟩
    | reject i caller reason =>
      obtain rfl : i = id := hs
      obtain ⟨e, he⟩ := hreject caller reason
      exact ⟨e, by simp [Step.perform, onLedger, Ledger.Step.perform, he, Except.map]⟩
    | _ => cases hs
  | rejectTransfer k t reason =>
    obtain rfl : t.id = id := hs
    simp only [Step.perform, rejectTransfer]
    split
    · exact ⟨_, rfl⟩
    next a _ =>
    split
    · exact ⟨_, rfl⟩
    obtain ⟨e, he⟩ := hreject a.account reason
    rcases onLedger_cases h (·.reject now t.id a.account reason) with ⟨e', -, ho⟩ | ⟨x, hx, -⟩
    · rw [ho]
      exact ⟨e', rfl⟩
    · rw [he] at hx
      cases hx
  | fulfillCondition k i f =>
    obtain rfl : i = id := hs
    simp only [Step.perform, fulfillCondition]
    split
    · exact ⟨_, rfl⟩
    next a _ =>
    obtain ⟨e, he⟩ := hfulfill a.account f
    rcases onLedger_cases h (·.fulfill now i a.account f) with ⟨e', -, ho⟩ | ⟨x, hx, -⟩
    · rw [ho]
      exact ⟨e', rfl⟩
    · rw [he] at hx
      cases hx
  | _ => cases hs

/-- A transfer that expires does so by a timer that was taken out for it. -/
theorem popped_of_expired {h : Hub η} (hs : h.ledger.Sound) {now : Int} {s : Step η}
    (htimed : ∀ id, s ≠ .ledger (.expire id)) {c : Ledger.Step} (hc : s.call? h = some c)
    {answer : Ledger.Answer} {t : Transfer} (hends : Ledger.Ends now c answer t .expired)
    (hne : (c.perform now h.ledger).2.book.stateOf? t.id ≠ h.ledger.book.stateOf? t.id) :
    ∃ o a tm, h.alarm? o = some a ∧ tm ∈ a.batch.getD [] ∧ tm.id = t.id := by
  cases hends with
  | expire =>
    rcases call?_expire hc with rfl | ⟨k, a, tm, ha, hm, hid⟩
    · exact absurd rfl (htimed t.id)
    · exact ⟨.adaptor k, a, tm, ha, hm, hid⟩
  | fire =>
    change (h.ledger.fireAdopted now).book.stateOf? t.id ≠ _ at hne
    rw [Ledger.stateOf?_fireAdopted hs] at hne
    cases hn : h.ledger.adopted.batch.bind List.head? with
    | none =>
      rw [hn] at hne
      exact absurd rfl hne
    | some tm =>
      obtain ⟨ts, hb, hhead⟩ := Option.bind_eq_some_iff.1 hn
      rw [hn, Option.elim_some] at hne
      refine ⟨.ledger, h.ledger.adopted, tm, rfl, ?_, ?_⟩
      · rw [hb]
        exact List.mem_of_mem_head? hhead
      · by_contra hid
        exact hne (if_neg fun h => hid h.1.symm)

/-- How one more step can change the state of an accepted transfer. -/
inductive Passes (t : Transfer) (now : Int) : Option TransferState → Option TransferState → Prop
  | kept (st : Option TransferState) : Passes t now st st
  | accepted {st : TransferState} (hst : st = .prepared ∨ st = .executed ∨ st = .rejected) :
    Passes t now none (some st)
  | decided {st : TransferState} (hst : st = .executed ∨ st = .rejected)
      (hx : ∀ e, t.expiresAt = some e → now < e) : Passes t now (some .prepared) (some st)
  | expired {e : Int} (hx : t.expiresAt = some e) (hdue : e ≤ now) :
    Passes t now (some .prepared) (some .expired)

theorem passes_concat (hl : Ledger.make info = .ok l) {steps : List (Int × Step η)} {now : Int}
    {s : Step η} (hclock : ∀ time ∈ steps.map (·.1), time ≤ now)
    (hexpiry : (make l).expiresByTimers [] (steps ++ [(now, s)])) {t : Transfer}
    (ht : t ∈ (chronicle l (steps ++ [(now, s)])).accepted) :
    Passes t now ((run l steps).ledger.book.stateOf? t.id)
      ((run l (steps ++ [(now, s)])).ledger.book.stateOf? t.id) := by
  rw [expiresByTimers_append, Bool.and_eq_true] at hexpiry
  obtain ⟨hsteps, hlast⟩ := hexpiry
  have htimed : ∀ id, s ≠ .ledger (.expire id) := by
    rintro id rfl
    cases hlast
  have hsound := sound_run hl steps
  have hfiled : (chronicle l steps).Filed := Chronicle.filed_run hl _
  have hledger := (run_eq_chronicle hl steps).1
  have hsub := (accepted_concat hl steps now s).1
  -- Two accepted transfers of one id are one.
  have hsame : ∀ u ∈ (chronicle l steps).accepted, u.id = t.id → u = t := fun u hu hid =>
    List.inj_on_of_nodup_map (Chronicle.filed_run hl _ : (chronicle l _).Filed).nodup_ids
      (hsub u hu) ht hid
  rw [run_concat, (perform_effect (quiet_run hl steps) now s).ledger_eq]
  cases hc : s.call? (run l steps) with
  | none => exact .kept _
  | some c =>
    show Passes t now _ ((c.perform now (run l steps).ledger).2.book.stateOf? t.id)
    rcases (Ledger.perform_effect hsound now c).stateOf?_cases t.id with
      heq | ⟨u, rfl, hid, hn, hst⟩ | ⟨u, e, answer, time, hends, hg, hst⟩
    · rw [heq]
      exact .kept _
    · have hnone : (run l steps).ledger.book.stateOf? t.id = none := by
        rw [Book.contains_eq_isSome_stateOf?] at hn
        simpa using hn
      rw [hnone]
      rcases hst with hst | hst | hst
      · exact hst ▸ .accepted (.inl rfl)
      · exact hst ▸ .accepted (.inr (.inl rfl))
      · exact hst ▸ .accepted (.inr (.inr rfl))
    · have hold : (run l steps).ledger.book.stateOf? t.id = some .prepared :=
        hsound.prepared_iff.2 ⟨u, time, hg⟩
      obtain rfl : u = t := hsame u (hfiled.live _ _ _ _ (hledger ▸ hg)) (hsound.live hg).1
      rw [hold, hst]
      cases e with
      | executed f => exact .decided (.inl rfl) (hends.before_expiry nofun)
      | rejected reason => exact .decided (.inr rfl) (hends.before_expiry nofun)
      | expired =>
        have hne : (c.perform now (run l steps).ledger).2.book.stateOf? u.id ≠
            (run l steps).ledger.book.stateOf? u.id := by
          rw [hst, hold]
          nofun
        obtain ⟨o, a, tm, ha, hm, hid⟩ := popped_of_expired hsound htimed hc hends hne
        obtain ⟨⟨v, hv, hvid, hx⟩, time, htime, hdue⟩ :=
          (punctual_run hl hsteps).popped o a ha tm hm
        obtain rfl := hsame v hv (hvid.trans hid)
        exact .expired hx (Int.le_trans hdue (hclock time htime))

/-- With a clock that never goes back, in a run that leaves it to the timers to expire
transfers: a prepared transfer is executed or rejected before its expiry; one that expires was
prepared, has an expiry and has reached it; one that has reached its expiry stays prepared or
expires; and once a timer is taken out, nobody executes or rejects its transfer any more. -/
theorem deadlines_are_kept (hl : Ledger.make info = .ok l) {steps : List (Int × Step η)} {now : Int}
    {s : Step η} (hclock : ((steps ++ [(now, s)]).map (·.1)).Pairwise (· ≤ ·))
    (hexpiry : (make l).expiresByTimers [] (steps ++ [(now, s)])) :
    let h := run l steps
    let h' := run l (steps ++ [(now, s)])
    let c' := chronicle l (steps ++ [(now, s)])
    (∀ t ∈ c'.accepted, h.ledger.book.stateOf? t.id = some .prepared →
      (h'.ledger.book.stateOf? t.id = some .executed ∨
        h'.ledger.book.stateOf? t.id = some .rejected) → ∀ e, t.expiresAt = some e → now < e) ∧
    (∀ t ∈ c'.accepted, h.ledger.book.stateOf? t.id ≠ some .expired →
      h'.ledger.book.stateOf? t.id = some .expired → h.ledger.book.stateOf? t.id = some .prepared ∧
        ∃ e, t.expiresAt = some e ∧ e ≤ now) ∧
    (∀ t ∈ c'.accepted, ∀ e, t.expiresAt = some e → e ≤ now →
      h.ledger.book.stateOf? t.id = some .prepared → h'.ledger.book.stateOf? t.id = some .prepared ∨
        h'.ledger.book.stateOf? t.id = some .expired) ∧
    (∀ o a, h.alarm? o = some a → ∀ tm ∈ a.batch.getD [], s.settles tm.id →
      ∃ e, (s.perform now h).1 = .error e) := by
  intro h h' c'
  rw [List.map_append, List.pairwise_append] at hclock
  have hbefore : ∀ time ∈ steps.map (·.1), time ≤ now :=
    fun time htime => hclock.2.2 time htime now (by simp)
  have hpasses : ∀ t ∈ c'.accepted,
      Passes t now (h.ledger.book.stateOf? t.id) (h'.ledger.book.stateOf? t.id) :=
    fun t ht => passes_concat hl hbefore hexpiry ht
  refine ⟨fun t ht hold hnew => ?_, fun t ht hold hnew => ?_, fun t ht e hx hdue hold => ?_,
    fun o a ha tm hm hs => ?_⟩
  · have hp := hpasses t ht
    rw [hold] at hp
    generalize h'.ledger.book.stateOf? t.id = st' at hp hnew
    cases hp with
    | kept => rcases hnew with hnew | hnew <;> cases hnew
    | decided hst hx => exact hx
    | expired => rcases hnew with hnew | hnew <;> cases hnew
  · have hp := hpasses t ht
    rw [hnew] at hp
    generalize h.ledger.book.stateOf? t.id = st at hp hold ⊢
    cases hp with
    | kept => exact absurd rfl hold
    | accepted hst => rcases hst with hst | hst | hst <;> cases hst
    | decided hst => rcases hst with hst | hst <;> cases hst
    | expired hx hdue => exact ⟨rfl, _, hx, hdue⟩
  · have hp := hpasses t ht
    rw [hold] at hp
    generalize h'.ledger.book.stateOf? t.id = st' at hp ⊢
    cases hp with
    | kept => exact .inl rfl
    | decided hst hlt =>
      have := hlt e hx
      omega
    | expired => exact .inr rfl
  · rw [expiresByTimers_append, Bool.and_eq_true] at hexpiry
    obtain ⟨hstands, time, htime, hdue⟩ := (punctual_run hl hexpiry.1).popped o a ha tm hm
    have hfiled : (chronicle l steps).Filed := Chronicle.filed_run hl _
    have hledger : h.ledger = (chronicle l steps).ledger := (run_eq_chronicle hl steps).1
    refine settles_fails (fun caller => ?_) hs
    rw [hledger]
    exact held_of_due hfiled (hledger ▸ sound_run hl steps) hstands
      (Int.le_trans hdue (hbefore time htime)) caller

/-- An adaptor has sent a transfer and is gone, and its timer has been taken out of the alarm
of the ledger at the deadline. -/
def samplePopped : List (Int × Step Unit) := sampleSent ++
  [(100, .haltTimers 0), (100, .drainTimers 0), (100, .ledger (.adopt ⟨"p", 100⟩)),
    (100, .remove 0), (100, .ledger .passAdopted)]

theorem deadlines_are_kept_popped :
    let l := Ledger.Sample.ledger
    let fulfill : Step Unit := .fulfillCondition 1 "p" Ledger.Sample.preimage
    let fire : Step Unit := .ledger .fireAdopted
    Ledger.make l.info = .ok l ∧ (∃ e, (fulfill.perform 100 (run l samplePopped)).1 = .error e) ∧
      (run l (samplePopped ++ [(100, fire)])).ledger.book.stateOf? "p" = some .expired ∧
      ∃ e, (Ledger.Sample.locked 'p').expiresAt = some e ∧ e ≤ 100 := by
  intro l fulfill fire
  have hl : Ledger.make l.info = .ok l := rfl
  have hclock (s : Step Unit) : ((samplePopped ++ [(100, s)]).map Prod.fst).Pairwise (· ≤ ·) := by
    rw [List.map_append]
    show (samplePopped.map Prod.fst ++ [100]).Pairwise (· ≤ ·)
    decide
  have hexpired : (run l (samplePopped ++ [(100, fire)])).ledger.book.stateOf? "p" =
      some .expired := by decide +kernel
  obtain ⟨-, -, -, hfails⟩ := deadlines_are_kept hl (hclock fulfill) (by decide +kernel)
  obtain ⟨-, hexpires, -⟩ := deadlines_are_kept hl (hclock fire) (by decide +kernel)
  refine ⟨hl, hfails .ledger _ rfl ⟨"p", 100⟩ (by decide +kernel) rfl, hexpired, ?_⟩
  exact (hexpires (Ledger.Sample.locked 'p') (by decide +kernel) (by decide +kernel) hexpired).2

end Interledger.Hub
