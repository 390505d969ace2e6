import Interledger.Proofs.Ledger.Settlement

/-! Settlements of different transfers commute.

A fulfillment, a rejection and an expiry look at the record of one transfer and at the clock, and
at nothing that the settlement of another transfer writes. In either order both calls give the
same answers; balances and escrow are sums that do not depend on the order, and all else that
they change belongs to one transfer. Only the listeners can tell which call came first. -/

namespace Interledger

/-! ### Changes in different places -/

namespace Table

variable {κ α : Type} [DecidableEq κ] {k j : κ}

/-- Two changes commute when they are of different keys, or of one key and commute there. -/
theorem modify_comm (t : Table κ α) {f g : α → α} (h : k = j → ∀ a, g (f a) = f (g a)) :
    (t.modify k f).modify j g = (t.modify j g).modify k f := by
  simp only [modify, List.map_map, mk.injEq]
  refine List.map_congr_left fun e _ => ?_
  by_cases hk : e.1 = k
  · by_cases hj : e.1 = j
    · obtain rfl := hk.symm.trans hj
      simp [hk, h rfl e.2]
    · simp [hk, hk ▸ hj]
  · by_cases hj : e.1 = j
    · simp [hj, hj ▸ hk]
    · simp [hk, hj]

theorem insert_of_contains {t : Table κ α} (h : t.contains k) (a : α) :
    t.insert k a = t.modify k fun _ => a := if_pos h

/-- Two entries that are there can be replaced in either order. -/
theorem insert_comm {t : Table κ α} (hk : t.contains k) (hj : t.contains j) (hne : k ≠ j)
    (a b : α) : (t.insert k a).insert j b = (t.insert j b).insert k a := by
  rw [insert_of_contains (t := t.insert k a) (by simp [hj]),
    insert_of_contains (t := t.insert j b) (by simp [hk]), insert_of_contains hk,
    insert_of_contains hj]
  exact modify_comm t fun heq => absurd heq hne

end Table

theorem Alarm.without_comm (a : Alarm) (ids ids' : List Bytes) :
    (a.without ids).without ids' = (a.without ids').without ids := by
  simp only [without, List.filter_filter, Bool.and_comm]

namespace Ledger

variable {l l' : Ledger} {now : Int} {id : Bytes}

/-! ### What a settlement looks at -/

/-- A call that is to end the transfer of an id. -/
inductive Settlement where
  | fulfill (caller : Address) (f : Fulfillment)
  | reject (caller : Address) (reason : Reason)
  | expire

namespace Settlement

def step (id : Bytes) : Settlement → Step
  | fulfill caller f => .fulfill id caller f
  | reject caller reason => .reject id caller reason
  | expire => .expire id

/-- The answer to a settlement, and the transfer that it ends. -/
def verdict (l : Ledger) (now : Int) (id : Bytes) :
    Settlement → Except Error Answer × Option (Transfer × Ending)
  | fulfill caller f =>
    match l.held now id caller with
    | .error e => (.error e, none)
    | .ok t =>
      if t.condition.any (·.isFulfilledBy f) then (.ok .done, some (t, .executed (some f)))
      else (.error (.wrongFulfillment id), none)
  | reject caller reason =>
    match l.held now id caller with
    | .error e => (.error e, none)
    | .ok t => (.ok .done, some (t, .rejected reason))
  | expire =>
    match l.book.entries.get? id with
    | some (.live t .prepared _) => (.ok (.truth true), some (t, .expired))
    | _ => (.ok (.truth false), none)

/-- A settlement looks at nothing but the record of its transfer. -/
theorem verdict_congr (h : l'.book.entries.get? id = l.book.entries.get? id) (x : Settlement) :
    x.verdict l' now id = x.verdict l now id := by
  have hheld : ∀ caller, l'.held now id caller = l.held now id caller := by
    intro caller
    have hfind : l'.book.find? id = l.book.find? id := by rw [Book.find?, h, Book.find?]
    have hstate : l'.book.stateOf? id = l.book.stateOf? id := by
      rw [Book.stateOf?, h, Book.stateOf?]
    rw [held, hfind, hstate, held]
  cases x with
  | fulfill caller f => simp only [verdict, hheld]
  | reject caller reason => simp only [verdict, hheld]
  | expire => simp only [verdict, h]

/-- What is ended was prepared. -/
theorem get?_of_verdict {x : Settlement} {t : Transfer} {e : Ending}
    (h : (x.verdict l now id).2 = some (t, e)) :
    ∃ u, l.book.entries.get? id = some (.live t .prepared u) := by
  cases x with
  | fulfill caller f =>
    simp only [verdict] at h
    cases hheld : l.held now id caller with
    | error err => simp [hheld] at h
    | ok t' =>
      rw [hheld] at h
      dsimp only at h
      split at h
      · cases h
        exact (held_eq_ok_iff.1 hheld).1
      · cases h
  | reject caller reason =>
    simp only [verdict] at h
    cases hheld : l.held now id caller with
    | error err => simp [hheld] at h
    | ok t' =>
      rw [hheld] at h
      cases h
      exact (held_eq_ok_iff.1 hheld).1
  | expire =>
    simp only [verdict] at h
    split at h
    next t' u hg =>
      cases h
      exact ⟨u, hg⟩
    · cases h

end Settlement

/-- A ledger after a verdict. -/
def decided (l : Ledger) (now : Int) (v : Option (Transfer × Ending)) : Ledger :=
  v.elim l fun r => l.ended now r.1 r.2

theorem perform_settlement (hl : l.Sound) (now : Int) (id : Bytes) (x : Settlement) :
    (x.step id).perform now l =
      ((x.verdict l now id).1, l.decided now (x.verdict l now id).2) := by
  cases x with
  | fulfill caller f =>
    simp only [Settlement.step, Step.perform, Settlement.verdict, fulfill_eq hl]
    cases l.held now id caller with
    | error e => rfl
    | ok t =>
      dsimp only
      split <;> rfl
  | reject caller reason =>
    simp only [Settlement.step, Step.perform, Settlement.verdict, reject_eq hl]
    cases l.held now id caller <;> rfl
  | expire =>
    simp only [Settlement.step, Step.perform, Settlement.verdict]
    rcases expire_cases hl now id with ⟨hn, heq⟩ | ⟨t, u, hg, heq⟩
    · rw [heq]
      split
      next hg => exact absurd hg (hn _ _)
      · rfl
    · rw [heq, hg]
      rfl

/-- Only a settlement, or the callback of an adopted timer, takes a transfer out of escrow, and
then it is all that the step does. -/
theorem ended_of_not_prepared (hl : l.Sound) (now : Int) {s : Step} (hs : s ≠ .fireAdopted)
    (hp : l.book.stateOf? id = some .prepared)
    (hn : (s.perform now l).2.book.stateOf? id ≠ some .prepared) :
    ∃ (x : Settlement) (t : Transfer) (e : Ending),
      s = x.step id ∧ t.id = id ∧ (s.perform now l).2 = l.ended now t e := by
  rcases (perform_effect hl now s).stateOf?_cases id with
    heq | ⟨t, -, -, hfresh, -⟩ | ⟨t, e, a, u, he, hg, -⟩
  · exact absurd (heq.trans hp) hn
  · rw [Book.contains_eq_isSome_stateOf?, hp] at hfresh
    cases hfresh
  · obtain rfl := (hl.live hg).1
    obtain ⟨x, rfl⟩ : ∃ x : Settlement, s = x.step t.id := by
      cases he with
      | fulfill => exact ⟨.fulfill .., rfl⟩
      | reject => exact ⟨.reject .., rfl⟩
      | expire => exact ⟨.expire, rfl⟩
      | fire => exact absurd rfl hs
    rw [perform_settlement hl] at hn ⊢
    cases hv : (x.verdict l now t.id).2 with
    | none =>
      rw [hv] at hn
      exact absurd hp hn
    | some r =>
      obtain ⟨v, hr⟩ := Settlement.get?_of_verdict hv
      exact ⟨x, r.1, r.2, rfl, (hl.live hr).1, rfl⟩

/-! ### Two ledgers that differ in the order of events -/

/-- The same accounts, records, histories and timers. What two ledgers have told, and how the
lines of different transfers stand in their journals, may differ in the order. -/
structure Matches (l l' : Ledger) : Prop where
  info : l'.info = l.info
  accounts : l'.accounts = l.accounts
  connectors : l'.connectors = l.connectors
  sessions : l'.sessions = l.sessions
  escrow : l'.escrow = l.escrow
  records : l'.book.entries = l.book.entries
  history : ∀ id, l'.book.journal.history id = l.book.journal.history id
  journal : l'.book.journal.entries.Perm l.book.journal.entries
  adopted : l'.adopted = l.adopted
  log : l'.log = l.log

@[simp] theorem accounts_quiet (l : Ledger) : l.quiet.accounts = l.accounts := rfl

theorem Matches.refl (l : Ledger) : l.Matches l :=
  ⟨rfl, rfl, rfl, rfl, rfl, rfl, fun _ => rfl, .refl _, rfl, rfl⟩

/-- The ends of two transfers commute, whichever accounts they pay. -/
theorem matches_ended {t t' : Transfer} (ht : l.book.contains t.id) (ht' : l.book.contains t'.id)
    (hne : t.id ≠ t'.id) (e e' : Ending) :
    ((l.ended now t e).quiet.ended now t' e').quiet.Matches
      ((l.ended now t' e').quiet.ended now t e).quiet where
  info := rfl
  accounts := by
    -- Both amounts may go to one account, which then holds their sum.
    simp only [accounts_quiet, accounts_ended]
    refine Table.modify_comm l.accounts fun _ r => ?_
    simp only [Account.mk.injEq, true_and]
    omega
  connectors := rfl
  sessions := rfl
  escrow := by
    show l.escrow - t'.amount - t.amount = l.escrow - t.amount - t'.amount
    omega
  records := Table.insert_comm ht' ht (Ne.symm hne) _ _
  history id := by
    show ((l.book.put now t' _ _).put now t _ _).journal.history id =
      ((l.book.put now t _ _).put now t' _ _).journal.history id
    simp only [Book.history_put]
    by_cases hid : t.id = id
    · have hid' : t'.id ≠ id := fun h => hne (hid.trans h.symm)
      simp only [if_pos hid, if_neg hid']
    · simp only [if_neg hid]
  journal := by
    show (_ ++ [_] ++ [_] : List JournalEntry).Perm (_ ++ [_] ++ [_])
    rw [List.append_assoc, List.append_assoc]
    exact (List.Perm.swap ..).append_left _
  adopted := by
    show ((l.adopted.cancel t'.id).2.cancel t.id).2 = ((l.adopted.cancel t.id).2.cancel t'.id).2
    simp only [Alarm.cancel_eq]
    exact Alarm.without_comm ..
  log := rfl

theorem matches_decided {v v' : Option (Transfer × Ending)}
    (hv : ∀ r, v = some r → l.book.contains r.1.id)
    (hv' : ∀ r, v' = some r → l.book.contains r.1.id)
    (hne : ∀ r r', v = some r → v' = some r' → r.1.id ≠ r'.1.id) :
    ((l.decided now v).quiet.decided now v').quiet.Matches
      ((l.decided now v').quiet.decided now v).quiet := by
  cases v with
  | none => cases v' <;> exact .refl _
  | some r =>
    cases v' with
    | none => exact .refl _
    | some r' => exact matches_ended (hv r rfl) (hv' r' rfl) (hne r r' rfl rfl) r.2 r'.2

/-- A settlement answers the same and ends the same before and after another one. -/
theorem verdict_decided {v : Option (Transfer × Ending)}
    (hv : ∀ r, v = some r → r.1.id ≠ id) (x : Settlement) :
    x.verdict (l.decided now v).quiet now id = x.verdict l now id := by
  refine Settlement.verdict_congr ?_ x
  cases v with
  | none => rfl
  | some r => exact Book.get?_put.trans (if_neg (Ne.symm (hv r rfl)))

/-- The calls that a verdict makes to the listeners. -/
def calls (l : Ledger) (v : Option (Transfer × Ending)) : List (Listener × Notice) :=
  v.elim [] fun r => l.sessions.map fun s => (s.listener, r.2.notice r.1)

theorem callbacks_decided (hq : l.notices = []) (now : Int) (v : Option (Transfer × Ending)) :
    (l.decided now v).callbacks = l.calls v := by
  cases v with
  | none => rw [decided, Option.elim_none, callbacks, hq, List.flatMap_nil, calls, Option.elim_none]
  | some r => exact (settles_ended hq now r.1 r.2).callbacks

theorem calls_decided (l : Ledger) (now : Int) (v v' : Option (Transfer × Ending)) :
    (l.decided now v).quiet.calls v' = l.calls v' := by
  cases v <;> rfl

namespace Chronicle

variable {info : LedgerInfo} {l₀ : Ledger} {c : Chronicle}

theorem next_settlement (hc : c.ledger.Sound) (now : Int) (id : Bytes) (x : Settlement) :
    c.next now (x.step id) = c.record (x.step id) (x.verdict c.ledger now id).1
      (c.ledger.decided now (x.verdict c.ledger now id).2) := by
  rw [next, perform_settlement hc]

/-- What a settlement does right after one of another transfer. -/
theorem second_settlement (hc : c.ledger.Sound) (hq : c.ledger.notices = []) (now : Int)
    {id id' : Bytes} (hne : id ≠ id') (x y : Settlement) :
    let v := (x.verdict c.ledger now id).2
    let v' := (y.verdict c.ledger now id').2
    let d := c.next now (x.step id)
    ((y.step id').perform now d.ledger).1 = ((y.step id').perform now c.ledger).1 ∧
    (d.next now (y.step id')).ledger = ((c.ledger.decided now v).quiet.decided now v').quiet ∧
    d.callbacks = c.callbacks ++ c.ledger.calls v ∧
    (d.next now (y.step id')).callbacks =
      c.callbacks ++ c.ledger.calls v ++ c.ledger.calls v' := by
  intro v v' d
  have hd : d = c.record (x.step id) (x.verdict c.ledger now id).1 (c.ledger.decided now v) :=
    next_settlement hc now id x
  have hledger : d.ledger = (c.ledger.decided now v).quiet := congrArg (·.ledger) hd
  have hsound : d.ledger.Sound := (sound_perform hc now (x.step id)).quiet
  have hverdict : y.verdict d.ledger now id' = y.verdict c.ledger now id' := by
    rw [hledger]
    refine verdict_decided (fun r hr => ?_) y
    obtain ⟨u, hg⟩ := Settlement.get?_of_verdict hr
    exact (hc.live hg).1.trans_ne hne
  have hnext := next_settlement hsound now id' y
  have hcalls : d.callbacks = c.callbacks ++ c.ledger.calls v := by
    rw [hd, record, callbacks_decided hq]
  refine ⟨?_, ?_, hcalls, ?_⟩
  · rw [perform_settlement hsound, perform_settlement hc, hverdict]
  · rw [hnext, hverdict, record, hledger]
  · rw [hnext, hverdict, record, hcalls, hledger, callbacks_decided rfl, calls_decided]

/-- After every run, two settlements of different transfers, at one reading of the clock and with
any callers, fulfillments and reasons, can change places. Each answers as if it were alone, and
they leave the same accounts, escrow, records, histories and timers; the listeners hear the same
of each, in the order of the calls. -/
theorem settlements_commute (hl : make info = .ok l₀) (steps : List (Int × Step)) (now : Int)
    {id id' : Bytes} (hne : id ≠ id') (x y : Settlement) :
    let c := run l₀ steps
    let s := x.step id
    let s' := y.step id'
    let c₁ := run l₀ (steps ++ [(now, s), (now, s')])
    let c₂ := run l₀ (steps ++ [(now, s'), (now, s)])
    (s.perform now (c.next now s').ledger).1 = (s.perform now c.ledger).1 ∧
    (s'.perform now (c.next now s).ledger).1 = (s'.perform now c.ledger).1 ∧
    c₁.ledger.Matches c₂.ledger ∧
    ∃ calls calls',
      (c.next now s).callbacks = c.callbacks ++ calls ∧
      (c.next now s').callbacks = c.callbacks ++ calls' ∧
      c₁.callbacks = c.callbacks ++ calls ++ calls' ∧
      c₂.callbacks = c.callbacks ++ calls' ++ calls := by
  intro c s s' c₁ c₂
  have hs : c.ledger.Sound := sound_run (sound_of_make hl) steps
  have hq : c.ledger.notices = [] := (narrated_run hl steps).silent
  have h₁ : c₁ = (c.next now s).next now s' := by simp [c₁, c, run]
  have h₂ : c₂ = (c.next now s').next now s := by simp [c₂, c, run]
  have hmem : ∀ i (z : Settlement) r, (z.verdict c.ledger now i).2 = some r →
      r.1.id = i ∧ c.ledger.book.contains r.1.id := by
    intro i z r hr
    obtain ⟨u, hg⟩ := Settlement.get?_of_verdict hr
    have hid := (hs.live hg).1
    exact ⟨hid, Book.contains_iff_get?.2 ⟨_, hid ▸ hg⟩⟩
  obtain ⟨hanswer', hledger₁, hcalls, hcalls₁⟩ := second_settlement hs hq now hne x y
  obtain ⟨hanswer, hledger₂, hcalls', hcalls₂⟩ := second_settlement hs hq now hne.symm y x
  refine ⟨hanswer, hanswer', ?_, _, _, hcalls, hcalls', h₁ ▸ hcalls₁, h₂ ▸ hcalls₂⟩
  rw [h₁, h₂, hledger₁, hledger₂]
  refine matches_decided (fun r hr => (hmem id x r hr).2) (fun r hr => (hmem id' y r hr).2) ?_
  intro r r' hr hr' heq
  exact hne ((hmem id x r hr).1.symm.trans (heq.trans (hmem id' y r' hr').1))

/-- One payment is fulfilled and the other one, between the same accounts, expires. In either
order both go through, and the listener hears of both. -/
theorem settlements_commute_shared :
    make Sample.ledger.info = .ok Sample.ledger ∧ ("p" : Bytes) ≠ "q" ∧
    let s : Step := .fulfill "p" Sample.bob Sample.preimage
    let s' : Step := .expire "q"
    let c₁ := run Sample.ledger (sampleShared ++ [(50, s), (50, s')])
    let c₂ := run Sample.ledger (sampleShared ++ [(50, s'), (50, s)])
    c₁.ledger.Matches c₂.ledger ∧
    c₁.ledger.book.stateOf? "p" = some .executed ∧ c₁.ledger.book.stateOf? "q" = some .expired ∧
    c₁.ledger.balance? Sample.bob = some 30 ∧ c₁.callbacks ≠ c₂.callbacks := by
  have hl : make Sample.ledger.info = .ok Sample.ledger := rfl
  have hne : ("p" : Bytes) ≠ "q" := by decide
  obtain ⟨-, -, hmatches, -⟩ := settlements_commute hl sampleShared 50 hne
    (.fulfill Sample.bob Sample.preimage) .expire
  exact ⟨hl, hne, hmatches, by decide +kernel, by decide +kernel, by decide +kernel,
    by decide +kernel⟩

end Chronicle

end Ledger

end Interledger
