import Interledger.Proofs.Ledger.Adopted
import Interledger.Proofs.Ledger.Callbacks

/-! How a prepared transfer leaves escrow.

A fulfillment, a rejection and an expiry each go through under conditions on the record of one
transfer, the caller and the clock. What they change is listed in `Settles`: one record with
one entry of its history, the escrow and one balance, a timer of the same id, and one notice to
every session. Nothing else of the ledger is touched, however many transfers share the accounts. -/

namespace Interledger.Ledger

variable {l : Ledger} {now : Int} {id : Bytes}

/-- All that changes when a prepared transfer comes to a state for a reason: its amount goes to
one account, and a notice to every session. -/
structure Settles (l l' : Ledger) (now : Int) (t : Transfer) (s : TransferState)
    (reason : Option Reason) (payee : Address) (notice : Notice) : Prop where
  info : l'.info = l.info
  record : ∀ id, l'.book.entries.get? id =
    if id = t.id then some (.live t s now) else l.book.entries.get? id
  history : ∀ id, l'.book.journal.history id =
    if id = t.id then l.book.journal.history id ++ [⟨id, s, now, reason⟩]
    else l.book.journal.history id
  escrow : l'.escrow = l.escrow - t.amount
  accounts : ∀ a, l'.accounts.get? a = if a = payee
    then (l.accounts.get? a).map fun r => { r with balance := r.balance + t.amount }
    else l.accounts.get? a
  adopted : l'.adopted = l.adopted.without [t.id]
  callbacks : l'.callbacks = l.sessions.map fun x => (x.listener, notice)
  connectors : l'.connectors = l.connectors
  sessions : l'.sessions = l.sessions
  log : l'.log = l.log

theorem settles_ended (hq : l.notices = []) (now : Int) (t : Transfer) (e : Ending) :
    l.Settles (l.ended now t e) now t e.state e.reason? (e.payee t) (e.notice t) where
  info := rfl
  record _ := Book.get?_put
  history id := by
    rw [book_ended, Book.history_put]
    by_cases hid : id = t.id
    · rw [if_pos hid.symm, if_pos hid, hid]
    · rw [if_neg (Ne.symm hid), if_neg hid]
  escrow := rfl
  accounts a := Table.get?_modify ..
  adopted := adopted_ended l now t e
  callbacks := by
    rw [Ledger.callbacks, notices_ended, sessions_ended, hq]
    exact List.append_nil _
  connectors := rfl
  sessions := rfl
  log := rfl

/-! ### When the three calls go through -/

theorem any_le_eq_false_iff {expiry : Option Int} :
    expiry.any (· ≤ now) = false ↔ ∀ x, expiry = some x → now < x := by
  cases expiry with
  | none => simp
  | some x => simp

theorem fulfill_eq_ok_iff (hl : l.Sound) {caller : Address} {f : Fulfillment} :
    (l.fulfill now id caller f).1 = .ok () ↔
      ∃ t u c, l.book.entries.get? id = some (.live t .prepared u) ∧ t.receiver = caller ∧
        (∀ x, t.expiresAt = some x → now < x) ∧ t.condition = some c ∧
        Sha256.digest f.bytes = c.digest := by
  constructor
  · intro h
    rcases fulfill_cases hl now id caller f with ⟨e, heq⟩ | ⟨t, u, hg, hu, -⟩
    · rw [heq] at h
      cases h
    · have hx := any_le_eq_false_iff.1 hu.before_expiry
      have hf := hu.fulfilled
      cases hc : t.condition with
      | none =>
        rw [hc] at hf
        cases hf
      | some c =>
        rw [hc] at hf
        exact ⟨t, u, c, hg, hu.receiver, hx, hc, by simpa [Condition.isFulfilledBy] using hf⟩
  · rintro ⟨t, u, c, hg, hr, hx, hc, hf⟩
    have hheld : l.held now id caller = .ok t :=
      held_eq_ok_iff.2 ⟨⟨u, hg⟩, hr, any_le_eq_false_iff.2 hx⟩
    have hopens : t.condition.any (·.isFulfilledBy f) := by
      simp [hc, Condition.isFulfilledBy, hf]
    rw [fulfill_eq hl, hheld]
    dsimp only
    rw [if_pos hopens]

theorem reject_eq_ok_iff (hl : l.Sound) {caller : Address} {reason : Reason} :
    (l.reject now id caller reason).1 = .ok () ↔
      ∃ t u, l.book.entries.get? id = some (.live t .prepared u) ∧ t.receiver = caller ∧
        ∀ x, t.expiresAt = some x → now < x := by
  constructor
  · intro h
    rcases reject_cases hl now id caller reason with ⟨e, heq⟩ | ⟨t, u, hg, hr, hx, -⟩
    · rw [heq] at h
      cases h
    · exact ⟨t, u, hg, hr, any_le_eq_false_iff.1 hx⟩
  · rintro ⟨t, u, hg, hr, hx⟩
    have hheld : l.held now id caller = .ok t :=
      held_eq_ok_iff.2 ⟨⟨u, hg⟩, hr, any_le_eq_false_iff.2 hx⟩
    rw [reject_eq hl, hheld]

theorem expire_eq_ok (hl : l.Sound) (now : Int) (id : Bytes) :
    (l.expire now id).1 = .ok (decide (l.book.stateOf? id = some .prepared)) := by
  rcases expire_cases hl now id with ⟨hn, heq⟩ | ⟨t, u, hg, heq⟩
  · have hs : l.book.stateOf? id ≠ some .prepared := by
      intro hs
      obtain ⟨t, u, hg⟩ := hl.prepared_iff.1 hs
      exact hn t u hg
    rw [heq, decide_eq_false hs]
  · have hs : l.book.stateOf? id = some .prepared := hl.prepared_iff.2 ⟨t, u, hg⟩
    rw [heq, decide_eq_true hs]

/-! ### What they change -/

theorem settles_fulfill (hl : l.Sound) (hq : l.notices = []) {caller : Address} {f : Fulfillment}
    (h : (l.fulfill now id caller f).1 = .ok ()) :
    ∃ t u, l.book.entries.get? id = some (.live t .prepared u) ∧ t.id = id ∧
      l.Settles (l.fulfill now id caller f).2 now t .executed none t.receiver
        (.executed t (some f)) := by
  rcases fulfill_cases hl now id caller f with ⟨e, heq⟩ | ⟨t, u, hg, -, heq⟩
  · rw [heq] at h
    cases h
  · rw [heq]
    exact ⟨t, u, hg, (hl.live hg).1, settles_ended hq now t (.executed (some f))⟩

theorem settles_reject (hl : l.Sound) (hq : l.notices = []) {caller : Address} {reason : Reason}
    (h : (l.reject now id caller reason).1 = .ok ()) :
    ∃ t u, l.book.entries.get? id = some (.live t .prepared u) ∧ t.id = id ∧
      l.Settles (l.reject now id caller reason).2 now t .rejected (some reason) t.sender
        (.rejected t reason) := by
  rcases reject_cases hl now id caller reason with ⟨e, heq⟩ | ⟨t, u, hg, -, -, heq⟩
  · rw [heq] at h
    cases h
  · rw [heq]
    exact ⟨t, u, hg, (hl.live hg).1, settles_ended hq now t (.rejected reason)⟩

theorem settles_expire (hl : l.Sound) (hq : l.notices = [])
    (h : (l.expire now id).1 = .ok true) :
    ∃ t u, l.book.entries.get? id = some (.live t .prepared u) ∧ t.id = id ∧
      l.Settles (l.expire now id).2 now t .expired (some .atDeadline) t.sender
        (.rejected t .atDeadline) := by
  rcases expire_cases hl now id with ⟨-, heq⟩ | ⟨t, u, hg, heq⟩
  · rw [heq] at h
    cases h
  · rw [heq]
    exact ⟨t, u, hg, (hl.live hg).1, settles_ended hq now t .expired⟩

namespace Chronicle

/-- After every run, a fulfillment goes through just when the transfer is held as prepared, for
its receiver, before its expiry and with a preimage of its condition; a rejection just when the
same holds but for the preimage; and an expiry just when the transfer is prepared. Each then
settles this one transfer, with the receiver or the sender as the payee, and changes nothing
else. -/
theorem transfers_settle {info : LedgerInfo} {l₀ : Ledger} (hl : make info = .ok l₀)
    (steps : List (Int × Step)) (now : Int) (id : Bytes) :
    let l := (run l₀ steps).ledger
    (∀ caller f, (l.fulfill now id caller f).1 = .ok () ↔
      ∃ t u c, l.book.entries.get? id = some (.live t .prepared u) ∧ t.receiver = caller ∧
        (∀ x, t.expiresAt = some x → now < x) ∧ t.condition = some c ∧
        Sha256.digest f.bytes = c.digest) ∧
    (∀ caller reason, (l.reject now id caller reason).1 = .ok () ↔
      ∃ t u, l.book.entries.get? id = some (.live t .prepared u) ∧ t.receiver = caller ∧
        ∀ x, t.expiresAt = some x → now < x) ∧
    (l.expire now id).1 = .ok (decide (l.book.stateOf? id = some .prepared)) ∧
    (∀ caller f, (l.fulfill now id caller f).1 = .ok () →
      ∃ t u, l.book.entries.get? id = some (.live t .prepared u) ∧ t.id = id ∧
        l.Settles (l.fulfill now id caller f).2 now t .executed none t.receiver
          (.executed t (some f))) ∧
    (∀ caller reason, (l.reject now id caller reason).1 = .ok () →
      ∃ t u, l.book.entries.get? id = some (.live t .prepared u) ∧ t.id = id ∧
        l.Settles (l.reject now id caller reason).2 now t .rejected (some reason) t.sender
          (.rejected t reason)) ∧
    ((l.expire now id).1 = .ok true →
      ∃ t u, l.book.entries.get? id = some (.live t .prepared u) ∧ t.id = id ∧
        l.Settles (l.expire now id).2 now t .expired (some .atDeadline) t.sender
          (.rejected t .atDeadline)) := by
  intro l
  have hs : l.Sound := sound_run (sound_of_make hl) steps
  have hq : l.notices = [] := (narrated_run hl steps).silent
  exact ⟨fun _ _ => fulfill_eq_ok_iff hs, fun _ _ => reject_eq_ok_iff hs, expire_eq_ok hs now id,
    fun _ _ => settles_fulfill hs hq, fun _ _ => settles_reject hs hq, settles_expire hs hq⟩

/-- Two payments between the same accounts are in escrow. The timer of one has been adopted, and
somebody listens. -/
def sampleShared : List (Int × Step) := Sample.setUp ++ [
  (0, .attach Sample.bob (.outside "w")), (1, .prepare (Sample.locked 'p')),
  (2, .prepare (Sample.locked 'q')), (3, .adopt ⟨"p", 100⟩)]

/-- The first one is fulfilled in time, and the second one stays as it was. -/
theorem transfers_settle_shared :
    make Sample.ledger.info = .ok Sample.ledger ∧
    let l := (run Sample.ledger sampleShared).ledger
    let l' := (l.fulfill 99 "p" Sample.bob Sample.preimage).2
    (l.fulfill 99 "p" Sample.bob Sample.preimage).1 = .ok () ∧
    l'.escrow = 30 ∧ l'.adopted.timers.list = [] ∧
    l'.book.entries.get? "q" = some (.live (Sample.locked 'q') .prepared 2) ∧
    l'.callbacks = [(.outside "w", .executed (Sample.locked 'p') (some Sample.preimage))] := by
  have hl : make Sample.ledger.info = .ok Sample.ledger := rfl
  have hg : (run Sample.ledger sampleShared).ledger.book.entries.get? "p" =
      some (.live (Sample.locked 'p') .prepared 1) := by decide +kernel
  have hq : (run Sample.ledger sampleShared).ledger.book.entries.get? "q" =
      some (.live (Sample.locked 'q') .prepared 2) := by decide +kernel
  obtain ⟨hfulfill, -, -, hsettles, -⟩ := transfers_settle hl sampleShared 99 "p"
  have hok := (hfulfill Sample.bob Sample.preimage).2
    ⟨_, _, _, hg, rfl, by simp [Sample.locked, Sample.payment], rfl, rfl⟩
  obtain ⟨t, u, ht, -, hs⟩ := hsettles _ _ hok
  obtain ⟨rfl, rfl⟩ : t = Sample.locked 'p' ∧ u = 1 := by
    rw [hg] at ht
    cases ht
    exact ⟨rfl, rfl⟩
  refine ⟨hl, hok, hs.escrow.trans (by decide +kernel), ?_, ?_, hs.callbacks⟩
  · rw [hs.adopted]
    decide +kernel
  · rw [hs.record, if_neg (by decide)]
    exact hq

end Chronicle

end Interledger.Ledger
