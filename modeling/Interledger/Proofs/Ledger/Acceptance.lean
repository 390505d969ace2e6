import Interledger.Proofs.Ledger.Callbacks

/-! What preparing a transfer comes to.

A transfer is refused for a party that has no account here, and then for an id that was
accepted before, also when the record of that id is gone. Every other transfer is accepted: it
is rejected when its sender cannot pay, and is otherwise in escrow or, without a condition,
with its receiver. `Accepts` lists what that changes; neither the packet nor the expiry has a
say in it. -/

namespace Interledger.Ledger

variable {l l' : Ledger} {now : Int} {t : Transfer}

/-! ### Every account is below the prefix of its ledger -/

def Housed (l : Ledger) : Prop := ∀ a, l.hasAccount a → l.info.address.covers a

section
variable {s : Step} {answer : Except Error Answer}

theorem Effect.info_eq (h : l.Effect now s answer l') : l'.info = l.info := by
  cases h with
  | calm h => cases h <;> rfl
  | _ => rfl

theorem Effect.hasAccount (h : l.Effect now s answer l') {a : Address} (ha : l'.hasAccount a) :
    l.hasAccount a ∨ ∃ name balance, s = .addAccount a name balance ∧ answer = .ok .done := by
  cases h with
  | calm h => exact .inl ((congrArg (·.contains a) h.accounts_eq).symm.trans ha)
  | @opened a' name balance hb hn =>
    simp only [Ledger.hasAccount, Table.contains_insert, Bool.or_eq_true, decide_eq_true_eq] at ha
    rcases ha with rfl | ha
    · exact .inr ⟨name, balance, rfl, rfl⟩
    · exact .inl ha
  | declined ht hb hlt => exact .inl ha
  | funded ht hb hle hc => exact .inl ((contains_funded ..).symm.trans ha)
  | executed ht hb hle hc =>
    exact .inl (((contains_ended ..).trans (contains_funded ..)).symm.trans ha)
  | ended adopted log hg hs => exact .inl ((contains_ended ..).symm.trans ha)

end

theorem covers_of_addAccount {a : Address} {name : Bytes} {balance : Int}
    (h : ∀ e, (l.addAccount a name balance).1 ≠ .error e) : l.info.address.covers a := by
  unfold addAccount at h
  split at h
  · exact absurd rfl (h _)
  next hc =>
    simp only [Bool.or_eq_true, Bool.not_eq_true', not_or, Bool.not_eq_false] at hc
    exact hc.2

theorem Housed.perform (hh : l.Housed) (hl : l.Sound) (now : Int) (s : Step) :
    (s.perform now l).2.Housed := by
  have he := perform_effect hl now s
  intro a ha
  rw [he.info_eq]
  rcases he.hasAccount ha with ha | ⟨name, balance, rfl, hok⟩
  · exact hh a ha
  · have hcall : ∀ e, (l.addAccount a name balance).1 ≠ .error e := by
      intro e he
      simp only [Step.perform, he] at hok
      cases hok
    exact covers_of_addAccount hcall

theorem housed_run {info : LedgerInfo} {l : Ledger} (hl : make info = .ok l)
    (steps : List (Int × Step)) : (Chronicle.run l steps).ledger.Housed := by
  induction steps using List.reverseRecOn with
  | nil =>
    rw [make_eq_ok hl]
    intro a ha
    cases ha
  | append_singleton steps s ih =>
    rw [Chronicle.run_concat]
    exact ih.perform (Chronicle.sound_run (sound_of_make hl) steps) s.1 s.2

/-! ### Refusals -/

/-- On a ledger that houses its accounts, a party is refused just when it has none. -/
theorem partyError?_eq_none_iff (hh : l.Housed) {party : Party} {a : Address} :
    l.partyError? party a = none ↔ l.hasAccount a := by
  refine ⟨partyError?_eq_none, fun ha => ?_⟩
  rw [partyError?, hh a ha, if_neg (by simp), if_neg (by simp [show l.accounts.contains a from ha])]

theorem kind_of_partyError? {party : Party} {a : Address} {e : Error}
    (h : l.partyError? party a = some e) : e.kind = .invalidAccount := by
  unfold partyError? at h
  split at h
  · cases h
    rfl
  split at h
  · cases h
    rfl
  · cases h

/-! ### What an accepted transfer changes -/

/-- The history of a transfer that has just been accepted, whose sender had a balance. -/
def trail (now : Int) (t : Transfer) (balance : Int) : TransferState → List JournalEntry
  | .rejected => [⟨t.id, .proposed, now, none⟩,
      ⟨t.id, .rejected, now, some (shortfall balance t.amount)⟩]
  | .executed => [⟨t.id, .proposed, now, none⟩, ⟨t.id, .prepared, now, none⟩,
      ⟨t.id, .executed, now, none⟩]
  | _ => [⟨t.id, .proposed, now, none⟩, ⟨t.id, .prepared, now, none⟩]

/-- All that changes when a transfer is accepted into a state: its record and its history, what
its sender pays unless it is rejected, and where that goes. -/
structure Accepts (l l' : Ledger) (now : Int) (t : Transfer) (balance : Int)
    (s : TransferState) : Prop where
  info : l'.info = l.info
  record : ∀ id, l'.book.entries.get? id =
    if id = t.id then some (.live t s now) else l.book.entries.get? id
  history : ∀ id, l'.book.journal.history id =
    if id = t.id then trail now t balance s else l.book.journal.history id
  accounts : ∀ a, l'.accounts.get? a = (l.accounts.get? a).map fun r => { r with
    balance := r.balance - (if a = t.sender ∧ s ≠ .rejected then t.amount else 0)
      + if a = t.receiver ∧ s = .executed then t.amount else 0 }
  escrow : l'.escrow = l.escrow + if s = .prepared then t.amount else 0
  connectors : l'.connectors = l.connectors
  sessions : l'.sessions = l.sessions

section
variable (now) (hold : l.book.journal.history t.id = [])
include hold

theorem accepts_declined (balance : Int) :
    l.Accepts (l.declined now t balance) now t balance .rejected where
  info := rfl
  record := get?_declined l now t balance
  history id := by
    show (((l.book.put now t .proposed none).put now t .rejected _).journal.history id) = _
    rw [Book.history_put, Book.history_put]
    by_cases hid : id = t.id
    · simp [hid, hold, trail]
    · simp [hid, Ne.symm hid]
  accounts a := by simp [declined, notify]
  escrow := by simp [declined, notify]
  connectors := rfl
  sessions := rfl

theorem accepts_funded (balance : Int) :
    l.Accepts (l.funded now t) now t balance .prepared where
  info := rfl
  record := get?_funded l now t
  history id := by
    rw [book_funded, Book.history_put, Book.history_put]
    by_cases hid : id = t.id
    · simp [hid, hold, trail]
    · simp [hid, Ne.symm hid]
  accounts a := by
    rw [accounts_funded, Table.get?_modify]
    by_cases ha : a = t.sender
    · simp [ha, Int.sub_eq_add_neg]
    · simp [ha]
  escrow := by simp
  connectors := rfl
  sessions := rfl

theorem accepts_executed (balance : Int) :
    l.Accepts ((l.funded now t).ended now t (.executed none)) now t balance .executed where
  info := rfl
  record := get?_funded_ended l now t (.executed none)
  history id := by
    rw [book_ended, Book.history_put, book_funded, Book.history_put, Book.history_put]
    by_cases hid : id = t.id
    · simp [hid, hold, trail, Ending.state, Ending.reason?]
    · simp [hid, Ne.symm hid]
  accounts a := by
    -- The sender and the receiver are not the same, so that each balance changes once.
    have hne := t.sender_ne_receiver
    rw [accounts_ended, Table.get?_modify, accounts_funded, Table.get?_modify]
    by_cases hs : a = t.sender
    · simp [hs, hne, Ending.payee, Int.sub_eq_add_neg]
    · by_cases hr : a = t.receiver
      · simp [hr, hne.symm, Ending.payee]
      · simp [hs, hr, Ending.payee]
  escrow := by simp
  connectors := rfl
  sessions := rfl

end

/-- Neither the packet nor the expiry of a transfer counts for what becomes of the money. -/
theorem prepare_congr (l : Ledger) (now : Int) (t : Transfer) (packet : Packet)
    (expiresAt : Option Int) :
    let t' : Transfer := { t with packet, expiresAt }
    (l.prepare now t').1 = (l.prepare now t).1 ∧
    (l.prepare now t').2.accounts = (l.prepare now t).2.accounts ∧
    (l.prepare now t').2.escrow = (l.prepare now t).2.escrow := by
  intro t'
  have hsame : l.refusal? t' = l.refusal? t := rfl
  cases hr : l.refusal? t with
  | some e =>
    rw [prepare_eq_of_refusal? hr, prepare_eq_of_refusal? (hsame.trans hr)]
    exact ⟨rfl, rfl, rfl⟩
  | none =>
    obtain ⟨b, -, hb, h⟩ := prepare_eq now hr
    obtain ⟨b', -, hb', h'⟩ := prepare_eq now (hsame.trans hr)
    obtain rfl : b' = b := Option.some.inj (hb'.symm.trans hb)
    rw [h, h']
    by_cases hlt : b' < t.amount
    · rw [if_pos hlt, if_pos hlt]
      exact ⟨rfl, rfl, rfl⟩
    · rw [if_neg hlt, if_neg hlt]
      by_cases hc : t.condition.isSome
      · rw [if_pos hc, if_pos hc]
        exact ⟨rfl, rfl, rfl⟩
      · rw [if_neg hc, if_neg hc]
        exact ⟨rfl, rfl, rfl⟩

/-- All that preparing a transfer comes to, on a ledger that knows no history of new ids. -/
theorem prepare_outcome (hh : l.Housed) (now : Int) (t : Transfer)
    (hold : l.book.contains t.id = false → l.book.journal.history t.id = []) :
    (¬(l.hasAccount t.sender ∧ l.hasAccount t.receiver) ∧
      ∃ e, l.prepare now t = (.error e, l) ∧ e.kind = .invalidAccount) ∨
    ((l.hasAccount t.sender ∧ l.hasAccount t.receiver) ∧ l.book.contains t.id ∧
      l.prepare now t = (.error (.transferKnown t.id), l)) ∨
    ((l.hasAccount t.sender ∧ l.hasAccount t.receiver) ∧ l.book.contains t.id = false ∧
      ∃ balance s, l.balance? t.sender = some balance ∧
        s = (if balance < t.amount then .rejected
          else if t.condition.isSome then .prepared else .executed) ∧
        (l.prepare now t).1 = .ok s ∧ l.Accepts (l.prepare now t).2 now t balance s) := by
  cases hs : l.partyError? .sender t.sender with
  | some e =>
    refine .inl ⟨fun h => ?_, e, prepare_eq_of_refusal? ?_, kind_of_partyError? hs⟩
    · rw [(partyError?_eq_none_iff hh).2 h.1] at hs
      cases hs
    · rw [refusal?, hs, Option.some_or]
  | none =>
  cases hr : l.partyError? .receiver t.receiver with
  | some e =>
    refine .inl ⟨fun h => ?_, e, prepare_eq_of_refusal? ?_, kind_of_partyError? hr⟩
    · rw [(partyError?_eq_none_iff hh).2 h.2] at hr
      cases hr
    · rw [refusal?, hs, hr, Option.none_or, Option.some_or]
  | none =>
  have hparty : l.hasAccount t.sender ∧ l.hasAccount t.receiver :=
    ⟨partyError?_eq_none hs, partyError?_eq_none hr⟩
  have href : l.refusal? t = if l.book.contains t.id then some (.transferKnown t.id) else none := by
    rw [refusal?, hs, hr, Option.none_or, Option.none_or]
  cases hk : l.book.contains t.id with
  | true => exact .inr (.inl ⟨hparty, rfl, prepare_eq_of_refusal? (href.trans (if_pos hk))⟩)
  | false =>
    obtain ⟨balance, -, hb, h⟩ := prepare_eq now (href.trans (if_neg (by simp [hk])))
    refine .inr (.inr ⟨hparty, rfl, balance, _, hb, rfl, ?_⟩)
    rw [h]
    by_cases hlt : balance < t.amount
    · rw [if_pos hlt, if_pos hlt]
      exact ⟨rfl, accepts_declined now (hold hk) balance⟩
    · rw [if_neg hlt, if_neg hlt]
      by_cases hc : t.condition.isSome
      · rw [if_pos hc, if_pos hc]
        exact ⟨rfl, accepts_funded now (hold hk) balance⟩
      · rw [if_neg hc, if_neg hc]
        exact ⟨rfl, accepts_executed now (hold hk) balance⟩

namespace Chronicle

variable {c : Chronicle}

/-- The book knows just the ids that were accepted. -/
theorem contains_iff_accepted (hf : c.Filed) (hc : c.Narrated) {id : Bytes} :
    c.ledger.book.contains id ↔ ∃ u ∈ c.accepted, u.id = id := by
  constructor
  · intro h
    have hs := hc.stories id
    rw [Book.contains_eq_isSome_stateOf?, Option.isSome_iff_exists] at h
    obtain ⟨s, hst⟩ := h
    rw [hst] at hs
    generalize c.told.filter (·.isAbout id) = told at hs
    cases hs with
    | prepared ht hid => exact ⟨_, ht, hid⟩
    | declined ht hid reason => exact ⟨_, ht, hid⟩
    | ended ht hid e => exact ⟨_, ht, hid⟩
  · rintro ⟨u, hu, rfl⟩
    exact hf.known u hu

/-- What the book does not know has no history. -/
theorem history_of_unknown (hc : c.Narrated) {id : Bytes} (h : c.ledger.book.contains id = false) :
    c.ledger.book.journal.history id = [] := by
  have hnone : c.ledger.book.find? id = none := by
    rw [Book.find?, Table.get?_eq_none_iff.2 h]
    rfl
  rw [Journal.history, hc.journal, List.filter_filter, List.filter_eq_nil_iff]
  rintro e - he
  simp only [Bool.and_eq_true, decide_eq_true_eq] at he
  rw [he.1, hnone] at he
  exact absurd he.2 Bool.false_ne_true

/-- After every run, preparing a transfer fails for an account just when its sender or its
receiver has none, and else as a duplicate just when its id was accepted before. Otherwise its
sender has a balance, which alone decides with the amount and the condition what the transfer is
left as, and `Accepts` tells all that changes. The packet and the expiry make no difference. -/
theorem prepare_outcomes {info : LedgerInfo} {l₀ : Ledger} (hl : make info = .ok l₀)
    (steps : List (Int × Step)) (now : Int) (t : Transfer) :
    let c := run l₀ steps
    let l := c.ledger
    ((∃ e, (l.prepare now t).1 = .error e ∧ e.kind = .invalidAccount) ↔
      ¬(l.hasAccount t.sender ∧ l.hasAccount t.receiver)) ∧
    ((∃ e, (l.prepare now t).1 = .error e ∧ e.kind = .duplicateTransfer) ↔
      (l.hasAccount t.sender ∧ l.hasAccount t.receiver) ∧ ∃ u ∈ c.accepted, u.id = t.id) ∧
    (l.hasAccount t.sender → l.hasAccount t.receiver → (∀ u ∈ c.accepted, u.id ≠ t.id) →
      ∃ balance s, l.balance? t.sender = some balance ∧
        s = (if balance < t.amount then .rejected
          else if t.condition.isSome then .prepared else .executed) ∧
        (l.prepare now t).1 = .ok s ∧ l.Accepts (l.prepare now t).2 now t balance s) ∧
    ∀ packet expiresAt,
      let t' : Transfer := { t with packet, expiresAt }
      (l.prepare now t').1 = (l.prepare now t).1 ∧
      (l.prepare now t').2.accounts = (l.prepare now t).2.accounts ∧
      (l.prepare now t').2.escrow = (l.prepare now t).2.escrow := by
  intro c l
  have hn := narrated_run hl steps
  have hknown : l.book.contains t.id ↔ ∃ u ∈ c.accepted, u.id = t.id :=
    contains_iff_accepted (filed_run hl steps) hn
  have hcongr := prepare_congr l now t
  rcases prepare_outcome (housed_run hl steps) now t (history_of_unknown hn) with
    ⟨hparty, e, he, hkind⟩ | ⟨hparty, hk, he⟩ | ⟨hparty, hk, balance, s, hb, hs, hok, hacc⟩
  · refine ⟨⟨fun _ => hparty, fun _ => ⟨e, by rw [he], hkind⟩⟩, ⟨?_, fun h => absurd h.1 hparty⟩,
      fun hsend hrecv => absurd ⟨hsend, hrecv⟩ hparty, hcongr⟩
    rintro ⟨e', he', hkind'⟩
    rw [he] at he'
    cases he'
    rw [hkind] at hkind'
    cases hkind'
  · refine ⟨⟨?_, fun h => absurd hparty h⟩,
      ⟨fun _ => ⟨hparty, hknown.1 hk⟩, fun _ => ⟨_, by rw [he], rfl⟩⟩, fun _ _ hfresh => ?_, hcongr⟩
    · rintro ⟨e', he', hkind'⟩
      rw [he] at he'
      cases he'
      cases hkind'
    · obtain ⟨u, hu, hid⟩ := hknown.1 hk
      exact absurd hid (hfresh u hu)
  · refine ⟨⟨?_, fun h => absurd hparty h⟩, ⟨?_, fun h => ?_⟩,
      fun _ _ _ => ⟨balance, s, hb, hs, hok, hacc⟩, hcongr⟩
    · rintro ⟨e', he', -⟩
      rw [hok] at he'
      cases he'
    · rintro ⟨e', he', -⟩
      rw [hok] at he'
      cases he'
    · rw [hknown.2 h.2] at hk
      cases hk

/-- One payment of the whole balance is in escrow, fulfilled and pruned. -/
def sampleSpent : List (Int × Step) := Sample.setUp ++ [
  (1, .prepare (Sample.locked 'p')), (2, .fulfill "p" Sample.bob Sample.preimage), (3, .prune 10)]

/-- Its id stays taken, while the next payment goes into escrow. -/
theorem prepare_outcomes_spent :
    make Sample.ledger.info = .ok Sample.ledger ∧
    let l := (run Sample.ledger sampleSpent).ledger
    (∃ e, (l.prepare 4 (Sample.payment 'p' none)).1 = .error e ∧ e.kind = .duplicateTransfer) ∧
    (l.prepare 4 (Sample.locked 'q')).1 = .ok .prepared ∧
    (l.prepare 4 (Sample.locked 'q')).2.book.journal.history "q" =
      [⟨"q", .proposed, 4, none⟩, ⟨"q", .prepared, 4, none⟩] ∧
    (l.prepare 4 (Sample.locked 'q')).2.escrow = 30 := by
  have hl : make Sample.ledger.info = .ok Sample.ledger := rfl
  have haccepted : (run Sample.ledger sampleSpent).accepted = [Sample.locked 'p'] := by
    decide +kernel
  have hparty : (run Sample.ledger sampleSpent).ledger.hasAccount Sample.alice ∧
      (run Sample.ledger sampleSpent).ledger.hasAccount Sample.bob := by decide +kernel
  have hbalance : (run Sample.ledger sampleSpent).ledger.balance? Sample.alice = some 70 := by
    decide +kernel
  obtain ⟨-, hduplicate, -⟩ := prepare_outcomes hl sampleSpent 4 (Sample.payment 'p' none)
  obtain ⟨-, -, haccepts, -⟩ := prepare_outcomes hl sampleSpent 4 (Sample.locked 'q')
  obtain ⟨b, s, hb, hs, hok, hacc⟩ := haccepts hparty.1 hparty.2 (by
    rw [haccepted]
    decide)
  obtain rfl : b = 70 := Option.some.inj (hb.symm.trans hbalance)
  obtain rfl : s = .prepared := hs
  refine ⟨hl, hduplicate.2 ⟨hparty, Sample.locked 'p', ?_, rfl⟩, hok,
    (hacc.history "q").trans (if_pos rfl),
    hacc.escrow.trans ?_⟩
  · rw [haccepted]
    exact List.mem_singleton_self _
  · decide +kernel

end Chronicle

end Interledger.Ledger
