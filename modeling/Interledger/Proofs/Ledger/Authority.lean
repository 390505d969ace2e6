import Interledger.Proofs.Ledger.Runs

/-! Which steps of a ledger take money from an account, execute a transfer and reject one.

A balance drops only when a transfer from the account is prepared. A transfer with a
condition is executed only by its receiver with a preimage of the condition, and a prepared
one is rejected only by its receiver, which pays back what was accepted. -/

namespace Interledger.Ledger

variable {l l' : Ledger} {now : Int} {s : Step} {answer : Except Error Answer}

/-- An account never goes away, and its balance drops only by the amount of a transfer that
it sends. -/
theorem Effect.balance (h : l.Effect now s answer l') {a : Address} {b : Int}
    (hb : l.balance? a = some b) : ∃ b', l'.balance? a = some b' ∧
      (b' < b → ∃ t, s = .prepare t ∧ t.sender = a ∧ b' = b - t.amount) := by
  have hsame : ∀ {l' : Ledger}, l'.accounts = l.accounts → l'.balance? a = some b := by
    intro l' ha
    rw [balance?, ha]
    exact hb
  cases h with
  | calm h => exact ⟨b, hsame h.accounts_eq, fun hlt => by omega⟩
  | @opened a' name balance hpos ha =>
    have hne : a ≠ a' := by
      rintro rfl
      rw [balance?, Table.get?_eq_none_iff.2 ha] at hb
      cases hb
    refine ⟨b, ?_, fun hlt => by omega⟩
    simp only [balance?, Table.get?_insert, if_neg hne]
    exact hb
  | declined ht hbal hlt => exact ⟨b, hsame rfl, fun hlt => by omega⟩
  | @funded t balance ht hbal hle hc =>
    rw [balance?_funded, hb]
    by_cases ha : a = t.sender
    · exact ⟨b + -t.amount, by rw [if_pos ha]; rfl, fun _ => ⟨t, rfl, ha.symm, by omega⟩⟩
    · exact ⟨b, if_neg ha, fun hlt => by omega⟩
  | @executed t balance ht hbal hle hc =>
    have hpos := t.amount_nonneg
    rw [balance?_ended, balance?_funded, hb]
    by_cases ha : a = t.sender
    · have hne : a ≠ (Ending.executed none).payee t := ha ▸ t.sender_ne_receiver
      refine ⟨b + -t.amount, ?_, fun _ => ⟨t, rfl, ha.symm, by omega⟩⟩
      rw [if_neg hne, if_pos ha]
      rfl
    · rw [if_neg ha]
      by_cases hr : a = (Ending.executed none).payee t
      · exact ⟨b + t.amount, if_pos hr, fun hlt => by omega⟩
      · exact ⟨b, if_neg hr, fun hlt => by omega⟩
  | @ended s answer t u e adopted log hg hs =>
    have hpos := t.amount_nonneg
    have hbal : { l.ended now t e with adopted, log }.balance? a =
        if a = e.payee t then (l.balance? a).map (· + t.amount) else l.balance? a :=
      balance?_ended l now t e a
    rw [hbal, hb]
    by_cases ha : a = e.payee t
    · exact ⟨b + t.amount, if_pos ha, fun hlt => by omega⟩
    · exact ⟨b, if_neg ha, fun hlt => by omega⟩

namespace Chronicle

variable {c : Chronicle} {t : Transfer}

/-- An accepted transfer comes into another state by being prepared, or by being ended. -/
theorem moved (hf : c.Filed) (h : c.ledger.Effect now s answer l')
    (ht : t ∈ (c.record s answer l').accepted)
    (hne : l'.book.stateOf? t.id ≠ c.ledger.book.stateOf? t.id) :
    (s = .prepare t ∧ c.ledger.book.stateOf? t.id = none ∧
      (t.condition.isSome → l'.book.stateOf? t.id ≠ some .executed)) ∨
    ∃ answer' e adopted log, Ends now s answer' t e ∧ l'.book.stateOf? t.id = some e.state ∧
      l' = { c.ledger.ended now t e with adopted, log } := by
  -- What a successful preparation of another transfer leaves of this one.
  have hother : ∀ {t' : Transfer} {st : TransferState}, c.ledger.Admits t' →
      (∀ id, l'.book.entries.get? id =
        if id = t'.id then some (.live t' st now) else c.ledger.book.entries.get? id) →
      t ∈ c.accepted ++ [t'] → t = t' ∧ c.ledger.book.stateOf? t.id = none ∧
        l'.book.stateOf? t.id = some st := by
    intro t' st ha hg hmem
    have hst := Book.stateOf?_of_get? hg t.id
    rcases List.mem_append.1 hmem with hmem | hmem
    · rw [if_neg (hf.ne_of_fresh ha.fresh t hmem)] at hst
      exact absurd hst hne
    · obtain rfl := List.mem_singleton.1 hmem
      have hnone := ha.fresh
      rw [Book.contains_eq_isSome_stateOf?] at hnone
      exact ⟨rfl, by simpa using hnone, hst.trans (if_pos rfl)⟩
  cases h with
  | calm h => exact absurd (h.stateOf?_eq t.id) hne
  | opened hb ha => exact absurd rfl hne
  | declined ha hb hlt =>
    obtain ⟨rfl, hnone, hst⟩ := hother ha (get?_declined _ _ _ _) ht
    exact .inl ⟨rfl, hnone, fun _ => hst ▸ nofun⟩
  | funded ha hb hle hc =>
    obtain ⟨rfl, hnone, hst⟩ := hother ha (get?_funded _ _ _) ht
    exact .inl ⟨rfl, hnone, fun _ => hst ▸ nofun⟩
  | executed ha hb hle hc =>
    obtain ⟨rfl, hnone, hst⟩ := hother ha (get?_funded_ended _ _ _ _) ht
    refine .inl ⟨rfl, hnone, fun hsome => ?_⟩
    rw [hc] at hsome
    cases hsome
  | @ended s answer t' u e adopted log hg hs =>
    have hmem : t ∈ c.accepted := by
      have hacc := (ends_entries hs c.opened).2
      simpa [Chronicle.record, hacc] using ht
    have hst : { c.ledger.ended now t' e with adopted, log }.book.stateOf? t.id =
        if t.id = t'.id then some e.state else c.ledger.book.stateOf? t.id := Book.stateOf?_put
    by_cases hid : t.id = t'.id
    · obtain rfl : t' = t := hf.eq_of_live hmem hid.symm (hid ▸ hg)
      exact .inr ⟨answer, e, adopted, log, hs, hst.trans (if_pos rfl), rfl⟩
    · rw [if_neg hid] at hst
      exact absurd hst hne

/-- Who executes a transfer with a condition, and what everybody is told. -/
theorem executed_next (hf : c.Filed) (hl : c.ledger.Sound) (hq : c.ledger.notices = [])
    (ht : t ∈ (c.next now s).accepted) {cond : Condition} (hcond : t.condition = some cond)
    (hold : c.ledger.book.stateOf? t.id ≠ some .executed)
    (hnew : (c.next now s).ledger.book.stateOf? t.id = some .executed) :
    ∃ f, s = .fulfill t.id t.receiver f ∧ Sha256.digest f.bytes = cond.digest ∧
      (c.next now s).callbacks =
        c.callbacks ++ c.ledger.sessions.map fun x => (x.listener, .executed t (some f)) := by
  have he := perform_effect hl now s
  have hne : (s.perform now c.ledger).2.book.stateOf? t.id ≠ c.ledger.book.stateOf? t.id :=
    fun h => hold (h ▸ hnew)
  rcases moved hf he ht hne with ⟨-, -, hx⟩ | ⟨answer, e, adopted, log, hs, hst, hl'⟩
  · exact absurd hnew (hx (by rw [hcond]; rfl))
  · have hexec : e.state = .executed := Option.some.inj (hst.symm.trans hnew)
    cases hs with
    | @fulfill t f hu =>
      refine ⟨f, rfl, by simpa [hcond, Condition.isFulfilledBy] using hu.fulfilled, ?_⟩
      show c.callbacks ++ Ledger.callbacks (Step.perform now c.ledger _).2 = _
      rw [hl', Ledger.callbacks]
      show c.callbacks ++ (c.ledger.notices ++ [Notice.executed t (some f)]).flatMap _ = _
      rw [hq]
      exact congrArg (c.callbacks ++ ·) (List.append_nil _)
    | reject => cases hexec
    | expire => cases hexec
    | fire => cases hexec

/-- Who rejects a prepared transfer, and what is paid back. -/
theorem rejected_next (hf : c.Filed) (hl : c.ledger.Sound) (ht : t ∈ (c.next now s).accepted)
    (hold : c.ledger.book.stateOf? t.id = some .prepared)
    (hnew : (c.next now s).ledger.book.stateOf? t.id = some .rejected) :
    ∃ reason, s = .reject t.id t.receiver reason ∧
      (∀ a, (c.next now s).ledger.balance? a =
        if a = t.sender then (c.ledger.balance? a).map (· + t.amount) else c.ledger.balance? a) ∧
      (c.next now s).ledger.escrow = c.ledger.escrow - t.amount := by
  have he := perform_effect hl now s
  have hne : (s.perform now c.ledger).2.book.stateOf? t.id ≠ c.ledger.book.stateOf? t.id := by
    intro h
    rw [hold] at h
    cases h.symm.trans hnew
  rcases moved hf he ht hne with ⟨-, hnone, -⟩ | ⟨answer, e, adopted, log, hs, hst, hl'⟩
  · rw [hold] at hnone
    cases hnone
  · have hrej : e.state = .rejected := Option.some.inj (hst.symm.trans hnew)
    cases hs with
    | fulfill => cases hrej
    | @reject t reason hx =>
      refine ⟨reason, rfl, fun a => ?_, ?_⟩
      · show (Step.perform now c.ledger _).2.balance? a = _
        rw [hl']
        exact balance?_ended c.ledger now t (.rejected reason) a
      · show (Step.perform now c.ledger _).2.escrow = _
        rw [hl']
        rfl
    | expire => cases hrej
    | fire => cases hrej

end Chronicle

end Interledger.Ledger
