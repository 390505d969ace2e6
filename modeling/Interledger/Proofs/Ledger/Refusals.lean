import Interledger.Proofs.Alarm
import Interledger.Proofs.Ledger.Runs

/-! Why a call on a ledger fails.

A call fails only for what stood in the ledger before it: an account or a party that does not
fit, an id that is taken, a transfer that is not held for the caller, or a fulfillment that
opens nothing. The checks that come later, after a call has begun to write, cannot fail:
nothing stays proposed between two calls, and what is prepared has a condition and two
accounts that exist. -/

namespace Interledger

/-- The failures of a call that has already begun to write, and the one for a condition that
is not there. -/
def Error.isInternal : Error → Bool
  | leftProposed _ | leftPrepared _ | noLongerPrepared _ | accountGone _ | conditionGone _ => true
  | _ => false

namespace Ledger

/-- Why a step is refused, by what stands in the ledger before it. -/
inductive Refuses (l : Ledger) (now : Int) : Step → Error → Prop
  | elsewhere {a : Address} {name : Bytes} {balance : Int}
      (h : a.isPrefix || !l.info.address.covers a) :
    Refuses l now (.addAccount a name balance) (.accountElsewhere a.text l.info.address.text)
  | negative {a : Address} {name : Bytes} {balance : Int} (h : balance < 0) :
    Refuses l now (.addAccount a name balance) (.openingNegative a.text)
  | taken {a : Address} {name : Bytes} {balance : Int} (h : l.hasAccount a) :
    Refuses l now (.addAccount a name balance) (.accountExists a.text)
  | connector {a : Address} (h : l.hasAccount a = false) :
    Refuses l now (.addConnector a) (.connectorNotFound a.text)
  | session {a : Address} {who : Listener} (h : l.hasAccount a = false) :
    Refuses l now (.attach a who) (.accountNotFound a.text)
  | transfer {t : Transfer} {e : Error} (h : l.refusal? t = some e) : Refuses l now (.prepare t) e
  | fulfill {id : Bytes} {caller : Address} {f : Fulfillment} {e : Error}
      (h : l.held now id caller = .error e) : Refuses l now (.fulfill id caller f) e
  | preimage {id : Bytes} {caller : Address} {f : Fulfillment} {t : Transfer}
      (h : l.held now id caller = .ok t) (hf : t.condition.any (·.isFulfilledBy f) = false) :
    Refuses l now (.fulfill id caller f) (.wrongFulfillment id)
  | reject {id : Bytes} {caller : Address} {reason : Reason} {e : Error}
      (h : l.held now id caller = .error e) : Refuses l now (.reject id caller reason) e

variable {l : Ledger} {now : Int}

/-! ### No refusal is internal -/

theorem isInternal_of_partyError? {party : Party} {a : Address} {e : Error}
    (h : l.partyError? party a = some e) : e.isInternal = false := by
  unfold partyError? at h
  split at h
  · cases h
    rfl
  split at h
  · cases h
    rfl
  · cases h

theorem isInternal_of_refusal? {t : Transfer} {e : Error} (h : l.refusal? t = some e) :
    e.isInternal = false := by
  rw [refusal?, Option.or_eq_some_iff, Option.or_eq_some_iff] at h
  rcases h with h | ⟨-, h | ⟨-, h⟩⟩
  · exact isInternal_of_partyError? h
  · exact isInternal_of_partyError? h
  · obtain ⟨-, h⟩ := Option.ite_none_right_eq_some.1 h
    cases h
    rfl

theorem isInternal_of_held {id : Bytes} {caller : Address} {e : Error}
    (h : l.held now id caller = .error e) : e.isInternal = false := by
  unfold held at h
  split at h
  · cases h
    rfl
  split at h
  · cases h
    rfl
  split at h
  · cases h
    rfl
  split at h
  · cases h
    rfl
  · cases h

theorem Refuses.isInternal_eq_false {s : Step} {e : Error} (h : l.Refuses now s e) :
    e.isInternal = false := by
  cases h with
  | transfer h => exact isInternal_of_refusal? h
  | fulfill h => exact isInternal_of_held h
  | reject h => exact isInternal_of_held h
  | _ => rfl

/-! ### Every failure is a refusal -/

theorem isOk_expire (hl : l.Sound) (now : Int) (id : Bytes) : ∃ b, (l.expire now id).1 = .ok b := by
  rcases expire_cases hl now id with ⟨-, h⟩ | ⟨t, u, -, h⟩
  · exact ⟨false, by rw [h]⟩
  · exact ⟨true, by rw [h]⟩

/-- A step of a sound ledger fails only when it is refused. -/
theorem refuses_of_error (hl : l.Sound) {s : Step} {e : Error}
    (h : (s.perform now l).1 = .error e) : l.Refuses now s e := by
  cases s with
  | addAccount a name balance =>
    simp only [Step.perform, addAccount] at h
    split at h
    next hc =>
      cases h
      exact .elsewhere hc
    split at h
    next hb =>
      cases h
      exact .negative hb
    split at h
    next hc =>
      cases h
      exact .taken hc
    · cases h
  | addConnector a =>
    simp only [Step.perform, addConnector] at h
    split at h
    · cases h
    next hc =>
      cases h
      exact .connector (Bool.eq_false_iff.2 hc)
  | attach a who =>
    simp only [Step.perform, attach_eq] at h
    split at h
    · cases h
    next hc =>
      cases h
      exact .session (Bool.eq_false_iff.2 hc)
  | prepare t =>
    simp only [Step.perform] at h
    cases hr : l.refusal? t with
    | some e' =>
      rw [prepare_eq_of_refusal? hr] at h
      cases h
      exact .transfer hr
    | none =>
      -- What is not refused is declined, funded or executed, and gives back a state.
      obtain ⟨balance, -, -, hp⟩ := prepare_eq now hr
      rw [hp] at h
      split at h
      · cases h
      split at h
      · cases h
      · cases h
  | fulfill id caller f =>
    simp only [Step.perform, fulfill_eq hl] at h
    cases hh : l.held now id caller with
    | error e' =>
      rw [hh] at h
      cases h
      exact .fulfill hh
    | ok t =>
      rw [hh] at h
      dsimp only at h
      split at h
      · cases h
      next hf =>
        cases h
        exact .preimage hh (Bool.eq_false_iff.2 hf)
  | reject id caller reason =>
    simp only [Step.perform, reject_eq hl] at h
    cases hh : l.held now id caller with
    | error e' =>
      rw [hh] at h
      cases h
      exact .reject hh
    | ok t =>
      rw [hh] at h
      cases h
  | expire id =>
    obtain ⟨b, hb⟩ := isOk_expire hl now id
    simp only [Step.perform, hb] at h
    cases h
  | detach | adopt | passAdopted | fireAdopted | deliver | prune => cases h

/-! ### What stands in a sound ledger -/

theorem Sound.not_proposed (hl : l.Sound) (id : Bytes) : l.book.stateOf? id ≠ some .proposed := by
  intro h
  obtain ⟨e, he, hst⟩ := Option.map_eq_some_iff.1 h
  cases e with
  | live t s u =>
    obtain rfl : s = .proposed := hst
    obtain ⟨-, -, -, ⟨h, -⟩ | h⟩ := hl.live he
    · cases h
    · cases h
  | settled s =>
    obtain rfl : s = .proposed := hst
    cases hl.holds id _ he

/-- What is prepared can be ended, in every way. -/
theorem Sound.prepared (hl : l.Sound) {id : Bytes} {t : Transfer} {u : Int}
    (h : l.book.entries.get? id = some (.live t .prepared u)) :
    t.condition.isSome ∧ t.sender ≠ t.receiver ∧ l.hasAccount t.sender ∧ l.hasAccount t.receiver := by
  obtain ⟨-, hs, hr, ⟨-, hc⟩ | hterm⟩ := hl.live h
  · exact ⟨hc, t.sender_ne_receiver, hs, hr⟩
  · cases hterm

namespace Chronicle

/-- After every run nothing is proposed, and what is prepared has a condition and two accounts,
which are not the same. Whatever is called next, a failure is a refusal for what stands in the
ledger, and no internal one; nor does the callback of an adopted timer fail. -/
theorem no_internal_failure {info : LedgerInfo} {l₀ : Ledger} (hl : make info = .ok l₀)
    (steps : List (Int × Step)) :
    let l := (run l₀ steps).ledger
    (∀ id, l.book.stateOf? id ≠ some .proposed) ∧
    (∀ id t u, l.book.entries.get? id = some (.live t .prepared u) →
      t.condition.isSome ∧ t.sender ≠ t.receiver ∧ l.hasAccount t.sender ∧ l.hasAccount t.receiver) ∧
    (∀ now s e, (s.perform now l).1 = .error e → l.Refuses now s e ∧ e.isInternal = false) ∧
    ∀ now t adopted, l.adopted.next? = some (t, adopted) →
      ∃ b, ({ l with adopted }.expire now t.id).1 = .ok b := by
  intro l
  have hs : l.Sound := sound_run (sound_of_make hl) steps
  refine ⟨hs.not_proposed, fun id t u h => hs.prepared h, fun now s e h => ?_,
    fun now t adopted _ => ?_⟩
  · have hr := refuses_of_error hs h
    exact ⟨hr, hr.isInternal_eq_false⟩
  · have hs' : { l with adopted }.Sound := ⟨hs.nodup_keys, hs.holds, hs.nodup_listeners⟩
    exact isOk_expire hs' now t.id

/-- One transfer is in escrow with its timer adopted and taken out, one is executed at once. -/
def sampleHeld : List (Int × Step) := Sample.setUp ++ [
  (1, .prepare (Sample.locked 'p')), (2, .prepare (Sample.payment 'q' none)),
  (3, .adopt ⟨"p", 100⟩), (100, .passAdopted)]

/-- A fulfillment at the deadline is refused, and the callback that is due goes through. -/
theorem no_internal_failure_held :
    make Sample.ledger.info = .ok Sample.ledger ∧
    let l := (run Sample.ledger sampleHeld).ledger
    l.book.entries.get? "p" = some (.live (Sample.locked 'p') .prepared 1) ∧
    l.hasAccount Sample.alice ∧
    (Step.perform 100 l (.fulfill "p" Sample.bob Sample.preimage)).1 = .error (.pastExpiry "p") ∧
    l.Refuses 100 (.fulfill "p" Sample.bob Sample.preimage) (.pastExpiry "p") ∧
    ∃ b, ({ l with adopted := l.adopted.rest }.expire 100 "p").1 = .ok b := by
  have hl : make Sample.ledger.info = .ok Sample.ledger := rfl
  have hp : (run Sample.ledger sampleHeld).ledger.book.entries.get? "p" =
      some (.live (Sample.locked 'p') .prepared 1) := by decide +kernel
  have he : (Step.perform 100 (run Sample.ledger sampleHeld).ledger
      (.fulfill "p" Sample.bob Sample.preimage)).1 = .error (.pastExpiry "p") := rfl
  have hnext : (run Sample.ledger sampleHeld).ledger.adopted.next? =
      some (⟨"p", 100⟩, (run Sample.ledger sampleHeld).ledger.adopted.rest) := by decide +kernel
  obtain ⟨-, hprepared, hrefused, hexpire⟩ := no_internal_failure hl sampleHeld
  obtain ⟨-, -, halice, -⟩ := hprepared _ _ _ hp
  exact ⟨hl, hp, halice, he, (hrefused _ _ _ he).1, hexpire 100 _ _ hnext⟩

end Chronicle

end Ledger

end Interledger
