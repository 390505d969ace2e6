import Interledger.Proofs.Hub.Runs
import Interledger.Proofs.Ledger.Authority

/-! Who may do what to the money, when the transfers are left to the adaptors. An adaptor
takes money only from its own account, and executes or rejects only what its own account
receives; the checks of the adaptor and those of the ledger together leave no other way. -/

namespace Interledger.Hub

open Ledger (Chronicle)

variable {η : Type} {info : LedgerInfo} {l : Ledger}

/-- The calls that prepare a transfer and that decide about a prepared one. -/
def decides : Ledger.Step → Bool
  | .prepare _ | .fulfill .. | .reject .. => true
  | _ => false

/-- Whether a step leaves it to the adaptors to prepare, execute and reject transfers. -/
def Step.isDriven : Step η → Bool
  | ledger c => !decides c
  | _ => true

/-- Who acts when a step asks something of the ledger: a connected adaptor, for its own
account, or nobody who decides about a transfer. -/
inductive Acts (h : Hub η) : Step η → Ledger.Step → Prop
  | sends {k : Nat} {x : Adaptor η} {t : Transfer} (hx : h.acting? k = some x)
      (ha : x.account = t.sender) : Acts h (.sendTransfer k t) (.prepare t)
  | fulfills {k : Nat} {x : Adaptor η} {id : Bytes} {a : Address} {f : Fulfillment}
      (hx : h.acting? k = some x) (ha : x.account = a) :
    Acts h (.fulfillCondition k id f) (.fulfill id a f)
  | rejects {k : Nat} {x : Adaptor η} {t : Transfer} {id : Bytes} {a : Address} {reason : Reason}
      (hx : h.acting? k = some x) (ht : t.id = id) (ha : x.account = a) :
    Acts h (.rejectTransfer k t reason) (.reject id a reason)
  | other {s : Step η} {c : Ledger.Step} (hc : decides c = false) : Acts h s c

theorem acts_of_call? {h : Hub η} {s : Step η} {c : Ledger.Step} (hs : s.isDriven)
    (hc : s.call? h = some c) : h.Acts s c := by
  have hasks := call?_eq_some.1 hc
  cases hasks with
  | ledger => exact .other (by simpa [Step.isDriven] using hs)
  | sendTransfer ha ht => exact .sends ha ht.symm
  | rejectTransfer ha => exact .rejects ha rfl rfl
  | fulfillCondition ha => exact .fulfills ha rfl
  | _ => exact .other rfl

/-- One more step does nothing to the ledger, or it is one more step of the chronicle. -/
theorem run_concat_cases (hl : Ledger.make info = .ok l) (steps : List (Int × Step η)) (now : Int)
    (s : Step η) :
    (run l (steps ++ [(now, s)])).ledger = (run l steps).ledger ∨
    ∃ c, s.call? (run l steps) = some c ∧
      chronicle l (steps ++ [(now, s)]) = (chronicle l steps).next now c := by
  rw [(run_eq_chronicle hl _).1, (run_eq_chronicle hl _).1, chronicle_concat]
  cases s.call? (run l steps) with
  | none => exact .inl rfl
  | some c => exact .inr ⟨c, rfl, rfl⟩

/-- When the transfers are left to the adaptors, an account's balance drops only by what a
connected adaptor of the account sends; a transfer with a condition is executed only by a
connected adaptor of its receiver with a preimage, which everybody is told; and a prepared
transfer is rejected only by a connected adaptor of its receiver, which pays back to the
sender what was accepted. -/
theorem only_own_account (hl : Ledger.make info = .ok l) (steps : List (Int × Step η)) (now : Int)
    {s : Step η} (hs : s.isDriven) :
    let h := run l steps
    let h' := run l (steps ++ [(now, s)])
    let c := chronicle l steps
    let c' := chronicle l (steps ++ [(now, s)])
    (∀ a b, h.ledger.balance? a = some b → ∃ b', h'.ledger.balance? a = some b' ∧
      (b' < b → ∃ k x t, s = .sendTransfer k t ∧ h.adaptors.get? k = some x ∧ x.connected ∧
        x.account = a ∧ t.sender = a ∧ b' = b - t.amount)) ∧
    (∀ t ∈ c'.accepted, ∀ cond, t.condition = some cond →
      h.ledger.book.stateOf? t.id ≠ some .executed →
      h'.ledger.book.stateOf? t.id = some .executed →
      ∃ k x f, s = .fulfillCondition k t.id f ∧ h.adaptors.get? k = some x ∧ x.connected ∧
        x.account = t.receiver ∧ Sha256.digest f.bytes = cond.digest ∧
        c'.callbacks =
          c.callbacks ++ h.ledger.sessions.map fun x => (x.listener, .executed t (some f))) ∧
    (∀ t ∈ c'.accepted, h.ledger.book.stateOf? t.id = some .prepared →
      h'.ledger.book.stateOf? t.id = some .rejected →
      ∃ k x t' reason, s = .rejectTransfer k t' reason ∧ t'.id = t.id ∧
        h.adaptors.get? k = some x ∧ x.connected ∧ x.account = t.receiver ∧
        (∀ a, h'.ledger.balance? a = if a = t.sender then (h.ledger.balance? a).map (· + t.amount)
          else h.ledger.balance? a) ∧
        h'.ledger.escrow = h.ledger.escrow - t.amount) := by
  intro h h' c c'
  have hledger : h.ledger = c.ledger := (run_eq_chronicle hl steps).1
  have hledger' : h'.ledger = c'.ledger := (run_eq_chronicle hl _).1
  have hsound : c.ledger.Sound := hledger ▸ sound_run hl steps
  have hsilent : c.ledger.notices = [] := by
    rw [← quiet_chronicle hl steps]
    rfl
  have hfiled : c.Filed := Chronicle.filed_run hl _
  rcases run_concat_cases hl steps now s with heq | ⟨call, hcall, hnext⟩
  · refine ⟨fun a b hb => ⟨b, ?_, fun hlt => by omega⟩, fun t _ cond _ hold hnew => ?_,
      fun t _ hold hnew => ?_⟩
    · rw [show h'.ledger = h.ledger from heq]
      exact hb
    · rw [show h'.ledger = h.ledger from heq] at hnew
      exact absurd hnew hold
    · rw [show h'.ledger = h.ledger from heq, hold] at hnew
      cases hnew
  · have hacts := acts_of_call? hs hcall
    change c' = c.next now call at hnext
    rw [hledger', hledger, hnext]
    refine ⟨fun a b hb => ?_, fun t ht cond hcond hold hnew => ?_, fun t ht hold hnew => ?_⟩
    · obtain ⟨b', hb', hdrop⟩ := (Ledger.perform_effect hsound now call).balance hb
      refine ⟨b', hb', fun hlt => ?_⟩
      obtain ⟨t, rfl, hsender, hamount⟩ := hdrop hlt
      cases hacts with
      | @sends k x t hx ha =>
        obtain ⟨hget, hconn⟩ := acting?_eq_some.1 hx
        exact ⟨k, x, t, rfl, hget, hconn, ha.trans hsender, hsender, hamount⟩
      | other hc => cases hc
    · obtain ⟨f, rfl, hdigest, htold⟩ :=
        Chronicle.executed_next hfiled hsound hsilent ht hcond hold hnew
      cases hacts with
      | @fulfills k x _ _ _ hx ha =>
        obtain ⟨hget, hconn⟩ := acting?_eq_some.1 hx
        exact ⟨k, x, f, rfl, hget, hconn, ha, hdigest, htold⟩
      | other hc => cases hc
    · obtain ⟨reason, rfl, hbalance, hescrow⟩ := Chronicle.rejected_next hfiled hsound ht hold hnew
      cases hacts with
      | @rejects k x t' _ _ _ hx hid ha =>
        obtain ⟨hget, hconn⟩ := acting?_eq_some.1 hx
        exact ⟨k, x, t', reason, rfl, hid, hget, hconn, ha, hbalance, hescrow⟩
      | other hc => cases hc

/-- The receiver's adaptor executes the transfer in escrow, and all three conclusions hold. -/
theorem only_own_account_fulfilled :
    let l := Ledger.Sample.ledger
    let t := Ledger.Sample.locked 'p'
    let s := Step.fulfillCondition 1 "p" Ledger.Sample.preimage
    Ledger.make l.info = .ok l ∧ s.isDriven ∧
    (run l sampleSent).ledger.book.stateOf? t.id ≠ some .executed ∧
    (run l (sampleSent ++ [(3, s)])).ledger.book.stateOf? t.id = some .executed ∧
    ∃ k x f, s = .fulfillCondition k t.id f ∧ (run l sampleSent).adaptors.get? k = some x ∧
      x.connected ∧ x.account = t.receiver := by
  intro l t s
  have hl : Ledger.make l.info = .ok l := rfl
  have hs : s.isDriven := rfl
  have hold : (run l sampleSent).ledger.book.stateOf? t.id ≠ some .executed := by decide +kernel
  have hnew : (run l (sampleSent ++ [(3, s)])).ledger.book.stateOf? t.id = some .executed := by
    decide +kernel
  have hmem : t ∈ (chronicle l (sampleSent ++ [(3, s)])).accepted := by decide +kernel
  obtain ⟨-, hexec, -⟩ := only_own_account hl sampleSent 3 hs
  obtain ⟨k, x, f, hfulfill, hx, hconn, hown, -⟩ := hexec t hmem _ rfl hold hnew
  exact ⟨hl, hs, hold, hnew, k, x, f, hfulfill, hx, hconn, hown⟩

end Interledger.Hub
