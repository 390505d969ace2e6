import Interledger.Packet.Record
import Interledger.Proofs.Address
import Interledger.Proofs.Amount

/-! Packets and their records. A record is read as a packet exactly when its account is the text
of a leaf address and its amount is canonical, and the packet is written back as that record. -/

namespace Interledger.Packet

/-- The records of packets: any data, a leaf's text and a canonical amount. -/
structure Record.IsCanonical (m : Record) : Prop where
  account : Address.IsText m.account
  leaf : m.account.getLast? ≠ some dot
  amount : Decimal.IsCanonical m.amount

section
variable {m : Record} {a : Address} {n : Int} {e : Error}

/-! ### Reading field by field -/

theorem ofRecord_of_badAddress (ha : Address.parse m.account = .error e) :
    ofRecord m = .error e := by
  rw [ofRecord, ha]
  rfl

theorem ofRecord_of_scope (ha : Address.parse m.account = .ok a) (hscope : a.isPrefix) :
    ofRecord m = .error (.packetToScope a.text) := by
  have hset : Builder.empty.setAccount a = .error (.packetToScope a.text) :=
    dif_neg (by simp [hscope])
  rw [ofRecord, ha]
  show (Builder.empty.setAccount a >>= _) = _
  rw [hset]
  rfl

/-- Once the account is a leaf, the amount decides. -/
theorem ofRecord_of_leaf (ha : Address.parse m.account = .ok a) (hleaf : a.isPrefix = false) :
    ofRecord m = (Builder.mk (some ⟨a, hleaf⟩) none none).setAmountText m.amount >>= fun b =>
      (b.setData m.data).build := by
  have hset : Builder.empty.setAccount a = .ok ⟨some ⟨a, hleaf⟩, none, none⟩ := dif_pos hleaf
  rw [ofRecord, ha]
  show (Builder.empty.setAccount a >>= _) = _
  rw [hset]
  rfl

theorem ofRecord_of_badAmount (ha : Address.parse m.account = .ok a) (hleaf : a.isPrefix = false)
    (hn : Amount.parse m.amount = .error e) : ofRecord m = .error e := by
  rw [ofRecord_of_leaf ha hleaf, Builder.setAmountText, hn]
  rfl

theorem ofRecord_of_fields (ha : Address.parse m.account = .ok a) (hleaf : a.isPrefix = false)
    (hn : Amount.parse m.amount = .ok n) :
    ofRecord m = .ok ⟨a, n, m.data, hleaf, Amount.nonneg_of_parse hn⟩ := by
  have hset : (Builder.mk (some ⟨a, hleaf⟩) none none).setAmount n =
      .ok ⟨some ⟨a, hleaf⟩, some ⟨n, Amount.nonneg_of_parse hn⟩, none⟩ :=
    dif_pos (Amount.nonneg_of_parse hn)
  rw [ofRecord_of_leaf ha hleaf, Builder.setAmountText, hn]
  show (Builder.setAmount _ n >>= _) = _
  rw [hset]
  rfl

/-! ### Both ways -/

theorem ofRecord_toRecord (p : Packet) : ofRecord p.toRecord = .ok p :=
  ofRecord_of_fields (m := p.toRecord) (Address.parse_text p.account) p.account_leaf
    (Amount.parse_text p.amount_nonneg)

theorem isCanonical_toRecord (p : Packet) : p.toRecord.IsCanonical where
  account := Address.exists_parse_iff.1 ⟨p.account, Address.parse_text p.account⟩
  leaf h := by
    have hprefix := p.account.isPrefix_iff.2 h
    rw [p.account_leaf] at hprefix
    cases hprefix
  amount := (Amount.parse_eq_ok_iff.1 (Amount.parse_text p.amount_nonneg)).1

theorem Record.IsCanonical.exists_packet (hm : m.IsCanonical) :
    ∃ p, ofRecord m = .ok p ∧ p.toRecord = m := by
  obtain ⟨a, ha⟩ := Address.exists_parse_iff.2 hm.account
  have hn := Amount.parse_eq_ok_iff.2 ⟨hm.amount, rfl⟩
  have hleaf : a.isPrefix = false := by
    rw [← Bool.not_eq_true, Address.isPrefix_iff, Address.text_of_parse ha]
    exact hm.leaf
  refine ⟨_, ofRecord_of_fields ha hleaf hn, ?_⟩
  rw [toRecord, Address.text_of_parse ha, Amount.text_of_parse hn]

/-- What is no packet's record is refused: for the text of the account, or else as an argument. -/
theorem kind_of_not_isCanonical (hm : ¬m.IsCanonical) : ∃ e, ofRecord m = .error e ∧
    (e.kind = .invalidAddress ∧ ¬Address.IsText m.account ∨
      e.kind = .argument ∧ Address.IsText m.account) := by
  cases ha : Address.parse m.account with
  | error e =>
    obtain ⟨fault, rfl⟩ := Address.fault_of_parse ha
    refine ⟨_, ofRecord_of_badAddress ha, .inl ⟨rfl, fun ht => ?_⟩⟩
    obtain ⟨a, hok⟩ := Address.exists_parse_iff.2 ht
    rw [hok] at ha
    cases ha
  | ok a =>
    have ht := Address.exists_parse_iff.1 ⟨a, ha⟩
    cases hleaf : a.isPrefix with
    | true => exact ⟨_, ofRecord_of_scope ha hleaf, .inr ⟨rfl, ht⟩⟩
    | false =>
      cases hn : Amount.parse m.amount with
      | error e => exact ⟨e, ofRecord_of_badAmount ha hleaf hn, .inr ⟨Amount.kind_of_parse hn, ht⟩⟩
      | ok n =>
        have heq := Packet.isCanonical_toRecord ⟨a, n, m.data, hleaf, Amount.nonneg_of_parse hn⟩
        rw [toRecord, Address.text_of_parse ha, Amount.text_of_parse hn] at heq
        exact absurd heq hm

end

/-- Packets and canonical records correspond one to one: a packet is read back from its record,
the canonical records are those that are read, and what is read is written back byte for byte.
Any other record is refused, as an invalid address exactly when its account is no address. -/
theorem records_correspond :
    (∀ p : Packet, ofRecord p.toRecord = .ok p) ∧
    (∀ m : Record, (∃ p, ofRecord m = .ok p) ↔ m.IsCanonical) ∧
    (∀ m p, ofRecord m = .ok p → p.toRecord = m) ∧
    ∀ m : Record, ¬m.IsCanonical → ∃ e, ofRecord m = .error e ∧
      (e.kind = .invalidAddress ↔ ¬Address.IsText m.account) ∧
      (e.kind = .argument ↔ Address.IsText m.account) := by
  have hback : ∀ m p, ofRecord m = .ok p → m.IsCanonical ∧ p.toRecord = m := by
    intro m p hp
    by_cases hm : m.IsCanonical
    · obtain ⟨q, hq, heq⟩ := hm.exists_packet
      rw [hp] at hq
      cases hq
      exact ⟨hm, heq⟩
    · obtain ⟨e, he, -⟩ := kind_of_not_isCanonical hm
      rw [hp] at he
      cases he
  refine ⟨ofRecord_toRecord, fun m => ⟨fun ⟨p, hp⟩ => (hback m p hp).1, fun hm => ?_⟩,
    fun m p hp => (hback m p hp).2, fun m hm => ?_⟩
  · obtain ⟨p, hp, -⟩ := hm.exists_packet
    exact ⟨p, hp⟩
  · obtain ⟨e, he, ⟨hkind, ht⟩ | ⟨hkind, ht⟩⟩ := kind_of_not_isCanonical hm
    · exact ⟨e, he, by simp [hkind, ht], by simp [hkind, ht]⟩
    · exact ⟨e, he, by simp [hkind, ht], by simp [hkind, ht]⟩

end Interledger.Packet
