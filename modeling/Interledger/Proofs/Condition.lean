import Interledger.Condition.Places
import Interledger.Proofs.Hex

/-! Conditions as text. A condition is read from any text of sixty-four hexadecimal digits and
from no other, and its own text is that text in lower case. So a condition is the same for two
texts just when they differ at most in letter case, and whoever gets it as text has the condition
that the same preimages fulfill. -/

namespace Interledger.Condition

open Bytes (forall_byte lower)

variable {t : Bytes} {c : Condition}

/-! ### Reading and writing -/

theorem ofHex_eq_ok_iff : ofHex t = .ok c ↔ t.length = 64 ∧ Hex.decode? t = some c.digest := by
  unfold ofHex
  split
  next hlength =>
    split
    next s hs =>
      constructor
      · intro h
        cases h
        exact ⟨hlength, hs⟩
      · rintro ⟨-, hread⟩
        cases c
        cases Option.some.inj (hs.symm.trans hread)
        rfl
    next hnone => simp [hnone]
  next hlength => simp [hlength]

theorem exists_ofHex_iff :
    (∃ c, ofHex t = .ok c) ↔ t.length = 64 ∧ ∀ b ∈ t, b ∈ Hex.numerals := by
  simp only [ofHex_eq_ok_iff]
  exact Hex.exists_bytes_iff (n := 32) fun s hs => ⟨⟨s, hs⟩, rfl⟩

theorem kind_of_ofHex {e : Error} (h : ofHex t = .error e) : e.kind = .argument := by
  unfold ofHex at h
  split at h
  · split at h
    · cases h
    · cases h
      rfl
  · cases h
    rfl

theorem hex_of_ofHex (h : ofHex t = .ok c) : c.hex = lower t :=
  Hex.encode_of_decode? (ofHex_eq_ok_iff.1 h).2

theorem ofHex_hex (c : Condition) : ofHex c.hex = .ok c :=
  ofHex_eq_ok_iff.2 ⟨by rw [hex, Hex.length_encode, c.length_eq], Hex.decode?_encode c.digest⟩

theorem hex_injective {d : Condition} (h : c.hex = d.hex) : c = d := by
  have hread := ofHex_hex c
  rw [h, ofHex_hex] at hread
  exact (Except.ok.inj hread).symm

/-- The text of a condition may be spelt in any letter case. -/
theorem ofHex_of_lower (h : lower t = c.hex) : ofHex t = .ok c := by
  have hlength : t.length = 64 := by
    rw [← Bytes.length_lower, h, hex, Hex.length_encode, c.length_eq]
  have hdigits : ∀ b ∈ lower t, b ∈ Hex.numerals := by
    rw [h]
    exact (exists_ofHex_iff.1 ⟨c, ofHex_hex c⟩).2
  obtain ⟨d, hd⟩ := exists_ofHex_iff.2 ⟨hlength, Hex.forall_mem_lower_iff.1 hdigits⟩
  rw [hd, hex_injective ((hex_of_ofHex hd).trans h)]

/-! ### Place by place -/

theorem digitValue_eq : ∀ b : UInt8,
    digitValue b.toInt8 = (Hex.value? b).elim (-1) (·.toInt8.toInt32) :=
  forall_byte (by decide +kernel)

/-- Values below sixteen are not negative, and one fits behind the other that is shifted. -/
theorem shifted_or {x y : UInt8} (hx : x < 16) (hy : y < 16) :
    ¬(x.toInt8.toInt32 < 0 ∨ y.toInt8.toInt32 < 0) ∧
      ((x.toInt8.toInt32 <<< 4) ||| y.toInt8.toInt32).toInt8.toUInt8 = 16 * x + y := by
  have hall : ∀ i j : Fin 16,
      ¬((UInt8.ofNat i).toInt8.toInt32 < 0 ∨ (UInt8.ofNat j).toInt8.toInt32 < 0) ∧
        (((UInt8.ofNat i).toInt8.toInt32 <<< 4) ||| (UInt8.ofNat j).toInt8.toInt32).toInt8.toUInt8 =
          16 * UInt8.ofNat i + UInt8.ofNat j := by decide +kernel
  have h := hall ⟨x.toNat, UInt8.lt_iff_toNat_lt.1 hx⟩ ⟨y.toNat, UInt8.lt_iff_toNat_lt.1 hy⟩
  rwa [UInt8.ofNat_toNat, UInt8.ofNat_toNat] at h

theorem pair_eq (t : Bytes) (h l : UInt8) :
    pair t h l = (Hex.byte? h l).elim (.error (.conditionNotHex t)) .ok := by
  simp only [pair, Hex.byte?, digitValue_eq]
  cases hx : Hex.value? h with
  | none => exact if_pos (.inl (by decide))
  | some x =>
    cases hy : Hex.value? l with
    | none => exact if_pos (.inr (by decide))
    | some y =>
      obtain ⟨hsign, hbyte⟩ := shifted_or (Hex.digit_of_value? hx).1 (Hex.digit_of_value? hy).1
      exact (if_neg hsign).trans (congrArg Except.ok hbyte)

theorem scan_eq (t : Bytes) : scan t = (ofHex t).map (·.digest) := by
  unfold scan ofHex
  by_cases hlength : t.length = 64
  · rw [if_neg (by simpa using hlength), dif_pos hlength, Hex.readPlaces_eq (pair_eq t) hlength]
    split
    next s hs => exact congrArg (Option.elim · _ Except.ok) hs
    next hnone => exact congrArg (Option.elim · _ Except.ok) hnone
  · rw [if_pos hlength, dif_neg hlength]
    rfl

theorem table_eq : ∀ b : UInt8,
    table.getD ((b >>> 4) &&& 0x0F).toNat 0 = Hex.digit (b / 16) ∧
      table.getD (b &&& 0x0F).toNat 0 = Hex.digit (b % 16) :=
  forall_byte (by decide +kernel)

theorem print_eq (s : Bytes) : print s = Hex.encode s := by
  have happend : ∀ t, s.foldl (fun t (b : UInt8) =>
      t ++ [table.getD ((b >>> 4) &&& 0x0F).toNat 0] ++ [table.getD (b &&& 0x0F).toNat 0]) t =
        t ++ Hex.encode s := by
    induction s with
    | nil => exact fun t => (List.append_nil t).symm
    | cons b s ih =>
      intro t
      rw [List.foldl_cons, ih, (table_eq b).1, (table_eq b).2, Hex.encode_cons, List.append_assoc,
        List.append_assoc]
      rfl
  exact happend []

/-- A text is read as a condition just when it has sixty-four characters and all are hexadecimal
digits, small or capital letters alike, and any other text is refused as an argument. The text of
the condition is the text that was read, in lower case, and every condition is read back from its
text. So two texts give the same condition just when they are the same up to letter case, and a
condition that comes as text, in whatever letter case, is fulfilled by just what fulfills the
original. The loops that go place by place, by signed characters and by a table, come to the
same. -/
theorem texts_denote_conditions :
    (∀ t, (∃ c, ofHex t = .ok c) ↔ t.length = 64 ∧ ∀ b ∈ t, b ∈ Hex.numerals) ∧
    (∀ t e, ofHex t = .error e → e.kind = .argument) ∧
    (∀ t (c : Condition), ofHex t = .ok c → c.hex = lower t) ∧
    (∀ c : Condition, ofHex c.hex = .ok c) ∧
    (∀ t u c d, ofHex t = .ok c → ofHex u = .ok d → (c = d ↔ lower t = lower u)) ∧
    (∀ (c : Condition) t, lower t = c.hex → ∃ d, ofHex t = .ok d ∧
      ∀ f, d.isFulfilledBy f = c.isFulfilledBy f) ∧
    (∀ t, scan t = (ofHex t).map (·.digest)) ∧
    ∀ c : Condition, print c.digest = c.hex := by
  refine ⟨fun t => exists_ofHex_iff, fun t e => kind_of_ofHex, fun t c => hex_of_ofHex, ofHex_hex,
    fun t u c d hc hd => ?_, fun c t h => ⟨c, ofHex_of_lower h, fun f => rfl⟩, scan_eq,
    fun c => print_eq c.digest⟩
  rw [← hex_of_ofHex hc, ← hex_of_ofHex hd]
  exact ⟨congrArg hex, hex_injective⟩

end Interledger.Condition
