import Interledger.Literal
import Interledger.Proofs.Amount
import Mathlib.Data.Nat.Digits.Defs
import Mathlib.Data.Set.Function

/-! Amount texts and what they denote. A canonical text denotes a number in base ten, place by
place, and is the one canonical text of that number. Read as an integer literal, where a leading
zero calls for another base, a sign for a negative number and a zero byte ends the text, it
denotes the same; the other texts are those that would not be written back. -/

namespace Interledger

namespace Decimal

/-- The digits, each in the place of the number that it denotes. -/
def numerals : Bytes := "0123456789"

theorem isDigit_iff (b : UInt8) : isDigit b ↔ b ∈ numerals := by
  constructor
  · have hall : ∀ i : Fin 256, isDigit (.ofFin i) → UInt8.ofFin i ∈ numerals := by decide +kernel
    exact hall b.toFin
  · have hall : ∀ b ∈ numerals, isDigit b := by decide +kernel
    exact hall b

theorem idxOf_numerals {b : UInt8} (hb : b ∈ numerals) : numerals.idxOf b = b.toNat - 48 := by
  have hall : ∀ b ∈ numerals, numerals.idxOf b = b.toNat - 48 := by decide +kernel
  exact hall b hb

/-- A number is the sum of its digits by place, the last one first. -/
theorem value_eq_ofDigits {t : Bytes} (ht : ∀ b ∈ t, b ∈ numerals) :
    value t = Nat.ofDigits 10 (t.reverse.map numerals.idxOf) := by
  induction t using List.reverseRecOn with
  | nil => rfl
  | append_singleton t b ih =>
    rw [value_append, ih fun c hc => ht c (List.mem_append_left _ hc), List.reverse_concat,
      List.map_cons, Nat.ofDigits_cons, idxOf_numerals (ht b (by simp))]
    exact Nat.add_comm _ _

theorem isCanonical_iff {t : Bytes} : IsCanonical t ↔
    t = "0" ∨ t ≠ [] ∧ (∀ b ∈ t, b ∈ numerals) ∧ t.head? ≠ some 48 := by
  constructor
  · rintro ⟨hne, hdigit, hzero⟩
    by_cases hhead : t.head? = some 48
    · exact .inl (hzero hhead)
    · exact .inr ⟨hne, fun b hb => (isDigit_iff b).1 (hdigit b hb), hhead⟩
  · rintro (rfl | ⟨hne, hdigit, hhead⟩)
    · have hzero := isCanonical_digits 0
      rw [digits_zero] at hzero
      exact hzero
    · exact ⟨hne, fun b hb => (isDigit_iff b).2 (hdigit b hb), fun h => absurd h hhead⟩

end Decimal

namespace Literal

open Decimal (isDigit IsCanonical)

theorem digit?_ten {b : UInt8} (hb : isDigit b) : digit? 10 b = some (b.toNat - 48) := by
  have hall : ∀ i : Fin 256, isDigit (.ofFin i) →
      digit? 10 (.ofFin i) = some ((UInt8.ofFin i).toNat - 48) := by decide +kernel
  exact hall b.toFin hb

theorem natural?_ten {t : Bytes} (ht : ∀ b ∈ t, isDigit b) :
    natural? 10 t = some (Decimal.value t) := by
  unfold natural? Decimal.value
  generalize (0 : Nat) = n
  induction t generalizing n with
  | nil => rfl
  | cons b t ih =>
    rw [List.foldlM_cons, digit?_ten (ht b (by simp))]
    exact ih (fun c hc => ht c (List.mem_cons_of_mem b hc)) _

theorem magnitude?_of_head? {t : Bytes} (h : t.head? ≠ some 48) :
    magnitude? t = natural? 10 t := by
  unfold magnitude?
  split
  · exact absurd rfl h
  · exact absurd rfl h
  · exact absurd rfl h
  · rfl

theorem integer?_of_head? {t : Bytes} (h : t.head? ≠ some 45) :
    integer? t = (magnitude? t).map fun n => (n : Int) := by
  unfold integer?
  split
  · exact absurd rfl h
  · rfl

/-- Canonical text has no sign and, but for zero itself, calls for no other base. -/
theorem integer?_of_isCanonical {t : Bytes} (h : IsCanonical t) :
    integer? t = some (Decimal.value t : Int) := by
  have hmagnitude : magnitude? t = some (Decimal.value t) := by
    by_cases hhead : t.head? = some 48
    · rw [h.zero hhead]
      rfl
    · rw [magnitude?_of_head? hhead, natural?_ten h.isDigit]
  have hsign : t.head? ≠ some 45 := by
    intro hhead
    exact absurd (h.isDigit 45 (List.mem_of_mem_head? hhead)) (by decide)
  rw [integer?_of_head? hsign, hmagnitude]
  rfl

end Literal

namespace Amount

open Decimal (IsCanonical)

/-- Canonical text has no zero byte that could end it. -/
theorem upToZero_of_isCanonical {t : Bytes} (h : IsCanonical t) : t.upToZero = t :=
  Bytes.upToZero_of_notMem fun hz => absurd (h.isDigit 0 hz) (by decide)

theorem exists_parse_iff {t : Bytes} : (∃ a, parse t = .ok a) ↔ IsCanonical t := by
  simp only [parse_eq_ok_iff, exists_and_left, exists_eq, and_true]

/-- The texts that are read are those that, as integer literals, denote a number that is not
negative and is written back so. -/
theorem parse_eq_ok_iff_literal {t : Bytes} {a : Int} : parse t = .ok a ↔
    0 ≤ a ∧ Literal.integer? t.upToZero = some a ∧ Decimal.text a = t := by
  constructor
  · intro h
    obtain ⟨hcanonical, rfl⟩ := parse_eq_ok_iff.1 h
    refine ⟨nonneg_of_parse h, ?_, text_of_parse h⟩
    rw [upToZero_of_isCanonical hcanonical, Literal.integer?_of_isCanonical hcanonical]
  · rintro ⟨ha, -, rfl⟩
    exact parse_text ha

/-- A text is read as an amount just when it is a single zero or digits of which the first is
not zero, and any other text is refused as an argument. The amount is the number that the digits
denote in base ten, however many they are, and is written back as the text; every amount that is
not negative is read back from its text. So writing is one to one from these amounts to the texts
that are read. A text is read just when, as an integer literal up to its first zero byte, it
denotes a number that is not negative and whose text it is. -/
theorem texts_denote_amounts :
    (∀ t, (∃ a, parse t = .ok a) ↔
      t = "0" ∨ t ≠ [] ∧ (∀ b ∈ t, b ∈ Decimal.numerals) ∧ t.head? ≠ some 48) ∧
    (∀ t e, parse t = .error e → e.kind = .argument) ∧
    (∀ t a, parse t = .ok a →
      a = (Nat.ofDigits 10 (t.reverse.map Decimal.numerals.idxOf) : Nat) ∧
      Decimal.text a = t) ∧
    (∀ a, 0 ≤ a → parse (Decimal.text a) = .ok a) ∧
    Set.BijOn Decimal.text {a | 0 ≤ a} {t | ∃ a, parse t = .ok a} ∧
    ∀ t a, parse t = .ok a ↔
      0 ≤ a ∧ Literal.integer? t.upToZero = some a ∧ Decimal.text a = t := by
  refine ⟨fun t => ?_, fun t e => kind_of_parse, fun t a h => ⟨?_, text_of_parse h⟩,
    fun a => parse_text, ⟨?_, ?_, ?_⟩, fun t a => parse_eq_ok_iff_literal⟩
  · rw [exists_parse_iff, Decimal.isCanonical_iff]
  · obtain ⟨hcanonical, rfl⟩ := parse_eq_ok_iff.1 h
    rw [Decimal.value_eq_ofDigits fun b hb => (Decimal.isDigit_iff b).1 (hcanonical.isDigit b hb)]
  · exact fun a ha => ⟨a, parse_text ha⟩
  · intro a ha b hb hab
    have hread := parse_text ha
    rw [hab, parse_text hb] at hread
    exact (Except.ok.inj hread).symm
  · rintro t ⟨a, ha⟩
    exact ⟨a, nonneg_of_parse ha, text_of_parse ha⟩

end Amount

end Interledger
