import Interledger.Amount
import Mathlib.Data.List.Induction

/-! Amount texts. The canonical texts are those that are read as an amount, and writing the
amount gives the text back: canonical texts and non-negative amounts correspond one to one. -/

namespace Interledger

namespace Decimal

/-- Digits only, and no zero in front of others. -/
structure IsCanonical (t : Bytes) : Prop where
  ne_nil : t ≠ []
  isDigit : ∀ b ∈ t, isDigit b
  zero : t.head? = some 48 → t = [48]

theorem digits_ne_nil (n : Nat) : digits n ≠ [] := by
  rw [digits]
  split <;> simp

theorem head?_concat {t : Bytes} (ht : t ≠ []) (b : UInt8) : (t ++ [b]).head? = t.head? := by
  obtain ⟨c, s, rfl⟩ := List.exists_cons_of_ne_nil ht
  rfl

theorem digits_zero : digits 0 = [48] := by
  rw [digits]
  rfl

theorem head?_digits {n : Nat} (hn : n ≠ 0) : (digits n).head? ≠ some 48 := by
  induction n using Nat.strongRecOn with
  | ind n ih =>
    rw [digits]
    split
    next h =>
      intro heq
      have hdigit := congrArg UInt8.toNat (Option.some.inj heq)
      rw [toNat_digit h] at hdigit
      exact hn (Nat.add_left_cancel hdigit)
    · rw [head?_concat (digits_ne_nil _)]
      exact ih _ (by omega) (by omega)

theorem isCanonical_digits (n : Nat) : IsCanonical (digits n) where
  ne_nil := digits_ne_nil n
  isDigit _ := isDigit_of_mem_digits
  zero h := by
    by_cases hn : n = 0
    · rw [hn, digits_zero]
    · exact absurd h (head?_digits hn)

theorem digit_toNat {b : UInt8} (hb : isDigit b) : digit (b.toNat - 48) = b ∧ b.toNat - 48 < 10 := by
  simp only [isDigit, Bool.and_eq_true, decide_eq_true_eq, UInt8.le_iff_toNat_le,
    UInt8.toNat_ofNat] at hb
  have hlt : b.toNat - 48 < 10 := by omega
  refine ⟨UInt8.toNat_inj.1 ?_, hlt⟩
  rw [toNat_digit hlt]
  omega

/-- The digits in front of a last one are canonical too, and denote no zero. -/
theorem IsCanonical.of_concat {t : Bytes} {b : UInt8} (h : IsCanonical (t ++ [b])) (ht : t ≠ []) :
    IsCanonical t ∧ t.head? ≠ some 48 := by
  have hhead : t.head? ≠ some 48 := by
    intro hz
    have hsingle := congrArg List.length (h.zero ((head?_concat ht b).trans hz))
    have hpos := List.length_pos_iff.2 ht
    simp only [List.length_append, List.length_cons, List.length_nil] at hsingle
    omega
  exact ⟨⟨ht, fun c hc => h.isDigit c (List.mem_append_left _ hc), fun hz => absurd hz hhead⟩, hhead⟩

/-- Canonical text is written back from the number that it denotes. -/
theorem digits_value {t : Bytes} (h : IsCanonical t) : digits (value t) = t := by
  induction t using List.reverseRecOn with
  | nil => exact absurd rfl h.ne_nil
  | append_singleton t b ih =>
    obtain ⟨hdigit, hlt⟩ := digit_toNat (h.isDigit b (by simp))
    rw [value_append, digits]
    by_cases ht : t = []
    · subst ht
      simp only [value, List.foldl_nil, Nat.mul_zero, Nat.zero_add, List.nil_append]
      rw [if_pos hlt, hdigit]
    · obtain ⟨hcanonical, hhead⟩ := h.of_concat ht
      have hdigits := ih hcanonical
      have hpos : value t ≠ 0 := by
        intro hz
        rw [hz] at hdigits
        rw [← hdigits, digits_zero] at hhead
        exact hhead rfl
      have hquotient : (10 * value t + (b.toNat - 48)) / 10 = value t := by omega
      have hremainder : (10 * value t + (b.toNat - 48)) % 10 = b.toNat - 48 := by omega
      rw [if_neg (by omega), hquotient, hremainder, hdigits, hdigit]

end Decimal

namespace Amount

open Decimal (IsCanonical)

/-- Exactly the canonical texts are read, as the number that they denote. -/
theorem parse_eq_ok_iff {t : Bytes} {a : Int} :
    parse t = .ok a ↔ IsCanonical t ∧ a = Decimal.value t := by
  unfold parse
  split
  next hnil => exact iff_of_false nofun fun h => h.1.ne_nil hnil
  next hnil =>
  split
  next hdigit =>
    refine iff_of_false nofun fun h => ?_
    rw [List.all_eq_true.2 h.1.isDigit] at hdigit
    cases hdigit
  next hdigit =>
  split
  next hzero =>
    refine iff_of_false nofun fun h => ?_
    have hsingle := congrArg List.length (h.1.zero hzero.2)
    simp only [List.length_cons, List.length_nil] at hsingle
    omega
  next hzero =>
    have hcanonical : IsCanonical t := by
      refine ⟨hnil, List.all_eq_true.1 (by simpa using hdigit), fun hhead => ?_⟩
      obtain ⟨b, s, rfl⟩ := List.exists_cons_of_ne_nil hnil
      cases s with
      | nil => exact congrArg (fun b => [b]) (Option.some.inj hhead)
      | cons c s => exact absurd ⟨by simp, hhead⟩ hzero
    simp only [Except.ok.injEq, hcanonical, true_and, eq_comm]

theorem text_of_parse {t : Bytes} {a : Int} (h : parse t = .ok a) : Decimal.text a = t := by
  obtain ⟨hcanonical, rfl⟩ := parse_eq_ok_iff.1 h
  exact Decimal.digits_value hcanonical

theorem parse_text {a : Int} (ha : 0 ≤ a) : parse (Decimal.text a) = .ok a := by
  obtain ⟨n, rfl⟩ := Int.eq_ofNat_of_zero_le ha
  exact parse_eq_ok_iff.2 ⟨Decimal.isCanonical_digits n, congrArg Nat.cast (Decimal.value_digits n).symm⟩

/-- What is refused is an argument that is no canonical text. -/
theorem kind_of_parse {t : Bytes} {e : Error} (h : parse t = .error e) : e.kind = .argument := by
  unfold parse at h
  repeat' split at h
  all_goals cases h
  all_goals rfl

end Amount

end Interledger
