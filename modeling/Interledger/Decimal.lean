import Interledger.Bytes

/-! Numbers in base ten. The digits of a number have no leading zero except for
zero itself, and reading them gives the number back. -/

namespace Interledger.Decimal

def isDigit (b : UInt8) : Bool := 48 ≤ b && b ≤ 57

def digit (n : Nat) : UInt8 := UInt8.ofNat (48 + n)

def digits (n : Nat) : Bytes :=
  if n < 10 then [digit n] else digits (n / 10) ++ [digit (n % 10)]

/-- The number that a string of digits denotes, however long. -/
def value (s : Bytes) : Nat := s.foldl (fun v b => 10 * v + (b.toNat - 48)) 0

def text : Int → Bytes
  | .ofNat n => digits n
  | .negSucc n => 45 :: digits (n + 1)

/-- The integer that digits denote, behind a minus sign or without one. -/
def signed : Bytes → Int
  | 45 :: s => -(value s : Int)
  | s => value s

theorem toNat_digit {n : Nat} (h : n < 10) : (digit n).toNat = 48 + n := by
  simp only [digit, UInt8.toNat_ofNat']
  omega

@[simp] theorem value_append (s : Bytes) (b : UInt8) :
    value (s ++ [b]) = 10 * value s + (b.toNat - 48) := by
  simp [value]

@[simp] theorem value_digits (n : Nat) : value (digits n) = n := by
  induction n using Nat.strongRecOn with
  | ind n ih =>
    rw [digits]
    split
    · next h => simp [value, toNat_digit h]
    · rw [value_append, ih _ (by omega), toNat_digit (by omega)]
      omega

theorem isDigit_digit {n : Nat} (h : n < 10) : isDigit (digit n) = true := by
  simp only [isDigit, Bool.and_eq_true, decide_eq_true_eq, UInt8.le_iff_toNat_le,
    toNat_digit h, UInt8.toNat_ofNat]
  omega

theorem isDigit_of_mem_digits {n : Nat} {b : UInt8} (h : b ∈ digits n) : isDigit b = true := by
  induction n using Nat.strongRecOn with
  | ind n ih =>
    rw [digits] at h
    split at h
    · next hn => simpa [List.mem_singleton.1 h] using isDigit_digit hn
    · rcases List.mem_append.1 h with h | h
      · exact ih _ (by omega) h
      · simpa [List.mem_singleton.1 h] using isDigit_digit (Nat.mod_lt n (by omega))

end Interledger.Decimal
