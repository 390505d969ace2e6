import Interledger.Bytes

/-! Hexadecimal text: two digits a byte, high half first. Writing uses lower case,
reading takes either. -/

namespace Interledger.Hex

/-- The digit of a value below sixteen. -/
def digit (n : UInt8) : UInt8 := if n < 10 then 48 + n else 87 + n

def value? (c : UInt8) : Option UInt8 :=
  if 48 ≤ c ∧ c ≤ 57 then some (c - 48)
  else if 97 ≤ c ∧ c ≤ 102 then some (c - 87)
  else if 65 ≤ c ∧ c ≤ 70 then some (c - 55)
  else none

def encode (s : Bytes) : Bytes := s.flatMap fun b => [digit (b / 16), digit (b % 16)]

def decode? : Bytes → Option Bytes
  | [] => some []
  | [_] => none
  | h :: l :: s => do
    let h ← value? h
    let l ← value? l
    let s ← decode? s
    return (16 * h + l) :: s

@[simp] theorem length_encode (s : Bytes) : (encode s).length = 2 * s.length := by
  induction s with
  | nil => rfl
  | cons b s ih => simp only [encode, List.flatMap_cons, List.length_append] at *; simp [ih]; omega

theorem length_of_decode? {t s : Bytes} (h : decode? t = some s) : t.length = 2 * s.length := by
  fun_induction decode? t generalizing s with
  | case1 => simp_all
  | case2 => simp at h
  | case3 hi lo t ih =>
    simp only [bind, Option.bind_eq_some_iff, pure, Option.some.injEq] at h
    obtain ⟨_, _, _, _, r, hr, rfl⟩ := h
    simp [ih hr]
    omega

theorem length_eq_of_decode? {t s : Bytes} {n : Nat} (ht : t.length = 2 * n)
    (h : decode? t = some s) : s.length = n := by
  have := length_of_decode? h
  omega

end Interledger.Hex
