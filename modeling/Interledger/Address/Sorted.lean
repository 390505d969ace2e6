import Interledger.Address

/-! Sets of addresses, as lists in the bytewise order of their texts. -/

namespace Interledger.Address

/-- Puts an address into its place, unless it is there. -/
def insert (a : Address) : List Address → List Address
  | [] => [a]
  | b :: bs => if a = b then b :: bs else if a.lt b then a :: b :: bs else b :: insert a bs

def sorted (as : List Address) : List Address := as.foldr insert []

theorem mem_insert {a b : Address} {bs : List Address} : b ∈ insert a bs ↔ b = a ∨ b ∈ bs := by
  induction bs with
  | nil => simp [insert]
  | cons c cs ih =>
    rw [insert]
    split
    · next h => simp [h]
    · split
      · simp
      · simp only [List.mem_cons, ih]
        grind

end Interledger.Address
