import Interledger.Hex

/-! Integer literals: a minus sign or none, and digits behind it. The digits are hexadecimal
behind `0x`, octal behind any other zero, and decimal otherwise. -/

namespace Interledger.Literal

/-- The number of a digit, when it is one of the base. -/
def digit? (base : Nat) (b : UInt8) : Option Nat :=
  ((Hex.value? b).map (·.toNat)).filter (· < base)

def natural? (base : Nat) (s : Bytes) : Option Nat :=
  s.foldlM (fun n b => (digit? base b).map (base * n + ·)) 0

/-- The zero that calls for base eight is a digit itself, so that it may stand alone. -/
def magnitude? : Bytes → Option Nat
  | 48 :: 120 :: s | 48 :: 88 :: s => natural? 16 s
  | 48 :: s => natural? 8 s
  | s => natural? 10 s

def integer? : Bytes → Option Int
  | 45 :: s => (magnitude? s).map fun n => -(n : Int)
  | s => (magnitude? s).map fun n => (n : Int)

/-! ### The number that a text starts with -/

def isBlank (b : UInt8) : Bool := b = 32 || (9 ≤ b && b ≤ 13)

/-- Whether a minus sign stands in front, and what follows the sign. -/
def cutSign : Bytes → Bool × Bytes
  | 45 :: s => (true, s)
  | 43 :: s => (false, s)
  | s => (false, s)

/-- Cuts off `0x` in front of a hexadecimal digit. -/
def cutBase : Bytes → Bytes
  | 48 :: 120 :: d :: s => if (digit? 16 d).isSome then d :: s else 48 :: 120 :: d :: s
  | 48 :: 88 :: d :: s => if (digit? 16 d).isSome then d :: s else 48 :: 88 :: d :: s
  | s => s

/-- The number of the hexadecimal digits that a text starts with, behind blanks and a sign. It
has sixty-four bits, and a minus sign takes it from two to that power. -/
def leading? (t : Bytes) : Option Nat := do
  let (negative, s) := cutSign (t.dropWhile isBlank)
  let digits := (cutBase s).takeWhile fun b => (digit? 16 b).isSome
  if digits = [] then none
  else
    let n ← natural? 16 digits
    if UInt64.size ≤ n then none
    else if negative then some ((UInt64.size - n) % UInt64.size)
    else some n

end Interledger.Literal
