import Interledger.Hex.Places
import Interledger.Literal
import Interledger.TransferId

/-! Transfer ids read and written place by place. Two characters that are digits come to the
number that they are as a text, and a byte is written as a number of its own that zeros fill to
two digits. What is read and written agrees with `parse` and `text`. -/

namespace Interledger.TransferId

/-- The byte of two digits of a text. A number that cannot be read is another failure than a
character that is no digit. -/
def pair (t : Bytes) (h l : UInt8) : Except Error UInt8 :=
  if (Hex.value? h).isSome ∧ (Hex.value? l).isSome then
    match Literal.leading? [h, l] with
    | some n => .ok (UInt8.ofNat n)
    | none => .error (.raised "stoul")
  else .error (.badTransferId t)

def scan (t : Bytes) : Except Error Bytes :=
  let digits := t.filter (· ≠ dash)
  if digits.length ≠ 32 then .error (.badTransferId t) else Hex.readPlaces (pair t) 16 digits

/-- A number in base sixteen, without leading zeros. -/
def numeral (n : Nat) : Bytes :=
  if n < 16 then [Hex.digit (UInt8.ofNat n)]
  else numeral (n / 16) ++ [Hex.digit (UInt8.ofNat (n % 16))]

/-- A text behind as many fill characters as it lacks in width. -/
def padded (width : Nat) (filler : UInt8) (t : Bytes) : Bytes :=
  List.replicate (width - t.length) filler ++ t

/-- What is written for the byte at an index. -/
def place (b : UInt8) (i : Nat) : Bytes :=
  (if i = 4 ∨ i = 6 ∨ i = 8 ∨ i = 10 then [dash] else []) ++ padded 2 48 (numeral b.toNat)

def print (s : Bytes) : Bytes := s.zipIdx.flatMap fun (b, i) => place b i

end Interledger.TransferId
