import Interledger.Error
import Interledger.Hex

/-! Hexadecimal text read place by place: each byte of a buffer is filled in turn, from the two
digits that stand for it. What two digits come to, and how they are refused, is a parameter. -/

namespace Interledger.Hex

/-- Fills a place of a buffer from the digits at twice its index and behind it. -/
def fill (pair : UInt8 → UInt8 → Except Error UInt8) (t buffer : Bytes) (i : Nat) :
    Except Error Bytes := do
  let b ← pair (t.getD (2 * i) 0) (t.getD (2 * i + 1) 0)
  return buffer.set i b

/-- Fills a buffer of `n` zeros from the start on. -/
def readPlaces (pair : UInt8 → UInt8 → Except Error UInt8) (n : Nat) (t : Bytes) :
    Except Error Bytes :=
  (List.range n).foldlM (fill pair t) (List.replicate n 0)

end Interledger.Hex
