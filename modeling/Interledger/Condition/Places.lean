import Interledger.Condition
import Interledger.Hex.Places

/-! Conditions read and written place by place. Characters are signed and are told apart by their
ranges, a byte is the high digit shifted over the low one, and writing looks the digits up in a
table. What is read and written agrees with `ofHex` and `hex`. -/

namespace Interledger.Condition

/-- The value of a character as a digit, or minus one. -/
def digitValue (c : Int8) : Int32 :=
  if 48 ≤ c ∧ c ≤ 57 then c.toInt32 - 48
  else if 97 ≤ c ∧ c ≤ 102 then c.toInt32 - 97 + 10
  else if 65 ≤ c ∧ c ≤ 70 then c.toInt32 - 65 + 10
  else -1

/-- The byte of two digits of a text. -/
def pair (t : Bytes) (h l : UInt8) : Except Error UInt8 :=
  let high := digitValue h.toInt8
  let low := digitValue l.toInt8
  if high < 0 ∨ low < 0 then .error (.conditionNotHex t)
  else .ok ((high <<< 4) ||| low).toInt8.toUInt8

def scan (t : Bytes) : Except Error Bytes :=
  if t.length ≠ 32 * 2 then .error .conditionLength else Hex.readPlaces (pair t) 32 t

def table : Bytes := "0123456789abcdef"

def print (digest : Bytes) : Bytes :=
  digest.foldl (fun t (b : UInt8) => t ++ [table.getD ((b >>> 4) &&& 0x0F).toNat 0] ++
    [table.getD (b &&& 0x0F).toNat 0]) []

end Interledger.Condition
