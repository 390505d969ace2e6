import Interledger.Error
import Interledger.Hex
import Interledger.Sha256

/-! Transfer ids as random UUIDs: sixteen bytes, written as five groups of
hexadecimal digits. -/

namespace Interledger

structure TransferId where
  bytes : Bytes
  length_eq : bytes.length = 16
  deriving DecidableEq

namespace TransferId

def dash : UInt8 := 45

def text (u : TransferId) : Bytes :=
  let b := u.bytes
  Bytes.join dash (([b.take 4, (b.drop 4).take 2, (b.drop 6).take 2, (b.drop 8).take 2,
    b.drop 10]).map Hex.encode)

/-- Reads thirty-two digits, with dashes anywhere among them. -/
def parse (t : Bytes) : Except Error TransferId :=
  let digits := t.filter (· ≠ dash)
  if hl : digits.length = 32 then
    match h : Hex.decode? digits with
    | some s => .ok ⟨s, Hex.length_eq_of_decode? hl h⟩
    | none => .error (.badTransferId t)
  else .error (.badTransferId t)

/-- Marks sixteen random bytes as a version 4 id of the standard variant. -/
def ofRandom (s : Bytes) (h : s.length = 16) : TransferId :=
  ⟨(s.modify 6 fun b => (b &&& 0x0F) ||| 0x40).modify 8 fun b => (b &&& 0x3F) ||| 0x80, by simp [h]⟩

/-- The `n`-th id drawn from a seed. -/
def draw (seed : Bytes) (n : Nat) : TransferId :=
  ofRandom ((Sha256.digest (seed ++ Decimal.digits n)).take 16) (by simp)

/-- Whether a text is a version 4 id of the standard variant in its one written form. -/
def isCanonical (t : Bytes) : Bool :=
  t.length = 36 && t[14]? = some 52 && t[19]?.any ([56, 57, 97, 98].contains ·)
    && match parse t with
      | .ok u => u.text = t
      | .error _ => false

end TransferId

end Interledger
