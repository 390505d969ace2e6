import Interledger.Bytes

/-! Well-formed UTF-8 as a machine over single bytes: no overlong forms, no
surrogates, nothing beyond U+10FFFF. -/

namespace Interledger.Utf8

/-- Between characters, or inside one: the range of the next byte and how many
continuation bytes follow it. -/
inductive State where
  | between
  | inside (low high : UInt8) (more : Nat)

def first (b : UInt8) : Option State :=
  if b ≤ 0x7F then some .between
  else if b < 0xC2 then none
  else if b ≤ 0xDF then some (.inside 0x80 0xBF 0)
  else if b = 0xE0 then some (.inside 0xA0 0xBF 1)
  else if b = 0xED then some (.inside 0x80 0x9F 1)
  else if b ≤ 0xEF then some (.inside 0x80 0xBF 1)
  else if b = 0xF0 then some (.inside 0x90 0xBF 2)
  else if b ≤ 0xF3 then some (.inside 0x80 0xBF 2)
  else if b = 0xF4 then some (.inside 0x80 0x8F 2)
  else none

def State.next : State → UInt8 → Option State
  | .between, b => first b
  | .inside low high more, b =>
    if low ≤ b ∧ b ≤ high then
      match more with
      | 0 => some .between
      | more + 1 => some (.inside 0x80 0xBF more)
    else none

def State.accepts : State → Bytes → Bool
  | .between, [] => true
  | .inside .., [] => false
  | q, b :: s =>
    match q.next b with
    | some r => r.accepts s
    | none => false

def isValid (s : Bytes) : Bool := State.between.accepts s

end Interledger.Utf8
