import Interledger.Packet.Record
import Interledger.Utf8

/-! Packets on the wire: the three strings of a record as tagged, length-delimited
fields.

A field is a tag, eight times its number plus its wire type, and a payload. Writing
leaves empty fields out. Reading takes the last occurrence of a field and skips what
it does not know, whole groups included. -/

namespace Interledger.Packet.Wire

def varint (n : Nat) : Bytes :=
  if n < 128 then [UInt8.ofNat n] else UInt8.ofNat (128 + n % 128) :: varint (n / 128)

/-- Reads a varint of at most `limit` bytes, not necessarily of minimal length. -/
def readVarint : Nat → Bytes → Option (Nat × Bytes)
  | 0, _ => none
  | _ + 1, [] => none
  | limit + 1, b :: s =>
    if b < 128 then some (b.toNat, s)
    else (readVarint limit s).map fun (n, r) => (b.toNat - 128 + 128 * n, r)

def readBytes (n : Nat) (s : Bytes) : Option (Bytes × Bytes) :=
  if n ≤ s.length then some (s.take n, s.drop n) else none

/-- Reads a length and that many bytes. -/
def readBlock (s : Bytes) : Option (Bytes × Bytes) :=
  match readVarint 5 s with
  | some (n, r) => readBytes n r
  | none => none

/-- What follows a tag. -/
inductive Payload where
  | skipped
  | block (bytes : Bytes)
  | opening
  | closing
  deriving DecidableEq

/-- Reads the payload that a wire type calls for. -/
def readPayload : Nat → Bytes → Option (Payload × Bytes)
  | 0, s => (readVarint 10 s).map fun (_, r) => (.skipped, r)
  | 1, s => (readBytes 8 s).map fun (_, r) => (.skipped, r)
  | 2, s => (readBlock s).map fun (b, r) => (.block b, r)
  | 3, s => some (.opening, s)
  | 4, s => some (.closing, s)
  | 5, s => (readBytes 4 s).map fun (_, r) => (.skipped, r)
  | _, _ => none

/-- Reads a field's number and payload. -/
def readField (s : Bytes) : Option (Nat × Payload × Bytes) :=
  match readVarint 5 s with
  | some (tag, r) =>
    if tag / 8 = 0 then none else (readPayload (tag % 8) r).map fun p => (tag / 8, p)
  | none => none

theorem length_of_readVarint {limit : Nat} {s : Bytes} {p : Nat × Bytes}
    (h : readVarint limit s = some p) : p.2.length < s.length := by
  induction limit generalizing s p with
  | zero => simp [readVarint] at h
  | succ limit ih =>
    cases s with
    | nil => simp [readVarint] at h
    | cons b s =>
      rw [readVarint] at h
      split at h
      · cases h; simp
      · obtain ⟨q, hq, rfl⟩ := Option.map_eq_some_iff.1 h
        have := ih hq
        simp only [List.length_cons]
        omega

theorem length_of_readBytes {n : Nat} {s : Bytes} {p : Bytes × Bytes}
    (h : readBytes n s = some p) : p.2.length ≤ s.length := by
  unfold readBytes at h
  split at h
  · cases h; simp
  · cases h

theorem length_of_readBlock {s : Bytes} {p : Bytes × Bytes} (h : readBlock s = some p) :
    p.2.length ≤ s.length := by
  unfold readBlock at h
  split at h
  · next h' =>
    have := length_of_readVarint h'
    have := length_of_readBytes h
    simp only at *
    omega
  · cases h

theorem length_of_readPayload {wire : Nat} {s : Bytes} {p : Payload × Bytes}
    (h : readPayload wire s = some p) : p.2.length ≤ s.length := by
  unfold readPayload at h
  split at h
  · obtain ⟨q, hq, rfl⟩ := Option.map_eq_some_iff.1 h
    exact Nat.le_of_lt (length_of_readVarint hq)
  · obtain ⟨q, hq, rfl⟩ := Option.map_eq_some_iff.1 h
    exact length_of_readBytes hq
  · obtain ⟨q, hq, rfl⟩ := Option.map_eq_some_iff.1 h
    exact length_of_readBlock hq
  · cases h; simp
  · cases h; simp
  · obtain ⟨q, hq, rfl⟩ := Option.map_eq_some_iff.1 h
    exact length_of_readBytes hq
  · cases h

theorem length_of_readField {s r : Bytes} {number : Nat} {payload : Payload}
    (h : readField s = some (number, payload, r)) : r.length < s.length := by
  unfold readField at h
  split at h
  · next h' =>
    split at h
    · cases h
    · obtain ⟨q, hq, he⟩ := Option.map_eq_some_iff.1 h
      cases he
      exact Nat.lt_of_le_of_lt (length_of_readPayload hq) (length_of_readVarint h')
  · cases h

def maxGroups : Nat := 100

/-- Keeps a block under its number, or refuses text that is not UTF-8. -/
def store (m : Record) (number : Nat) (block : Bytes) : Option Record :=
  match number with
  | 1 => if Utf8.isValid block then some { m with account := block } else none
  | 2 => if Utf8.isValid block then some { m with amount := block } else none
  | 3 => some { m with data := block }
  | _ => some m

/-- Reads fields up to the end, inside the groups whose numbers are `groups`, the
innermost first. Fields in groups are skipped. -/
def readFields (groups : List Nat) (m : Record) (s : Bytes) : Option Record :=
  if s = [] then if groups = [] then some m else none
  else
    match h : readField s with
    | none => none
    | some (number, payload, r) =>
      have : r.length < s.length := length_of_readField h
      match payload, groups with
      | .skipped, groups => readFields groups m r
      | .block b, [] =>
        match store m number b with
        | some m => readFields [] m r
        | none => none
      | .block _, g :: groups => readFields (g :: groups) m r
      | .opening, groups =>
        if groups.length < maxGroups then readFields (number :: groups) m r else none
      | .closing, g :: groups => if g = number then readFields groups m r else none
      | .closing, [] => none
termination_by s.length

def field (number : Nat) (block : Bytes) : Bytes :=
  if block = [] then [] else varint (8 * number + 2) ++ varint block.length ++ block

def write (m : Record) : Bytes := field 1 m.account ++ field 2 m.amount ++ field 3 m.data

def read (s : Bytes) : Option Record := readFields [] .empty s

end Wire

def encode (p : Packet) : Bytes := Wire.write p.toRecord

def decode (s : Bytes) : Except Error Packet :=
  match Wire.read s with
  | some m => ofRecord m
  | none => .error .packetMalformed

end Interledger.Packet
