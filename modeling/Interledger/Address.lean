import Interledger.Error

/-! Interledger addresses: segments joined by dots. A prefix ends with a dot and
covers everything below it; any other address is a leaf and names one account.
An address is well formed by its type, so reading a text is the only way to fail. -/

namespace Interledger

def dot : UInt8 := 46

namespace Address

def maxLength : Nat := 1023

def maxSegments : Nat := 64

def isSegmentByte (b : UInt8) : Bool :=
  (65 ≤ b && b ≤ 90) || (97 ≤ b && b ≤ 122) || (48 ≤ b && b ≤ 57) || b = 95 || b = 126 || b = 45

def isSegment (s : Bytes) : Bool := s ≠ [] && s.all isSegmentByte

/-- The text of some segments, with a final dot for a prefix. -/
def write (segments : List Bytes) (isPrefix : Bool) : Bytes :=
  Bytes.join dot segments ++ if isPrefix then [dot] else []

/-- The grammar: one to sixty-four segments, and at most 1023 bytes in all. -/
structure WellFormed (segments : List Bytes) (isPrefix : Bool) : Prop where
  ne_nil : segments ≠ []
  isSegment : ∀ s ∈ segments, isSegment s
  length_le : segments.length ≤ maxSegments
  text_length_le : (write segments isPrefix).length ≤ maxLength

instance (segments : List Bytes) (isPrefix : Bool) : Decidable (WellFormed segments isPrefix) :=
  decidable_of_iff
    (segments ≠ [] ∧ (∀ s ∈ segments, isSegment s) ∧ segments.length ≤ maxSegments
      ∧ (write segments isPrefix).length ≤ maxLength)
    ⟨fun h => ⟨h.1, h.2.1, h.2.2.1, h.2.2.2⟩, fun h => ⟨h.1, h.2, h.3, h.4⟩⟩

end Address

structure Address where
  segments : List Bytes
  isPrefix : Bool
  wellFormed : Address.WellFormed segments isPrefix
  deriving DecidableEq

namespace Address

def text (a : Address) : Bytes := write a.segments a.isPrefix

/-- What a text consists of once its final dot is cut off. -/
def body (v : Bytes) : Bytes := if v.getLast? = some dot then v.dropLast else v

/-- The first fault among the segments after `n` good ones. -/
def fault? : Nat → List Bytes → Option AddressFault
  | _, [] => none
  | n, s :: ss =>
    if s = [] then some .emptySegment
    else if isSegment s = false then some (.badSegment s)
    else if maxSegments ≤ n then some .tooManySegments
    else fault? (n + 1) ss

theorem isSegment_of_fault? {n : Nat} {ss : List Bytes} (h : fault? n ss = none) :
    ∀ s ∈ ss, isSegment s := by
  fun_induction fault? n ss with
  | case1 => simp
  | case5 n s ss _ hs _ ih => exact List.forall_mem_cons.2 ⟨by simpa using hs, ih h⟩
  | _ => simp at h

theorem length_le_of_fault? {n : Nat} {ss : List Bytes} (hn : n ≤ maxSegments)
    (h : fault? n ss = none) : n + ss.length ≤ maxSegments := by
  fun_induction fault? n ss with
  | case1 => simpa using hn
  | case5 n s ss _ _ hm ih =>
    have := ih (by omega) h
    simp only [List.length_cons]
    omega
  | _ => simp at h

theorem write_split_body (v : Bytes) (hv : v ≠ []) :
    write ((body v).split dot) (v.getLast? = some dot) = v := by
  simp only [write, Bytes.join_split, body]
  by_cases h : v.getLast? = some dot
  · rw [if_pos h, if_pos (by simpa using h)]
    rw [List.getLast?_eq_some_getLast hv, Option.some.injEq] at h
    rw [← h, List.dropLast_concat_getLast]
  · simp [h]

/-- Reads an address; the first fault of the text is the one reported. -/
def parse (v : Bytes) : Except Error Address :=
  if hv : v = [] then .error (.badAddress v .empty)
  else if hl : maxLength < v.length then .error (.badAddress v .tooLong)
  else
    match hf : fault? 0 ((body v).split dot) with
    | some fault => .error (.badAddress v fault)
    | none => .ok {
        segments := (body v).split dot
        isPrefix := v.getLast? = some dot
        wellFormed :=
          { ne_nil := Bytes.split_ne_nil dot (body v)
            isSegment := isSegment_of_fault? hf
            length_le := by simpa using length_le_of_fault? (Nat.zero_le _) hf
            text_length_le := by rw [write_split_body v hv]; omega } }

/-- Whether `b` is `a`, or below it when `a` is a prefix. -/
def covers (a b : Address) : Bool :=
  a = b || (a.isPrefix && a.segments.length < b.segments.length
    && a.segments.isPrefixOf b.segments)

/-- The leaf one segment below a prefix. -/
def child (a : Address) (s : Bytes) : Except Error Address :=
  if a.isPrefix = false then .error (.leafParent a.text)
  else if isSegment s = false then .error (.badChild s a.text)
  else parse (a.text ++ s)

/-- The prefix with the segments of `a`. -/
def scope (a : Address) : Except Error Address :=
  if a.isPrefix then .ok a else parse (a.text ++ [dot])

/-- The bytewise order of the texts. -/
def lt (a b : Address) : Bool := a.text.lt b.text

theorem text_of_parse {v : Bytes} {a : Address} (h : parse v = .ok a) : a.text = v := by
  unfold parse at h
  split at h
  · cases h
  next hv =>
  split at h
  · cases h
  split at h
  · cases h
  · cases h
    exact write_split_body v hv

end Address

end Interledger
