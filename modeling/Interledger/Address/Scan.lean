import Interledger.Address

/-! Reading an address in one loop over its text. A round looks for the next dot from a start
index on, checks the segment before it, and leaves an index behind the dot for the next round.
What is read keeps its text, and is compared by it. -/

namespace Interledger.Address

namespace Scan

/-- Where a round starts: an index, and the segments that stand before it. -/
structure Cursor where
  start : Nat
  segments : List Bytes

/-- What a round comes to. -/
inductive Round where
  | failed (fault : AddressFault)
  | ended (segments : List Bytes)
  | next (c : Cursor)

/-- The index of the first dot from a start on. -/
def find? (body : Bytes) (start : Nat) : Option Nat :=
  ((body.drop start).findIdx? (· = dot)).map (start + ·)

/-- The bytes from a start up to a stop, or all that follow. -/
def slice (body : Bytes) (start : Nat) : Option Nat → Bytes
  | some stop => (body.drop start).take (stop - start)
  | none => body.drop start

def round (body : Bytes) (c : Cursor) : Round :=
  let stop? := find? body c.start
  let segment := slice body c.start stop?
  let segments := c.segments ++ [segment]
  if segment = [] then .failed .emptySegment
  else if isSegment segment = false then .failed (.badSegment segment)
  else if maxSegments < segments.length then .failed .tooManySegments
  else
    match stop? with
    | none => .ended segments
    | some stop => .next ⟨stop + 1, segments⟩

variable {body : Bytes} {c c' : Cursor} {start stop : Nat}

theorem find?_bounds (h : find? body start = some stop) : start ≤ stop ∧ stop < body.length := by
  obtain ⟨i, hi, rfl⟩ := Option.map_eq_some_iff.1 h
  have hlt := (List.findIdx?_eq_some_iff_findIdx_eq.1 hi).1
  rw [List.length_drop] at hlt
  omega

/-- Every round but the last one moves on, and not behind the end. -/
theorem start_lt_of_round (h : round body c = .next c') :
    c.start < c'.start ∧ c'.start ≤ body.length := by
  unfold round at h
  dsimp only at h
  split at h
  · cases h
  split at h
  · cases h
  split at h
  · cases h
  split at h
  · cases h
  next stop hstop =>
    cases h
    have := find?_bounds hstop
    dsimp only
    omega

/-- All segments from a cursor on, or the first fault. -/
def loop (body : Bytes) (c : Cursor) : Except AddressFault (List Bytes) :=
  match _h : round body c with
  | .failed fault => .error fault
  | .ended segments => .ok segments
  | .next c' => loop body c'
termination_by body.length - c.start
decreasing_by
  have := start_lt_of_round _h
  omega

end Scan

/-- What is read from a text. -/
structure Reading where
  text : Bytes
  segments : List Bytes
  isPrefix : Bool
  deriving DecidableEq

def scan (v : Bytes) : Except Error Reading :=
  if v = [] then .error (.badAddress v .empty)
  else if maxLength < v.length then .error (.badAddress v .tooLong)
  else
    match Scan.loop (body v) ⟨0, []⟩ with
    | .error fault => .error (.badAddress v fault)
    | .ok segments => .ok ⟨v, segments, v.getLast? = some dot⟩

/-- Whether `b` has the text of `a` or, when `a` is a prefix, begins with its segments. -/
def Reading.covers (a b : Reading) : Bool :=
  if a.text = b.text then true
  else if a.isPrefix = false then false
  else if b.segments.length < a.segments.length then false
  else if a.segments.length = b.segments.length && !b.isPrefix then false
  else (List.range a.segments.length).all fun i => a.segments[i]? = b.segments[i]?

end Interledger.Address
