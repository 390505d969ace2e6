import Interledger.Log

/-! Log fields one after the other. Each is added to the text of those before it, behind a blank
unless it is the first. Taking one off a text again, its key ends at the first equals sign; its
value ends at the closing quote when it begins with a quote, and otherwise at the next blank or
with the text. -/

namespace Interledger.Log.Field

/-- The text with one more field. -/
def addTo (out : Bytes) (f : Field) : Bytes :=
  (if out = [] then out else out ++ [space]) ++ f.key ++ [equals] ++ writeValue f.value

/-- The byte that an escape stands for. -/
def unescape? (b : UInt8) : Option UInt8 :=
  if b = quote ∨ b = backslash then some b
  else if b = 110 then some newline
  else none

/-- The value up to the closing quote, with its escapes undone, and what follows the quote. -/
def readQuoted : Bytes → Option (Bytes × Bytes)
  | [] => none
  | b :: s =>
    if b = quote then some ([], s)
    else if b = backslash then
      match s with
      | [] => none
      | c :: s =>
        match unescape? c with
        | none => none
        | some d => (readQuoted s).map fun (value, rest) => (d :: value, rest)
    else (readQuoted s).map fun (value, rest) => (b :: value, rest)

theorem readQuoted_quote (s : Bytes) : readQuoted (quote :: s) = some ([], s) := by
  rw [readQuoted.eq_def]
  exact if_pos rfl

theorem readQuoted_escaped {c d : UInt8} (hd : unescape? c = some d) (s : Bytes) :
    readQuoted (backslash :: c :: s) =
      (readQuoted s).map fun (value, rest) => (d :: value, rest) := by
  rw [readQuoted.eq_def]
  dsimp only
  rw [if_neg (by decide), if_pos rfl, hd]

theorem readQuoted_plain {b : UInt8} (hquote : b ≠ quote) (hbackslash : b ≠ backslash) (s : Bytes) :
    readQuoted (b :: s) = (readQuoted s).map fun (value, rest) => (b :: value, rest) := by
  rw [readQuoted.eq_def]
  dsimp only
  rw [if_neg hquote, if_neg hbackslash]

def readValue (s : Bytes) : Option (Bytes × Bytes) :=
  if s.head? = some quote then readQuoted s.tail
  else some (s.takeWhile (· ≠ space), s.dropWhile (· ≠ space))

def read (s : Bytes) : Option (Field × Bytes) :=
  match s.dropWhile (· ≠ equals) with
  | [] => none
  | _ :: r => (readValue r).map fun (value, rest) => (⟨s.takeWhile (· ≠ equals), value⟩, rest)

theorem length_of_readQuoted {s : Bytes} {p : Bytes × Bytes} (h : readQuoted s = some p) :
    p.2.length < s.length := by
  fun_induction readQuoted s generalizing p with
  | case1 => cases h
  | case2 s =>
    cases h
    exact Nat.lt_succ_self _
  | case3 => cases h
  | case4 => cases h
  | case5 c s _ d _ ih =>
    obtain ⟨q, hq, rfl⟩ := Option.map_eq_some_iff.1 h
    have := ih hq
    simp only [List.length_cons]
    omega
  | case6 b s _ _ ih =>
    obtain ⟨q, hq, rfl⟩ := Option.map_eq_some_iff.1 h
    have := ih hq
    exact Nat.lt_succ_of_lt this

theorem length_of_readValue {s : Bytes} {p : Bytes × Bytes} (h : readValue s = some p) :
    p.2.length ≤ s.length := by
  unfold readValue at h
  split at h
  · have := length_of_readQuoted h
    rw [List.length_tail] at this
    omega
  · cases h
    exact (List.dropWhile_sublist _).length_le

/-- A field takes at least its equals sign off the text. -/
theorem length_of_read {s : Bytes} {p : Field × Bytes} (h : read s = some p) :
    p.2.length < s.length := by
  unfold read at h
  split at h
  · cases h
  next b r hr =>
    obtain ⟨q, hq, rfl⟩ := Option.map_eq_some_iff.1 h
    have hvalue := length_of_readValue hq
    have hdrop := (List.dropWhile_sublist (l := s) (· ≠ equals)).length_le
    rw [hr, List.length_cons] at hdrop
    exact Nat.lt_of_le_of_lt hvalue hdrop

/-- Reads one field or more, with a blank between neighbours. -/
def readSome (s : Bytes) : Option (List Field) :=
  match h : read s with
  | none => none
  | some (f, []) => some [f]
  | some (f, b :: rest) =>
    have : rest.length < s.length := Nat.lt_of_succ_lt (length_of_read h)
    if b = space then (readSome rest).map (f :: ·) else none
termination_by s.length

theorem readSome_last {s : Bytes} {f : Field} (h : read s = some (f, [])) :
    readSome s = some [f] := by
  rw [readSome]
  split
  next hr => cases h.symm.trans hr
  next hr =>
    cases h.symm.trans hr
    rfl
  next hr => cases h.symm.trans hr

theorem readSome_cons {s rest : Bytes} {f : Field} (h : read s = some (f, space :: rest)) :
    readSome s = (readSome rest).map (f :: ·) := by
  rw [readSome]
  split
  next hr => cases h.symm.trans hr
  next hr => cases h.symm.trans hr
  next hr =>
    cases h.symm.trans hr
    exact if_pos rfl

def readAll (s : Bytes) : Option (List Field) := if s = [] then some [] else readSome s

end Interledger.Log.Field
