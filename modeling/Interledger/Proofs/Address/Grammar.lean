import Interledger.Address.Scan
import Interledger.Proofs.Address
import Mathlib.Data.List.Basic

/-! The grammar of addresses, and the loop that reads it. The loop cuts a text just where its dots
are, so that it reads what cutting at all dots at once gives, with the same first fault; it needs
no more than one round for each segment that is allowed, and one for the segment too many. A text
is read when the grammar spells it, and it spells every text in one way. -/

namespace Interledger.Address

/-! ### The loop -/

theorem fault?_cons (n : Nat) (s : Bytes) (ss : List Bytes) :
    fault? n (s :: ss) = (fault? n [s]).or (fault? (n + 1) ss) := by
  simp only [fault?]
  split
  · rfl
  split
  · rfl
  split
  · rfl
  · rfl

namespace Scan

variable {body : Bytes} {start stop : Nat} {c : Cursor}

/-- What stands between the dots from a start on. -/
def parts (body : Bytes) (start : Nat) : List Bytes := Bytes.split dot (body.drop start)

theorem parts_of_find?_eq_none (h : find? body start = none) :
    parts body start = [slice body start none] := by
  have hnone := List.findIdx?_eq_none_iff.1 (Option.map_eq_none_iff.1 h)
  refine Bytes.split_of_notMem fun hd => ?_
  simpa using hnone dot hd

/-- Up to the first dot stands the first part, and the others stand behind it. -/
theorem parts_of_find?_eq_some (h : find? body start = some stop) :
    parts body start = slice body start (some stop) :: parts body (stop + 1) := by
  obtain ⟨i, hi, rfl⟩ := Option.map_eq_some_iff.1 h
  obtain ⟨hlt, hdot, hbefore⟩ := List.findIdx?_eq_some_iff_getElem.1 hi
  have hdot : (body.drop start)[i] = dot := by simpa using hdot
  have hfree : dot ∉ (body.drop start).take i := by
    intro hd
    obtain ⟨j, hj, heq⟩ := List.getElem_of_mem hd
    rw [List.getElem_take] at heq
    rw [List.length_take] at hj
    exact hbefore j (by omega) (by simpa using heq)
  have hcut : body.drop start = (body.drop start).take i ++ dot :: (body.drop start).drop (i + 1) := by
    rw [← hdot, ← List.drop_eq_getElem_cons hlt, List.take_append_drop]
  have hrest : (body.drop start).drop (i + 1) = body.drop (start + i + 1) := by
    rw [List.drop_drop, Nat.add_assoc]
  rw [slice, Nat.add_sub_cancel_left, parts, parts, ← hrest]
  conv_lhs => rw [hcut]
  exact Bytes.split_append hfree _

/-- A round checks one segment, and the segments before it are as many as its number. -/
theorem round_eq (body : Bytes) (c : Cursor) : round body c =
    match fault? c.segments.length [slice body c.start (find? body c.start)] with
    | some fault => .failed fault
    | none =>
      match find? body c.start with
      | none => .ended (c.segments ++ [slice body c.start (find? body c.start)])
      | some stop => .next ⟨stop + 1, c.segments ++ [slice body c.start (find? body c.start)]⟩ := by
  have hcount : ∀ s : Bytes, maxSegments < (c.segments ++ [s]).length ↔
      maxSegments ≤ c.segments.length := by
    intro s
    rw [List.length_append, List.length_singleton, Nat.lt_succ_iff]
  simp only [round, fault?, hcount]
  split
  · rfl
  split
  · rfl
  split
  · rfl
  · rfl

/-- The loop finds what stands between the dots, or the first fault in it. -/
theorem loop_eq (body : Bytes) (c : Cursor) : loop body c =
    match fault? c.segments.length (parts body c.start) with
    | some fault => .error fault
    | none => .ok (c.segments ++ parts body c.start) := by
  -- Each round is one step of `fault?` on the parts that are left.
  fun_induction loop body c with
  | case1 c fault h =>
    rw [round_eq] at h
    split at h
    next fault' hf =>
      cases h
      cases hfind : find? body c.start with
      | none => rw [parts_of_find?_eq_none hfind, ← hfind, hf]
      | some stop => rw [parts_of_find?_eq_some hfind, fault?_cons, ← hfind, hf, Option.some_or]
    · split at h <;> cases h
  | case2 c segments h =>
    rw [round_eq] at h
    split at h
    · cases h
    next hf =>
    split at h
    next hfind =>
      cases h
      rw [parts_of_find?_eq_none hfind, ← hfind, hf]
    · cases h
  | case3 c c' h ih =>
    rw [round_eq] at h
    split at h
    · cases h
    next hf =>
    split at h
    · cases h
    next stop hfind =>
      cases h
      rw [ih, parts_of_find?_eq_some hfind, fault?_cons, ← hfind, hf, Option.none_or,
        List.length_append, List.length_singleton, List.append_assoc, List.singleton_append]

/-- What some rounds come to, one after the other for as long as they go on. -/
def after (body : Bytes) : Nat → Cursor → Round
  | 0, c => .next c
  | n + 1, c =>
    match round body c with
    | .next c' => after body n c'
    | r => r

theorem length_of_round_eq_next {c' : Cursor} (hc : c.segments.length ≤ maxSegments)
    (h : round body c = .next c') : c'.segments.length = c.segments.length + 1 ∧
      c'.segments.length ≤ maxSegments := by
  rw [round_eq] at h
  split at h
  · cases h
  next hf =>
  split at h
  · cases h
  · cases h
    rw [List.length_append, List.length_singleton]
    exact ⟨rfl, length_le_of_fault? hc hf⟩

/-- With each round there is one segment more, so that the loop is at its end when there have
been more rounds than segments are allowed. -/
theorem after_eq (body : Bytes) (c : Cursor) (hc : c.segments.length ≤ maxSegments) :
    after body (maxSegments + 1 - c.segments.length) c =
      match loop body c with
      | .error fault => .failed fault
      | .ok segments => .ended segments := by
  fun_induction loop body c with
  | case1 c fault h => rw [Nat.succ_sub hc, after, h]
  | case2 c segments h => rw [Nat.succ_sub hc, after, h]
  | case3 c c' h ih =>
    obtain ⟨hlength, hc'⟩ := length_of_round_eq_next hc h
    have hrounds : maxSegments - c.segments.length = maxSegments + 1 - c'.segments.length := by
      omega
    rw [Nat.succ_sub hc, after, h, ← ih hc', ← hrounds]

end Scan

/-- What is read of the text of an address. -/
def reading (a : Address) : Reading := ⟨a.text, a.segments, a.isPrefix⟩

theorem parse_of_fault? {v : Bytes} {fault : AddressFault} (hne : v ≠ [])
    (hlength : v.length ≤ maxLength) (hf : fault? 0 (Bytes.split dot (body v)) = some fault) :
    parse v = .error (.badAddress v fault) := by
  unfold parse
  rw [dif_neg hne, dif_neg (Nat.not_lt.2 hlength)]
  split
  next fault' hfault =>
    rw [hf] at hfault
    cases hfault
    rfl
  next hnone =>
    rw [hf] at hnone
    cases hnone

/-- The loop reads what cutting at all dots at once reads, and finds the same fault. -/
theorem scan_eq (v : Bytes) : scan v = (parse v).map reading := by
  by_cases hne : v = []
  · rw [scan, if_pos hne, parse, dif_pos hne]
    rfl
  by_cases hlength : maxLength < v.length
  · rw [scan, if_neg hne, if_pos hlength, parse, dif_neg hne, dif_pos hlength]
    rfl
  have hloop : Scan.loop (body v) ⟨0, []⟩ =
      match fault? 0 (Bytes.split dot (body v)) with
      | some fault => .error fault
      | none => .ok (Bytes.split dot (body v)) := Scan.loop_eq (body v) ⟨0, []⟩
  rw [scan, if_neg hne, if_neg hlength, hloop]
  have hle := Nat.not_lt.1 hlength
  cases hf : fault? 0 (Bytes.split dot (body v)) with
  | some fault =>
    rw [parse_of_fault? hne hle hf]
    rfl
  | none =>
    obtain ⟨a, ha⟩ := exists_parse hne hle hf
    obtain rfl := text_of_parse ha
    have hprefix : decide (a.text.getLast? = some dot) = a.isPrefix := by
      rw [Bool.eq_iff_iff, decide_eq_true_iff, isPrefix_iff]
    rw [ha, Except.map, reading, ← hprefix, split_body_text]

theorem exists_of_scan {v : Bytes} {r : Reading} (hr : scan v = .ok r) :
    ∃ a : Address, a.text = v ∧ a.reading = r := by
  rw [scan_eq] at hr
  cases hp : parse v with
  | error e =>
    rw [hp] at hr
    cases hr
  | ok a =>
    rw [hp] at hr
    exact ⟨a, text_of_parse hp, Except.ok.inj hr⟩

/-! ### The grammar -/

/-- The bytes that segments are made of. -/
def alphabet : Bytes := ascii "ABCDEFGHIJKLMNOPQRSTUVWXYZabcdefghijklmnopqrstuvwxyz0123456789_~-"

/-- A text is one to sixty-four segments with a dot between neighbours, and with one more dot
behind them when it is a prefix. -/
structure Spells (v : Bytes) (segments : List Bytes) (isPrefix : Bool) : Prop where
  count : 1 ≤ segments.length ∧ segments.length ≤ 64
  segment : ∀ s ∈ segments, s ≠ [] ∧ ∀ b ∈ s, b ∈ alphabet
  text : [dot].intercalate segments ++ (if isPrefix then [dot] else []) = v

theorem isSegmentByte_iff (b : UInt8) : isSegmentByte b ↔ b ∈ alphabet := by
  constructor
  · have hall : ∀ i : Fin 256, isSegmentByte (.ofFin i) → UInt8.ofFin i ∈ alphabet := by
      decide +kernel
    exact hall b.toFin
  · have hall : ∀ b ∈ alphabet, isSegmentByte b := by decide +kernel
    exact hall b

theorem isSegment_iff {s : Bytes} : isSegment s ↔ s ≠ [] ∧ ∀ b ∈ s, b ∈ alphabet := by
  simp only [isSegment, Bool.and_eq_true, decide_eq_true_iff, List.all_eq_true, isSegmentByte_iff]

theorem intercalate_eq_join (sep : UInt8) (ps : List Bytes) :
    [sep].intercalate ps = Bytes.join sep ps := by
  induction ps with
  | nil => rfl
  | cons p ps ih =>
    cases ps with
    | nil => simp [Bytes.join]
    | cons q ps => rw [Bytes.join, ← ih, List.intercalate_cons_cons, List.append_assoc,
        List.singleton_append]

variable {v : Bytes} {segments : List Bytes} {isPrefix : Bool}

theorem spells_iff : Spells v segments isPrefix ∧ v.length ≤ maxLength ↔
    WellFormed segments isPrefix ∧ write segments isPrefix = v := by
  constructor
  · rintro ⟨⟨⟨hpos, hle⟩, hs, rfl⟩, hlength⟩
    rw [intercalate_eq_join] at hlength ⊢
    exact ⟨⟨List.ne_nil_of_length_pos hpos, fun s h => isSegment_iff.2 (hs s h), hle, hlength⟩, rfl⟩
  · rintro ⟨⟨hne, hs, hle, hlength⟩, rfl⟩
    refine ⟨⟨⟨List.length_pos_of_ne_nil hne, hle⟩, fun s h => isSegment_iff.1 (hs s h), ?_⟩, hlength⟩
    rw [intercalate_eq_join]
    rfl

/-- A text has one spelling, which is the address that is read. -/
theorem spells_iff_of_parse {a : Address} (ha : parse v = .ok a) :
    Spells v segments isPrefix ↔ segments = a.segments ∧ isPrefix = a.isPrefix := by
  obtain rfl := text_of_parse ha
  have hlength : a.text.length ≤ maxLength := a.wellFormed.text_length_le
  constructor
  · intro hs
    obtain ⟨hw, htext⟩ := spells_iff.1 ⟨hs, hlength⟩
    obtain rfl : ⟨segments, isPrefix, hw⟩ = a := text_injective htext
    exact ⟨rfl, rfl⟩
  · rintro ⟨rfl, rfl⟩
    exact (spells_iff.2 ⟨a.wellFormed, rfl⟩).1

/-- A text of 1 to 1023 bytes is read as an address just when the grammar spells it, and any
other text is refused as an invalid address. What is read keeps the text, is a prefix just when
the text ends in a dot, and has the one list of segments that spells the text; so two texts are
the same just when their segments and their final dots are. The loop over a text reads the same,
and is at its end after at most 65 rounds. -/
theorem parse_reads_grammar (v : Bytes) :
    ((∃ a, parse v = .ok a) ↔ 1 ≤ v.length ∧ v.length ≤ 1023 ∧
      ∃ segments isPrefix, Spells v segments isPrefix) ∧
    (∀ e, parse v = .error e → e.kind = .invalidAddress) ∧
    (∀ a, parse v = .ok a → a.text = v ∧ (a.isPrefix ↔ v.getLast? = some dot) ∧
      ∀ segments isPrefix, Spells v segments isPrefix ↔
        segments = a.segments ∧ isPrefix = a.isPrefix) ∧
    (∀ a w b, parse v = .ok a → parse w = .ok b →
      (a.text = b.text ↔ a.segments = b.segments ∧ a.isPrefix = b.isPrefix)) ∧
    scan v = (parse v).map reading ∧
    ((∃ fault, Scan.after (body v) 65 ⟨0, []⟩ = .failed fault) ∨
      ∃ segments, Scan.after (body v) 65 ⟨0, []⟩ = .ended segments) := by
  refine ⟨?_, fun e he => ?_, fun a ha => ?_, fun a w b _ _ => ?_, scan_eq v, ?_⟩
  · rw [exists_parse_iff]
    constructor
    · rintro ⟨segments, isPrefix, hw, htext⟩
      obtain ⟨hs, hlength⟩ := spells_iff.2 ⟨hw, htext⟩
      have hne : v ≠ [] := htext ▸ write_ne_nil hw.ne_nil hw.isSegment
      exact ⟨List.length_pos_of_ne_nil hne, hlength, segments, isPrefix, hs⟩
    · rintro ⟨-, hlength, segments, isPrefix, hs⟩
      exact ⟨segments, isPrefix, spells_iff.1 ⟨hs, hlength⟩⟩
  · obtain ⟨fault, rfl⟩ := fault_of_parse he
    rfl
  · refine ⟨text_of_parse ha, ?_, fun _ _ => spells_iff_of_parse ha⟩
    rw [isPrefix_iff, text_of_parse ha]
  · constructor
    · intro h
      rw [text_injective h]
      exact ⟨rfl, rfl⟩
    · rintro ⟨hs, hp⟩
      rw [text, text, hs, hp]
  · have hafter := Scan.after_eq (body v) ⟨0, []⟩ (Nat.zero_le _)
    cases hl : Scan.loop (body v) ⟨0, []⟩ with
    | error fault =>
      rw [hl] at hafter
      exact .inl ⟨fault, hafter⟩
    | ok segments =>
      rw [hl] at hafter
      exact .inr ⟨segments, hafter⟩

end Interledger.Address
