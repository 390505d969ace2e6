import Interledger.Proofs.Address.Covering

/-! Going down one segment from a prefix, and up to the prefix with the same segments. Both read
a text that was put together anew, so both can fail at the limits of the grammar: a leaf below a
prefix has one segment more than the prefix, and the prefix of a leaf has one dot more than the
leaf. What is read has the segments that it was put together from. -/

namespace Interledger.Address

variable {a b p q r : Address} {s : Bytes} {segments : List Bytes} {isPrefix : Bool}

theorem eq_of_segments (hs : a.segments = b.segments) (hp : a.isPrefix = b.isPrefix) : a = b :=
  text_injective (by rw [text, text, hs, hp])

/-- Whose text is put together from some segments has these segments. -/
theorem segments_of_text_eq_write (hne : segments ≠ []) (hs : ∀ s ∈ segments, isSegment s)
    (htext : a.text = write segments isPrefix) :
    a.segments = segments ∧ a.isPrefix = isPrefix := by
  constructor
  · rw [← split_body_text, htext, body_write hne hs]
    exact Bytes.split_join hne fun s h => dot_notMem (hs s h)
  · rw [Bool.eq_iff_iff, isPrefix_iff, htext]
    exact getLast?_write hne hs

/-- The text of a leaf is that of the prefix above it, with the last segment behind it. -/
theorem write_concat (hne : segments ≠ []) (s : Bytes) :
    write (segments ++ [s]) false = write segments true ++ s := by
  rw [write, Bytes.join_append hne (List.cons_ne_nil s []), write, if_neg Bool.noConfusion, if_pos rfl,
    List.append_nil, List.append_assoc]
  rfl

theorem text_concat (hp : p.isPrefix) (s : Bytes) :
    p.text ++ s = write (p.segments ++ [s]) false := by
  rw [write_concat p.wellFormed.ne_nil, text, hp]

theorem text_concat_dot (ha : a.isPrefix = false) : a.text ++ [dot] = write a.segments true := by
  rw [text, ha, write, write, if_neg Bool.noConfusion, if_pos rfl, List.append_nil]

/-! ### Down -/

theorem isSegment_of_mem_concat (hs : isSegment s) : ∀ x ∈ p.segments ++ [s], isSegment x := by
  intro x hx
  rcases List.mem_append.1 hx with hx | hx
  · exact p.wellFormed.isSegment x hx
  · exact List.mem_singleton.1 hx ▸ hs

theorem child_eq_ok_iff :
    p.child s = .ok r ↔ p.isPrefix ∧ r.isPrefix = false ∧ r.segments = p.segments ++ [s] := by
  unfold child
  cases hp : p.isPrefix with
  | false => simp
  | true =>
  rw [if_neg Bool.noConfusion]
  split
  next hs =>
    refine iff_of_false nofun ?_
    rintro ⟨-, -, hsegments⟩
    have hmem : s ∈ r.segments := by simp [hsegments]
    rw [r.wellFormed.isSegment s hmem] at hs
    cases hs
  next hs =>
    have hs : isSegment s := by simpa using hs
    rw [parse_eq_ok_iff, text_concat hp]
    constructor
    · intro htext
      obtain ⟨hsegments, hleaf⟩ := segments_of_text_eq_write (by simp) (isSegment_of_mem_concat hs) htext
      exact ⟨rfl, hleaf, hsegments⟩
    · rintro ⟨-, hleaf, hsegments⟩
      rw [text, hleaf, hsegments]

/-- One more segment, and no more bytes than the segment has. -/
theorem wellFormed_concat_iff (hp : p.isPrefix) : WellFormed (p.segments ++ [s]) false ↔
    isSegment s ∧ p.text.length + s.length ≤ maxLength ∧ p.segments.length < maxSegments := by
  have hlength : (write (p.segments ++ [s]) false).length = p.text.length + s.length := by
    rw [← text_concat hp, List.length_append]
  constructor
  · rintro ⟨-, hs, hcount, htext⟩
    rw [List.length_append, List.length_singleton] at hcount
    exact ⟨hs s (by simp), hlength ▸ htext, hcount⟩
  · rintro ⟨hs, htext, hcount⟩
    refine ⟨by simp, isSegment_of_mem_concat hs, ?_, hlength ▸ htext⟩
    rw [List.length_append, List.length_singleton]
    exact hcount

theorem exists_child_iff : (∃ r, p.child s = .ok r) ↔ p.isPrefix ∧ isSegment s ∧
    p.text.length + s.length ≤ maxLength ∧ p.segments.length < maxSegments := by
  constructor
  · rintro ⟨r, hr⟩
    obtain ⟨hp, hleaf, hsegments⟩ := child_eq_ok_iff.1 hr
    have hw : WellFormed (p.segments ++ [s]) false := hsegments ▸ hleaf ▸ r.wellFormed
    exact ⟨hp, (wellFormed_concat_iff hp).1 hw⟩
  · rintro ⟨hp, h⟩
    exact ⟨⟨_, _, (wellFormed_concat_iff hp).2 h⟩, child_eq_ok_iff.2 ⟨hp, rfl, rfl⟩⟩

theorem kind_of_child {e : Error} (h : p.child s = .error e) : e.kind = .invalidAddress := by
  unfold child at h
  split at h
  · cases h
    rfl
  split at h
  · cases h
    rfl
  · obtain ⟨fault, rfl⟩ := fault_of_parse h
    rfl

theorem covers_of_child (h : p.child s = .ok r) : p.covers r := by
  obtain ⟨hp, -, hsegments⟩ := child_eq_ok_iff.1 h
  refine covers_iff.2 (.inr ⟨hp, ?_, ?_⟩)
  · rw [hsegments, List.length_append, List.length_singleton]
    exact Nat.lt_succ_self _
  · rw [hsegments]
    exact List.prefix_append _ _

/-- A leaf that does not stand alone has one prefix above it and one last segment. -/
theorem existsUnique_parent (hr : r.isPrefix = false) (hcount : 2 ≤ r.segments.length) :
    ∃! ps : Address × Bytes, ps.1.child ps.2 = .ok r := by
  obtain ⟨front, s, hsegments⟩ : ∃ front s, r.segments = front ++ [s] :=
    (List.eq_nil_or_concat' r.segments).resolve_left r.wellFormed.ne_nil
  obtain ⟨-, hs, hle, htext⟩ := r.wellFormed
  rw [hsegments] at hs hcount hle htext
  rw [List.length_append, List.length_singleton] at hcount hle
  have hne : front ≠ [] := by
    rintro rfl
    simp at hcount
  have hw : WellFormed front true := by
    refine ⟨hne, fun x hx => hs x (List.mem_append_left _ hx), by omega, ?_⟩
    rw [hr, write_concat hne, List.length_append] at htext
    omega
  refine ⟨(⟨front, true, hw⟩, s), child_eq_ok_iff.2 ⟨rfl, hr, hsegments⟩, ?_⟩
  rintro ⟨p, s'⟩ hchild
  obtain ⟨hp, -, hsegments'⟩ := child_eq_ok_iff.1 hchild
  obtain ⟨hfront, hlast⟩ := List.append_inj' (hsegments.symm.trans hsegments') rfl
  exact Prod.ext (eq_of_segments hfront.symm hp) (List.singleton_injective hlast.symm)

/-! ### Up -/

theorem scope_of_isPrefix (ha : a.isPrefix) : a.scope = .ok a := if_pos ha

theorem scope_eq_ok_iff : a.scope = .ok q ↔ q.isPrefix ∧ q.segments = a.segments := by
  cases ha : a.isPrefix with
  | true =>
    rw [scope_of_isPrefix ha, Except.ok.injEq]
    constructor
    · rintro rfl
      exact ⟨ha, rfl⟩
    · rintro ⟨hq, hsegments⟩
      exact eq_of_segments hsegments.symm (ha.trans hq.symm)
  | false =>
    rw [scope, if_neg (by simp [ha]), parse_eq_ok_iff, text_concat_dot ha]
    constructor
    · intro htext
      exact (segments_of_text_eq_write a.wellFormed.ne_nil a.wellFormed.isSegment htext).symm
    · rintro ⟨hq, hsegments⟩
      rw [text, hq, hsegments]

theorem exists_scope_iff :
    (∃ q, a.scope = .ok q) ↔ a.isPrefix ∨ a.text.length < maxLength := by
  cases ha : a.isPrefix with
  | true => exact iff_of_true ⟨a, scope_of_isPrefix ha⟩ (.inl rfl)
  | false =>
    have hlength : (write a.segments true).length = a.text.length + 1 := by
      rw [← text_concat_dot ha, List.length_append, List.length_singleton]
    simp only [Bool.false_eq_true, false_or]
    constructor
    · rintro ⟨q, hq⟩
      obtain ⟨hscope, hsegments⟩ := scope_eq_ok_iff.1 hq
      have htext : q.text.length ≤ maxLength := q.wellFormed.text_length_le
      rw [text, hscope, hsegments, hlength] at htext
      exact htext
    · intro h
      obtain ⟨hne, hs, hcount, -⟩ := a.wellFormed
      exact ⟨⟨a.segments, true, hne, hs, hcount, hlength ▸ h⟩, scope_eq_ok_iff.2 ⟨rfl, rfl⟩⟩

theorem kind_of_scope {e : Error} (h : a.scope = .error e) : e.kind = .invalidAddress := by
  unfold scope at h
  split at h
  · cases h
  · obtain ⟨fault, rfl⟩ := fault_of_parse h
    rfl

/-- Apart from itself, the prefix covers what has its segments and more. -/
theorem covers_iff_of_scope (hq : a.scope = .ok q) (hb : b ≠ q) :
    q.covers b ↔ a.segments.length < b.segments.length ∧ a.segments <+: b.segments := by
  obtain ⟨hscope, hsegments⟩ := scope_eq_ok_iff.1 hq
  rw [covers_iff, hsegments]
  constructor
  · exact fun h => h.elim (fun h => absurd h.symm hb) (·.2)
  · exact fun h => .inr ⟨hscope, h⟩

/-- One segment below an address succeeds just when the address is a prefix, the segment is
good and both limits of the grammar leave room; it gives a leaf with the segment behind those of
the prefix, and the prefix covers it. Every leaf of two segments or more comes from one prefix and
one segment. The prefix with the segments of an address is the address itself when it is a
prefix; for a leaf it is there just when one more byte has room. It covers, besides itself, the
addresses that have the segments and more, so never the leaf. What is refused is an invalid
address. Covering is the same when it is compared check by check. -/
theorem children_and_scopes :
    (∀ p s, (∃ r, child p s = .ok r) ↔ p.isPrefix ∧ isSegment s ∧
      p.text.length + s.length ≤ 1023 ∧ p.segments.length ≤ 63) ∧
    (∀ p s e, child p s = .error e → e.kind = .invalidAddress) ∧
    (∀ p s r, child p s = .ok r →
      r.isPrefix = false ∧ r.segments = p.segments ++ [s] ∧ p.covers r) ∧
    (∀ r : Address, r.isPrefix = false → 2 ≤ r.segments.length →
      ∃! ps : Address × Bytes, ps.1.child ps.2 = .ok r) ∧
    (∀ a : Address, a.isPrefix → a.scope = .ok a) ∧
    (∀ a : Address, a.isPrefix = false → ((∃ q, a.scope = .ok q) ↔ a.text.length ≤ 1022)) ∧
    (∀ a e, scope a = .error e → e.kind = .invalidAddress) ∧
    (∀ a q, scope a = .ok q → q.isPrefix ∧ q.segments = a.segments ∧ q.scope = .ok q ∧
      (a.isPrefix = false → q.covers a = false) ∧
      ∀ b, b ≠ q →
        (q.covers b ↔ a.segments.length < b.segments.length ∧ a.segments <+: b.segments)) ∧
    ∀ a b : Address, a.reading.covers b.reading = a.covers b := by
  refine ⟨fun p s => ?_, fun p s e => kind_of_child, fun p s r hr => ?_,
    fun r => existsUnique_parent, fun a => scope_of_isPrefix, fun a ha => ?_,
    fun a e => kind_of_scope, fun a q hq => ?_, covers_reading⟩
  · rw [exists_child_iff, maxSegments, Nat.lt_succ_iff]
    rfl
  · obtain ⟨-, hleaf, hsegments⟩ := child_eq_ok_iff.1 hr
    exact ⟨hleaf, hsegments, covers_of_child hr⟩
  · rw [exists_scope_iff, ha, maxLength, Nat.lt_succ_iff]
    simp
  · obtain ⟨hscope, hsegments⟩ := scope_eq_ok_iff.1 hq
    refine ⟨hscope, hsegments, scope_of_isPrefix hscope, fun ha => ?_,
      fun b hb => covers_iff_of_scope hq hb⟩
    have hne : a ≠ q := by
      rintro rfl
      rw [ha] at hscope
      cases hscope
    rw [← Bool.not_eq_true, covers_iff_of_scope hq hne]
    exact fun h => Nat.lt_irrefl _ h.1

end Interledger.Address
