import Interledger.Address

/-! Address texts. A text is one of the grammar exactly when it is read as an address, and then
it is that address's text: reading and writing addresses are inverse to each other. Covering is
transitive, and a leaf covers only itself. -/

namespace Interledger.Address

/-- The texts of the grammar: segments with dots between them, and a final dot for a prefix. -/
def IsText (v : Bytes) : Prop :=
  ∃ segments isPrefix, WellFormed segments isPrefix ∧ write segments isPrefix = v

/-! ### Segments and dots -/

theorem isSegmentByte_of_mem {s : Bytes} (hs : isSegment s) {b : UInt8} (hb : b ∈ s) :
    isSegmentByte b := by
  simp only [isSegment, Bool.and_eq_true, List.all_eq_true] at hs
  exact hs.2 b hb

theorem ne_nil_of_isSegment {s : Bytes} (hs : isSegment s) : s ≠ [] := by
  simp only [isSegment, Bool.and_eq_true, decide_eq_true_eq] at hs
  exact hs.1

theorem dot_notMem {s : Bytes} (hs : isSegment s) : dot ∉ s :=
  fun hd => absurd (isSegmentByte_of_mem hs hd) (by decide)

/-- Segments with dots between them end in a byte of the last segment. -/
theorem exists_getLast?_join {ss : List Bytes} (hne : ss ≠ []) (hs : ∀ s ∈ ss, isSegment s) :
    ∃ b, (Bytes.join dot ss).getLast? = some b ∧ isSegmentByte b := by
  induction ss with
  | nil => exact absurd rfl hne
  | cons s ss ih =>
    cases ss with
    | nil =>
      have hs := hs s (by simp)
      rw [Bytes.join, List.getLast?_eq_some_getLast (ne_nil_of_isSegment hs)]
      exact ⟨_, rfl, isSegmentByte_of_mem hs (List.getLast_mem _)⟩
    | cons r rs =>
      obtain ⟨b, hb, hseg⟩ := ih (by simp) fun r hr => hs r (by simp [hr])
      refine ⟨b, ?_, hseg⟩
      rw [Bytes.join, List.getLast?_append, List.getLast?_cons, hb]
      rfl

variable {segments : List Bytes} {isPrefix : Bool}

/-- A text ends in a dot exactly when it is a prefix's. -/
theorem getLast?_write (hne : segments ≠ []) (hs : ∀ s ∈ segments, isSegment s) :
    (write segments isPrefix).getLast? = some dot ↔ isPrefix := by
  cases isPrefix with
  | true => simp [write]
  | false =>
    obtain ⟨b, hb, hseg⟩ := exists_getLast?_join hne hs
    have hdot : b ≠ dot := fun h => absurd (h ▸ hseg) (by decide)
    simp [write, hb, hdot]

theorem write_ne_nil (hne : segments ≠ []) (hs : ∀ s ∈ segments, isSegment s) :
    write segments isPrefix ≠ [] := by
  obtain ⟨b, hb, -⟩ := exists_getLast?_join hne hs
  intro h
  rw [(List.append_eq_nil_iff.1 h).1] at hb
  cases hb

theorem body_write (hne : segments ≠ []) (hs : ∀ s ∈ segments, isSegment s) :
    body (write segments isPrefix) = Bytes.join dot segments := by
  unfold body
  cases isPrefix with
  | true =>
    rw [if_pos ((getLast?_write hne hs).2 rfl)]
    exact List.dropLast_concat
  | false =>
    rw [if_neg fun h => Bool.false_ne_true ((getLast?_write hne hs).1 h)]
    exact List.append_nil _

theorem fault?_eq_none {n : Nat} {ss : List Bytes} (hs : ∀ s ∈ ss, isSegment s)
    (hn : n + ss.length ≤ maxSegments) : fault? n ss = none := by
  induction ss generalizing n with
  | nil => rfl
  | cons s ss ih =>
    have hseg := hs s (by simp)
    simp only [List.length_cons] at hn
    rw [fault?, if_neg (ne_nil_of_isSegment hseg), if_neg (by simp [hseg]), if_neg (by omega)]
    exact ih (fun r hr => hs r (by simp [hr])) (by omega)

/-! ### Reading -/

theorem isPrefix_iff (a : Address) : a.isPrefix ↔ a.text.getLast? = some dot :=
  (getLast?_write a.wellFormed.ne_nil a.wellFormed.isSegment).symm

theorem split_body_text (a : Address) : (body a.text).split dot = a.segments := by
  have hs := a.wellFormed.isSegment
  rw [text, body_write a.wellFormed.ne_nil hs]
  exact Bytes.split_join a.wellFormed.ne_nil fun s h => dot_notMem (hs s h)

theorem text_injective {a b : Address} (h : a.text = b.text) : a = b := by
  have hsegments := split_body_text a
  have hprefix := isPrefix_iff a
  rw [h, split_body_text] at hsegments
  rw [h, ← isPrefix_iff, ← Bool.eq_iff_iff] at hprefix
  cases a
  cases b
  cases hsegments
  cases hprefix
  rfl

/-- A text has no bytes but dots and those of segments. -/
theorem mem_text {a : Address} {b : UInt8} (hb : b ∈ a.text) : b = dot ∨ isSegmentByte b := by
  rcases List.mem_append.1 hb with hb | hb
  · refine (Bytes.mem_join hb).imp_right fun ⟨s, hs, hb⟩ => ?_
    exact isSegmentByte_of_mem (a.wellFormed.isSegment s hs) hb
  · split at hb
    · exact .inl (List.mem_singleton.1 hb)
    · cases hb

/-- A text that is short enough and has good segments is read. -/
theorem exists_parse {v : Bytes} (hne : v ≠ []) (hlength : v.length ≤ maxLength)
    (hf : fault? 0 ((body v).split dot) = none) : ∃ a, parse v = .ok a := by
  unfold parse
  rw [dif_neg hne, dif_neg (Nat.not_lt.2 hlength)]
  split
  next fault hfault =>
    rw [hf] at hfault
    cases hfault
  · exact ⟨_, rfl⟩

theorem parse_text (a : Address) : parse a.text = .ok a := by
  obtain ⟨hne, hs, hcount, hlength⟩ := a.wellFormed
  have hf : fault? 0 ((body a.text).split dot) = none := by
    rw [split_body_text]
    exact fault?_eq_none hs (by omega)
  obtain ⟨b, hb⟩ : ∃ b, parse a.text = .ok b := exists_parse (write_ne_nil hne hs) hlength hf
  rw [hb, text_injective (text_of_parse hb)]

theorem parse_eq_ok_iff {v : Bytes} {a : Address} : parse v = .ok a ↔ a.text = v :=
  ⟨text_of_parse, fun h => h ▸ parse_text a⟩

theorem exists_parse_iff {v : Bytes} : (∃ a, parse v = .ok a) ↔ IsText v := by
  constructor
  · rintro ⟨a, ha⟩
    exact ⟨a.segments, a.isPrefix, a.wellFormed, text_of_parse ha⟩
  · rintro ⟨segments, isPrefix, hw, rfl⟩
    exact ⟨⟨segments, isPrefix, hw⟩, parse_text ⟨segments, isPrefix, hw⟩⟩

/-- What is refused is refused for a fault of the text. -/
theorem fault_of_parse {v : Bytes} {e : Error} (h : parse v = .error e) :
    ∃ fault, e = .badAddress v fault := by
  unfold parse at h
  split at h
  · cases h
    exact ⟨_, rfl⟩
  split at h
  · cases h
    exact ⟨_, rfl⟩
  split at h
  · cases h
    exact ⟨_, rfl⟩
  · cases h

/-! ### Covering -/

theorem covers_iff {a b : Address} : a.covers b ↔
    a = b ∨ a.isPrefix ∧ a.segments.length < b.segments.length ∧ a.segments <+: b.segments := by
  simp [covers, and_assoc]

/-- What covers a prefix covers all that is below it. -/
theorem covers_trans {a b c : Address} (hab : a.covers b) (hbc : b.covers c) : a.covers c := by
  rw [covers_iff] at hab hbc ⊢
  rcases hab with rfl | ⟨hp, hlt, hpre⟩
  · exact hbc
  · rcases hbc with rfl | ⟨-, hlt', hpre'⟩
    · exact .inr ⟨hp, hlt, hpre⟩
    · exact .inr ⟨hp, Nat.lt_trans hlt hlt', hpre.trans hpre'⟩

theorem eq_of_covers {a b : Address} (ha : a.isPrefix = false) (h : a.covers b) : a = b := by
  rcases covers_iff.1 h with h | ⟨hp, -⟩
  · exact h
  · rw [ha] at hp
    cases hp

end Interledger.Address
