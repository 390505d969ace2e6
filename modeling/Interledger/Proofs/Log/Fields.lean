import Interledger.Log.Fields

/-! Log fields are read back. In quotes every quote but the last one is escaped, so a quoted value
ends where it was closed; out of quotes there is no blank, so a plain value ends where the next
field begins. A newline is escaped in quotes and does not occur out of them. -/

namespace Interledger

namespace Bytes

/-- Cutting before the first separator. -/
theorem cut_append {sep : UInt8} {p s : Bytes} (hp : sep ∉ p) (hs : s = [] ∨ s.head? = some sep) :
    (p ++ s).takeWhile (· ≠ sep) = p ∧ (p ++ s).dropWhile (· ≠ sep) = s := by
  have hkeep : ∀ b ∈ p, decide (b ≠ sep) = true := by
    intro b hb
    exact decide_eq_true fun h => hp (h ▸ hb)
  rw [List.takeWhile_append_of_pos hkeep, List.dropWhile_append_of_pos hkeep]
  rcases hs with rfl | hs
  · simp
  · obtain ⟨s, rfl⟩ := List.head?_eq_some_iff.1 hs
    simp

/-- Behind the first part, a separator stands before every part. -/
theorem join_cons (sep : UInt8) (p : Bytes) (ps : List Bytes) :
    join sep (p :: ps) = p ++ ps.flatMap (sep :: ·) := by
  induction ps generalizing p with
  | nil => simp [join]
  | cons q qs ih => rw [join, ih, List.flatMap_cons, List.cons_append]

end Bytes

namespace Log.Field

/-! ### Values -/

/-- Escapes are undone, up to the quote that no escape precedes. -/
theorem readQuoted_escape (value rest : Bytes) :
    readQuoted (value.flatMap escape ++ quote :: rest) = some (value, rest) := by
  induction value with
  | nil => exact readQuoted_quote rest
  | cons b value ih =>
    rw [List.flatMap_cons, List.append_assoc, escape]
    split
    next hescaped =>
      rw [List.cons_append, List.singleton_append, readQuoted_escaped (if_pos hescaped), ih]
      rfl
    next hescaped =>
    split
    next hnewline =>
      rw [List.cons_append, List.singleton_append, readQuoted_escaped (d := newline) rfl, ih, hnewline]
      rfl
    next hnewline =>
      rw [not_or] at hescaped
      rw [List.singleton_append, readQuoted_plain hescaped.1 hescaped.2, ih]
      rfl

/-- What needs no quotes has bytes, and none of those that force quotes. -/
theorem plain_of_needsQuotes {value : Bytes} (h : needsQuotes value = false) :
    value ≠ [] ∧ space ∉ value ∧ quote ∉ value ∧ newline ∉ value := by
  simp only [needsQuotes, Bool.or_eq_false_iff, decide_eq_false_iff_not, List.any_eq_false] at h
  refine ⟨h.1, fun hb => ?_, fun hb => ?_, fun hb => ?_⟩
  · exact h.2 space hb rfl
  · exact h.2 quote hb rfl
  · exact h.2 newline hb rfl

/-- A value is read back when nothing follows it, or a blank. -/
theorem readValue_writeValue (value : Bytes) {rest : Bytes}
    (hrest : rest = [] ∨ rest.head? = some space) :
    readValue (writeValue value ++ rest) = some (value, rest) := by
  unfold writeValue
  split
  next hquotes =>
    rw [List.append_assoc, List.singleton_append]
    exact readQuoted_escape value rest
  next hquotes =>
    obtain ⟨hne, hspace, hquote, -⟩ := plain_of_needsQuotes (by simpa using hquotes)
    obtain ⟨b, s, rfl⟩ := List.exists_cons_of_ne_nil hne
    have hhead : ((b :: s) ++ rest).head? ≠ some quote := by
      rintro h
      rw [List.cons_append, List.head?_cons, Option.some.injEq] at h
      exact hquote (h ▸ List.mem_cons_self)
    obtain ⟨htake, hdrop⟩ := Bytes.cut_append hspace hrest
    rw [readValue, if_neg hhead, htake, hdrop]

/-! ### Fields -/

theorem read_write {f : Field} (hkey : equals ∉ f.key) {rest : Bytes}
    (hrest : rest = [] ∨ rest.head? = some space) : read (f.write ++ rest) = some (f, rest) := by
  obtain ⟨htake, hdrop⟩ := Bytes.cut_append (s := equals :: (writeValue f.value ++ rest)) hkey (.inr rfl)
  rw [write, List.append_assoc, List.cons_append, read, hdrop, htake]
  dsimp only
  rw [readValue_writeValue f.value hrest]
  rfl

theorem readSome_writeAll {fields : List Field} (hne : fields ≠ [])
    (hkeys : ∀ f ∈ fields, equals ∉ f.key) : readSome (writeAll fields) = some fields := by
  induction fields with
  | nil => exact absurd rfl hne
  | cons f fs ih =>
    have hf := hkeys f (by simp)
    cases fs with
    | nil =>
      have hread := read_write hf (.inl rfl)
      rw [List.append_nil] at hread
      exact readSome_last hread
    | cons g gs =>
      have hread : read (writeAll (f :: g :: gs)) = some (f, space :: writeAll (g :: gs)) :=
        read_write hf (.inr rfl)
      rw [readSome_cons hread, ih (List.cons_ne_nil g gs) fun h hh => hkeys h (List.mem_cons_of_mem f hh)]
      rfl

theorem write_ne_nil (f : Field) : f.write ≠ [] := by
  rw [write]
  exact List.append_ne_nil_of_right_ne_nil _ (List.cons_ne_nil _ _)

theorem writeAll_eq_nil_iff {fields : List Field} : writeAll fields = [] ↔ fields = [] := by
  constructor
  · intro h
    cases fields with
    | nil => rfl
    | cons f fs =>
      cases fs with
      | nil => exact absurd h (write_ne_nil f)
      | cons g gs => exact absurd (List.append_eq_nil_iff.1 h).1 (write_ne_nil f)
  · rintro rfl
    rfl

theorem readAll_writeAll {fields : List Field} (hkeys : ∀ f ∈ fields, equals ∉ f.key) :
    readAll (writeAll fields) = some fields := by
  unfold readAll
  split
  next hnil => rw [writeAll_eq_nil_iff.1 hnil]
  next hne => exact readSome_writeAll (mt writeAll_eq_nil_iff.2 hne) hkeys

/-! ### Lines -/

theorem newline_notMem_escape (b : UInt8) : newline ∉ escape b := by
  unfold escape
  split
  next hescaped =>
    intro h
    rcases List.mem_cons.1 h with h | h
    · cases h
    · rw [← List.mem_singleton.1 h] at hescaped
      exact absurd hescaped (by decide)
  split
  · decide
  next hne => exact fun h => hne (List.mem_singleton.1 h).symm

theorem newline_notMem_writeValue (value : Bytes) : newline ∉ writeValue value := by
  unfold writeValue
  split
  next =>
    simp only [List.cons_append, List.mem_cons, List.mem_append, List.mem_flatMap, List.not_mem_nil,
      or_false]
    rintro (h | ⟨b, -, h⟩ | h)
    · cases h
    · exact newline_notMem_escape b h
    · cases h
  next hquotes => exact (plain_of_needsQuotes (by simpa using hquotes)).2.2.2

theorem newline_notMem_write {f : Field} (hkey : newline ∉ f.key) : newline ∉ f.write := by
  intro h
  rcases List.mem_append.1 h with h | h
  · exact hkey h
  · rcases List.mem_cons.1 h with h | h
    · cases h
    · exact newline_notMem_writeValue f.value h

theorem newline_notMem_writeAll {fields : List Field} (hkeys : ∀ f ∈ fields, newline ∉ f.key) :
    newline ∉ writeAll fields := by
  intro h
  rcases Bytes.mem_join h with h | ⟨s, hs, h⟩
  · cases h
  · obtain ⟨f, hf, rfl⟩ := List.mem_map.1 hs
    exact newline_notMem_write (hkeys f hf) h

/-! ### Adding field after field -/

theorem addTo_of_ne_nil {out : Bytes} (hout : out ≠ []) (f : Field) :
    addTo out f = out ++ space :: f.write := by
  simp [addTo, hout, write]

/-- The text is never empty again, so that a blank stands before every field but the first. -/
theorem foldl_addTo {out : Bytes} (hout : out ≠ []) (fields : List Field) :
    fields.foldl addTo out = out ++ fields.flatMap fun f => space :: f.write := by
  induction fields generalizing out with
  | nil => simp
  | cons f fs ih =>
    rw [List.foldl_cons, addTo_of_ne_nil hout, ih (by simp), List.flatMap_cons, List.append_assoc]

theorem foldl_addTo_nil (fields : List Field) : fields.foldl addTo [] = writeAll fields := by
  cases fields with
  | nil => rfl
  | cons f fs =>
    have hfirst : addTo [] f = f.write := List.append_assoc ..
    rw [List.foldl_cons, hfirst, foldl_addTo (write_ne_nil f), writeAll, List.map_cons,
      Bytes.join_cons, List.flatMap_map]

/-- Fields whose keys have no equals sign are read back from their text, so that no other fields
of this kind have the same text. When their keys have no newline either, the text is one line.
The text is what comes of adding the fields to an empty text one by one. -/
theorem fields_read_back {fields : List Field} (hkeys : ∀ f ∈ fields, equals ∉ f.key) :
    readAll (writeAll fields) = some fields ∧
    (∀ others : List Field, (∀ f ∈ others, equals ∉ f.key) →
      writeAll others = writeAll fields → others = fields) ∧
    ((∀ f ∈ fields, newline ∉ f.key) → newline ∉ writeAll fields) ∧
    fields.foldl addTo [] = writeAll fields := by
  refine ⟨readAll_writeAll hkeys, fun others hothers htext => ?_, newline_notMem_writeAll,
    foldl_addTo_nil fields⟩
  have hread := readAll_writeAll hothers
  rw [htext, readAll_writeAll hkeys] at hread
  exact (Option.some.inj hread).symm

/-- A backslash before an n and a newline, nothing at all, and a value that looks like fields. -/
def sampleFields : List Field := [
  ⟨"a", "\\n"⟩, ⟨"b", "\n"⟩, ⟨"c", ""⟩, ⟨"", "x=1 \"y\\"⟩]

theorem fields_read_back_escaped :
    (∀ f ∈ sampleFields, equals ∉ f.key) ∧ (∀ f ∈ sampleFields, newline ∉ f.key) ∧
    writeAll sampleFields = "a=\\n b=\"\\n\" c=\"\" =\"x=1 \\\"y\\\\\"" ∧
    readAll "a=\\n b=\"\\n\" c=\"\" =\"x=1 \\\"y\\\\\"" = some sampleFields ∧
    newline ∉ writeAll sampleFields := by
  have hkeys : ∀ f ∈ sampleFields, equals ∉ f.key := by decide
  have hlines : ∀ f ∈ sampleFields, newline ∉ f.key := by decide
  have htext : writeAll sampleFields = "a=\\n b=\"\\n\" c=\"\" =\"x=1 \\\"y\\\\\"" := by decide
  obtain ⟨hread, -, hline, -⟩ := fields_read_back hkeys
  exact ⟨hkeys, hlines, htext, htext ▸ hread, hline hlines⟩

end Log.Field

end Interledger
