import Interledger.Proofs.Address.Grammar
import Mathlib.Order.Preorder.Chain
import Mathlib.Order.Defs.Unbundled

/-! Covering seen in the texts. Addresses are compared by their segments, so that no segment is
mistaken for a longer one that it begins. As a prefix ends in a dot, its text does the same: a
prefix covers what its text begins. Covering is therefore an order, and what covers one address is
in a row. -/

namespace Interledger

namespace Bytes

variable {sep : UInt8} {ps qs : List Bytes}

theorem join_append (hps : ps ≠ []) (hqs : qs ≠ []) :
    join sep (ps ++ qs) = join sep ps ++ sep :: join sep qs := by
  induction ps with
  | nil => exact absurd rfl hps
  | cons p ps ih =>
    cases ps with
    | nil =>
      obtain ⟨q, qs, rfl⟩ := List.exists_cons_of_ne_nil hqs
      rfl
    | cons r ps =>
      rw [List.cons_append, List.cons_append, join, ← List.cons_append, ih (List.cons_ne_nil r ps),
        join, List.append_assoc, List.cons_append]

/-- Parts with a separator behind them are cut off one by one. -/
theorem split_join_append (hps : ps ≠ []) (h : ∀ p ∈ ps, sep ∉ p) (s : Bytes) :
    split sep (join sep ps ++ sep :: s) = ps ++ split sep s := by
  induction ps with
  | nil => exact absurd rfl hps
  | cons p ps ih =>
    have hp := h p (by simp)
    cases ps with
    | nil => exact split_append hp s
    | cons q ps =>
      rw [join, List.append_assoc, List.cons_append, split_append hp,
        ih (List.cons_ne_nil q ps) fun r hr => h r (List.mem_cons_of_mem p hr)]
      rfl

end Bytes

namespace Address

variable {a b c : Address}

/-! ### Covering and texts -/

theorem text_of_isPrefix (ha : a.isPrefix) : a.text = Bytes.join dot a.segments ++ [dot] := by
  rw [text, write, if_pos ha]

theorem body_append (u : Bytes) {w : Bytes} (hw : w ≠ []) : body (u ++ w) = u ++ body w := by
  unfold body
  rw [List.getLast?_append_of_ne_nil u hw]
  split
  · exact List.dropLast_append_of_ne_nil hw
  · rfl

/-- What has all segments of a prefix and more begins with the text of the prefix. -/
theorem text_prefix_of_segments (ha : a.isPrefix) (hlt : a.segments.length < b.segments.length)
    (hpre : a.segments <+: b.segments) : a.text <+: b.text := by
  obtain ⟨rest, hrest⟩ := hpre
  have hne : rest ≠ [] := by
    rintro rfl
    rw [← hrest, List.append_nil] at hlt
    exact Nat.lt_irrefl _ hlt
  rw [text_of_isPrefix ha, text, write, ← hrest, Bytes.join_append a.wellFormed.ne_nil hne]
  exact ⟨_, by rw [List.append_assoc, List.append_assoc, List.singleton_append, List.cons_append]⟩

/-- What begins with the text of a prefix is the prefix, or has its segments and more. -/
theorem segments_of_begins (ha : a.isPrefix) (hpre : a.text <+: b.text) :
    a = b ∨ a.segments.length < b.segments.length ∧ a.segments <+: b.segments := by
  obtain ⟨w, hw⟩ := hpre
  by_cases hnil : w = []
  · rw [hnil, List.append_nil] at hw
    exact .inl (text_injective hw)
  · right
    have hbody : body b.text = Bytes.join dot a.segments ++ dot :: body w := by
      rw [← hw, body_append _ hnil, text_of_isPrefix ha, List.append_assoc, List.singleton_append]
    have hsegments : b.segments = a.segments ++ Bytes.split dot (body w) := by
      rw [← split_body_text, hbody]
      exact Bytes.split_join_append a.wellFormed.ne_nil
        (fun s hs => dot_notMem (a.wellFormed.isSegment s hs)) _
    have hpos := List.length_pos_of_ne_nil (Bytes.split_ne_nil dot (body w))
    rw [hsegments, List.length_append]
    exact ⟨by omega, List.prefix_append _ _⟩

/-- An address covers another one when the texts are the same, or when its text ends in a dot
and the other one begins with it. -/
theorem covers_iff_text : a.covers b ↔
    a.text = b.text ∨ a.text.getLast? = some dot ∧ a.text <+: b.text := by
  rw [covers_iff, ← isPrefix_iff]
  constructor
  · rintro (rfl | ⟨hp, hlt, hpre⟩)
    · exact .inl rfl
    · exact .inr ⟨hp, text_prefix_of_segments hp hlt hpre⟩
  · rintro (htext | ⟨hp, hpre⟩)
    · exact .inl (text_injective htext)
    · exact (segments_of_begins hp hpre).imp_right fun h => ⟨hp, h⟩

/-! ### Covering as an order -/

theorem covers_refl (a : Address) : a.covers a := covers_iff.2 (.inl rfl)

theorem covers_antisymm (hab : a.covers b) (hba : b.covers a) : a = b := by
  rcases covers_iff.1 hab with h | ⟨-, hlt, -⟩
  · exact h
  · rcases covers_iff.1 hba with h | ⟨-, hlt', -⟩
    · exact h.symm
    · exact absurd hlt (Nat.lt_asymm hlt')

/-- Of two addresses that cover a third one, one covers the other. -/
theorem covers_total_of_covers (hac : a.covers c) (hbc : b.covers c) :
    a.covers b ∨ b.covers a := by
  have hbegins : ∀ {x : Address}, x.covers c → x.text <+: c.text := by
    intro x hx
    rcases covers_iff_text.1 hx with h | ⟨-, h⟩
    · exact h ▸ List.prefix_rfl
    · exact h
  rcases covers_iff.1 hac with rfl | ⟨ha, -⟩
  · exact .inr hbc
  rcases covers_iff.1 hbc with rfl | ⟨hb, -⟩
  · exact .inl hac
  -- Both texts begin a third one, so that the longer one begins with the shorter one.
  · rw [isPrefix_iff] at ha hb
    exact (List.prefix_or_prefix_of_prefix (hbegins hac) (hbegins hbc)).imp
      (fun h => covers_iff_text.2 (.inr ⟨ha, h⟩)) fun h => covers_iff_text.2 (.inr ⟨hb, h⟩)

/-! ### The comparison by cases -/

theorem all_getElem?_iff {ss ts : List Bytes} :
    ((List.range ss.length).all fun i => ss[i]? = ts[i]?) ↔ ss <+: ts := by
  rw [List.prefix_iff_getElem?, List.all_eq_true]
  constructor
  · intro h i hi
    have heq := h i (List.mem_range.2 hi)
    rw [decide_eq_true_iff, List.getElem?_eq_getElem hi] at heq
    exact heq.symm
  · intro h i hi
    have hi := List.mem_range.1 hi
    rw [decide_eq_true_iff, List.getElem?_eq_getElem hi, h i hi]

/-- The comparison that goes by flags and numbers of segments first comes to the same. -/
theorem covers_reading (a b : Address) : a.reading.covers b.reading = a.covers b := by
  have hcovers : a.reading.covers b.reading =
      if a.text = b.text then true
      else if a.isPrefix = false then false
      else if b.segments.length < a.segments.length then false
      else if a.segments.length = b.segments.length && !b.isPrefix then false
      else (List.range a.segments.length).all fun i => a.segments[i]? = b.segments[i]? := rfl
  rw [hcovers, Bool.eq_iff_iff, covers_iff]
  by_cases htext : a.text = b.text
  · rw [if_pos htext]
    exact iff_of_true rfl (.inl (text_injective htext))
  have hne : a ≠ b := fun h => htext (congrArg text h)
  cases ha : a.isPrefix with
  | false => simp [htext, hne]
  | true =>
  rw [if_neg htext, if_neg Bool.noConfusion]
  by_cases hlt : b.segments.length < a.segments.length
  · rw [if_pos hlt]
    exact iff_of_false nofun fun h => h.elim hne fun h => by omega
  rw [if_neg hlt]
  by_cases hsame : a.segments.length = b.segments.length ∧ b.isPrefix = false
  · rw [if_pos (by simpa using hsame)]
    exact iff_of_false nofun fun h => h.elim hne fun h => by omega
  rw [if_neg (by simpa using hsame), all_getElem?_iff]
  constructor
  · intro hpre
    -- With as many segments, and a dot behind them as well, the addresses would be the same.
    refine .inr ⟨rfl, Nat.lt_of_le_of_ne hpre.length_le fun hlength => htext ?_, hpre⟩
    have hb : b.isPrefix := by simpa [hlength] using hsame
    rw [text_of_isPrefix ha, text_of_isPrefix hb, hpre.eq_of_length hlength]
  · exact fun h => h.elim (fun h => absurd h hne) fun h => h.2.2

/-- An address covers another one just when their texts are the same, or when its own text ends
in a dot and the other one begins with it. So covering is a partial order in which a leaf covers
only itself and the addresses that cover a given one are a chain. The comparison that goes by
flags and numbers of segments first, of what the loop has read, comes to the same. -/
theorem covering_is_text_order :
    (∀ a b : Address, a.covers b ↔
      a.text = b.text ∨ a.text.getLast? = some dot ∧ a.text <+: b.text) ∧
    (∀ v w a b, scan v = .ok a → scan w = .ok b →
      (a.covers b ↔ v = w ∨ v.getLast? = some dot ∧ v <+: w)) ∧
    IsPartialOrder Address (fun a b => a.covers b) ∧
    (∀ a b : Address, a.isPrefix = false → (a.covers b ↔ a = b)) ∧
    ∀ c : Address, IsChain (fun a b => a.covers b) {a : Address | a.covers c} := by
  refine ⟨fun _ _ => covers_iff_text, fun v w a b ha hb => ?_, ?_, fun a b ha => ?_,
    fun c a ha b hb _ => covers_total_of_covers ha hb⟩
  · obtain ⟨a, rfl, rfl⟩ := exists_of_scan ha
    obtain ⟨b, rfl, rfl⟩ := exists_of_scan hb
    rw [covers_reading]
    exact covers_iff_text
  · exact {
      refl := covers_refl
      trans := fun _ _ _ => covers_trans
      antisymm := fun _ _ => covers_antisymm }
  · exact ⟨eq_of_covers ha, fun h => h ▸ covers_refl a⟩

end Address

end Interledger
