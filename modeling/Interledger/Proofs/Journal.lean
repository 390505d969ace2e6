import Interledger.Escrow.Journal
import Mathlib.Data.List.Chain
import Mathlib.Data.List.Induction

/-! What replaying a history comes to. The state is that of the last entry of the longest legal
initial part, so an entry counts just when the history is legal up to it and with it. One that is
not legal is never followed, nor is any entry behind it. -/

namespace Interledger

theorem TransferState.ne_of_allows {s t : TransferState} (h : s.allows t) : t ≠ s := by
  rintro rfl
  cases t with
  | proposed | prepared | executed | rejected | expired | other => cases h

namespace Journal

/-- The state of each entry allows that of the entry behind it. -/
def IsLegal (es : List JournalEntry) : Prop := es.IsChain fun e f => e.state.allows f.state

instance (es : List JournalEntry) : Decidable (IsLegal es) :=
  inferInstanceAs (Decidable (List.IsChain _ es))

/-- What replaying comes to on a history. -/
def reached : List JournalEntry → Option TransferState
  | [] => none
  | e :: es => some (follow e.state es)

variable {es : List JournalEntry} {e : JournalEntry}

theorem replay_eq (j : Journal) (id : Bytes) : j.replay id = reached (j.history id) := by
  unfold replay
  cases j.history id with
  | nil => rfl
  | cons e es => rfl

theorem reached_eq_none_iff : reached es = none ↔ es = [] := by
  cases es with
  | nil => exact iff_of_true rfl rfl
  | cons e es => exact iff_of_false nofun nofun

theorem isLegal_concat_iff :
    IsLegal (es ++ [e]) ↔ IsLegal es ∧ ∀ l ∈ es.getLast?, l.state.allows e.state := by
  simp [IsLegal, List.isChain_append]

/-! ### One more entry -/

/-- Following stops at the first state that is not allowed, so a further entry counts only when
there is none. -/
theorem follow_concat (d : JournalEntry) (es : List JournalEntry) (e : JournalEntry) :
    follow d.state (es ++ [e]) =
      if IsLegal (d :: (es ++ [e])) then e.state else follow d.state es := by
  -- From the front, as following goes; all that is below goes entry by entry from the end.
  induction es generalizing d with
  | nil => simp [follow, IsLegal]
  | cons f es ih =>
    have hlegal : IsLegal (d :: f :: (es ++ [e])) ↔
        d.state.allows f.state ∧ IsLegal (f :: (es ++ [e])) := List.isChain_cons_cons
    rw [List.cons_append, follow, follow, ih]
    by_cases h : d.state.allows f.state
    · simp [hlegal, h]
    · simp [hlegal, h]

/-- A further entry is the new outcome when the history is legal with it, and else the outcome
stays. -/
theorem reached_concat (es : List JournalEntry) (e : JournalEntry) :
    reached (es ++ [e]) = if IsLegal (es ++ [e]) then some e.state else reached es := by
  cases es with
  | nil => exact (if_pos (List.isChain_singleton e)).symm
  | cons d es =>
    rw [List.cons_append, reached, follow_concat, reached]
    split
    · rfl
    · rfl

/-- A legal history is replayed to its end. -/
theorem reached_of_isLegal (h : IsLegal es) : reached es = es.getLast?.map (·.state) := by
  cases es using List.reverseRecOn with
  | nil => rfl
  | append_singleton es e =>
    rw [reached_concat, if_pos h, List.getLast?_concat]
    rfl

/-! ### Legal initial parts -/

/-- The longest legal initial part of a history. -/
structure IsLegalPart (part es : List JournalEntry) : Prop where
  initial : part <+: es
  legal : IsLegal part
  longest : ∀ p, p <+: es → IsLegal p → p.length ≤ part.length

variable {part : List JournalEntry}

theorem isLegalPart_of_isLegal (h : IsLegal es) : IsLegalPart part es ↔ part = es := by
  constructor
  · intro hp
    exact hp.initial.eq_of_length_le (hp.longest es (List.prefix_refl es) h)
  · rintro rfl
    exact ⟨List.prefix_refl part, h, fun p hp _ => hp.length_le⟩

/-- An entry that is not legal leaves the legal part as it was. -/
theorem isLegalPart_concat (h : ¬IsLegal (es ++ [e])) :
    IsLegalPart part (es ++ [e]) ↔ IsLegalPart part es := by
  have hinitial : ∀ p, IsLegal p → (p <+: es ++ [e] ↔ p <+: es) := by
    intro p hp
    rw [List.prefix_concat_iff]
    refine or_iff_right ?_
    rintro rfl
    exact h hp
  constructor
  · intro hp
    exact ⟨(hinitial part hp.legal).1 hp.initial, hp.legal,
      fun p hpart hlegal => hp.longest p ((hinitial p hlegal).2 hpart) hlegal⟩
  · intro hp
    exact ⟨(hinitial part hp.legal).2 hp.initial, hp.legal,
      fun p hpart hlegal => hp.longest p ((hinitial p hlegal).1 hpart) hlegal⟩

theorem existsUnique_isLegalPart (es : List JournalEntry) : ∃! part, IsLegalPart part es := by
  induction es using List.reverseRecOn with
  | nil => exact (existsUnique_congr fun _ => isLegalPart_of_isLegal List.isChain_nil).2 existsUnique_eq
  | append_singleton es e ih =>
    by_cases h : IsLegal (es ++ [e])
    · exact (existsUnique_congr fun _ => isLegalPart_of_isLegal h).2 existsUnique_eq
    · exact (existsUnique_congr fun _ => isLegalPart_concat h).2 ih

/-- Replaying comes to the end of the legal part. -/
theorem IsLegalPart.reached_eq (hp : IsLegalPart part es) :
    reached es = part.getLast?.map (·.state) := by
  induction es using List.reverseRecOn with
  | nil =>
    obtain rfl := List.prefix_nil.1 hp.initial
    rfl
  | append_singleton es e ih =>
    by_cases h : IsLegal (es ++ [e])
    · obtain rfl := (isLegalPart_of_isLegal h).1 hp
      exact reached_of_isLegal h
    · rw [reached_concat, if_neg h]
      exact ih ((isLegalPart_concat h).1 hp)

/-! ### What further entries change -/

/-- A further entry changes the outcome just when it is a legal successor at the end of a legal
history. -/
theorem reached_concat_ne_iff (hes : es ≠ []) : reached (es ++ [e]) ≠ reached es ↔
    IsLegal es ∧ ∃ l, es.getLast? = some l ∧ l.state.allows e.state := by
  obtain ⟨l, hl⟩ : ∃ l, es.getLast? = some l := ⟨_, List.getLast?_eq_some_getLast hes⟩
  have hlegal : IsLegal (es ++ [e]) ↔
      IsLegal es ∧ ∃ l, es.getLast? = some l ∧ l.state.allows e.state := by
    rw [isLegal_concat_iff]
    simp [hl]
  rw [← hlegal, reached_concat]
  by_cases h : IsLegal (es ++ [e])
  · obtain ⟨hes, m, hm, ha⟩ := hlegal.1 h
    have hold : reached es = some m.state := by rw [reached_of_isLegal hes, hm, Option.map_some]
    rw [if_pos h, hold]
    exact iff_of_true (fun heq => TransferState.ne_of_allows ha (Option.some.inj heq)) h
  · rw [if_neg h]
    exact iff_of_false (fun hne => hne rfl) h

/-- A history that no entry can continue: it is not legal, or it has come to a terminal state. -/
def IsFinal (es : List JournalEntry) : Prop :=
  ¬IsLegal es ∨ ∃ s, reached es = some s ∧ s.isTerminal

theorem IsFinal.not_isLegal_concat (h : IsFinal es) (e : JournalEntry) : ¬IsLegal (es ++ [e]) := by
  rw [isLegal_concat_iff]
  rintro ⟨hes, hlast⟩
  rcases h with h | ⟨s, hs, ht⟩
  · exact h hes
  · obtain ⟨l, hl, rfl⟩ := Option.map_eq_some_iff.1 ((reached_of_isLegal hes).symm.trans hs)
    have ha := hlast l hl
    rw [TransferState.allows_of_isTerminal ht] at ha
    cases ha

/-- A final history stays final, and its outcome stays as it is. -/
theorem IsFinal.append (h : IsFinal es) (more : List JournalEntry) :
    IsFinal (es ++ more) ∧ reached (es ++ more) = reached es := by
  induction more using List.reverseRecOn with
  | nil =>
    rw [List.append_nil]
    exact ⟨h, rfl⟩
  | append_singleton more e ih =>
    obtain ⟨hfinal, hreached⟩ := ih
    have hillegal := hfinal.not_isLegal_concat e
    rw [← List.append_assoc, reached_concat, if_neg hillegal]
    exact ⟨.inl hillegal, hreached⟩

end Journal

end Interledger
