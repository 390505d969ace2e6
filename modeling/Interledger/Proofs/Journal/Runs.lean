import Interledger.Escrow.Histories
import Interledger.Proofs.Journal
import Mathlib.Data.List.DropRight

/-! Runs of a journal. The history of an id is what was appended about it since it was last erased,
in order, and replaying follows its legal part. An id has its history to itself. The journal with
the histories apart agrees, and walking over one of them by place comes to the same state. -/

namespace Interledger

namespace Journal

/-! ### Steps -/

inductive Step where
  | append (e : JournalEntry)
  | erase (id : Bytes)
  deriving DecidableEq

namespace Step

/-- The id that a step is about. -/
def id : Step → Bytes
  | append e => e.id
  | erase id => id

def perform (j : Journal) : Step → Journal
  | append e => j.append e
  | erase id => j.erase id

/-- What a step writes about an id. -/
def writes? (id : Bytes) : Step → Option JournalEntry
  | append e => if e.id = id then some e else none
  | erase _ => none

theorem writes?_of_ne {s : Step} {id : Bytes} (h : s.id ≠ id) : s.writes? id = none := by
  cases s with
  | append e => exact if_neg h
  | erase id' => rfl

end Step

theorem history_perform (j : Journal) (s : Step) (id : Bytes) : (s.perform j).history id =
    if s = .erase id then [] else j.history id ++ [s].filterMap (·.writes? id) := by
  cases s with
  | append e =>
    have hne : Step.append e ≠ .erase id := nofun
    rw [if_neg hne, Step.perform, history_append]
    by_cases hid : e.id = id
    · simp [Step.writes?, hid]
    · simp [Step.writes?, hid]
  | erase id' =>
    rw [Step.perform, history_erase]
    by_cases hid : id = id'
    · rw [if_pos hid, if_pos (congrArg Step.erase hid.symm)]
    · have hne : Step.erase id' ≠ .erase id := fun heq => hid (Step.erase.inj heq).symm
      rw [if_neg hid, if_neg hne]
      exact (List.append_nil _).symm

/-! ### Runs -/

/-- A run from an empty journal. -/
def run (steps : List Step) : Journal := steps.foldl Step.perform empty

@[simp] theorem run_concat (steps : List Step) (s : Step) :
    run (steps ++ [s]) = s.perform (run steps) := by
  simp [run]

/-- The steps since an id was last erased. -/
def sinceErased (id : Bytes) (steps : List Step) : List Step := steps.rtakeWhile (· ≠ .erase id)

variable {steps more : List Step} {id : Bytes}

theorem history_run (steps : List Step) (id : Bytes) :
    (run steps).history id = (sinceErased id steps).filterMap (·.writes? id) := by
  induction steps using List.reverseRecOn with
  | nil => rfl
  | append_singleton steps s ih =>
    rw [run_concat, history_perform, sinceErased, List.rtakeWhile_concat, ih]
    by_cases h : s = .erase id
    · simp [h]
    · rw [if_neg h, if_pos (decide_eq_true h), List.filterMap_append, sinceErased]

/-- Without an erasure, a history goes on with what the steps write. -/
theorem history_run_append (h : .erase id ∉ more) : (run (steps ++ more)).history id =
    (run steps).history id ++ more.filterMap (·.writes? id) := by
  induction more using List.reverseRecOn with
  | nil => simp
  | append_singleton more s ih =>
    rw [List.mem_append, not_or, List.mem_singleton, eq_comm] at h
    rw [← List.append_assoc, run_concat, history_perform, if_neg h.2, ih h.1, List.append_assoc,
      List.filterMap_append]

theorem history_run_of_forall_ne (h : ∀ s ∈ more, s.id ≠ id) :
    (run (steps ++ more)).history id = (run steps).history id := by
  have herase : .erase id ∉ more := fun hmem => h _ hmem rfl
  have hentries : more.filterMap (·.writes? id) = [] :=
    List.filterMap_eq_nil_iff.2 fun s hs => Step.writes?_of_ne (h s hs)
  rw [history_run_append herase, hentries, List.append_nil]

/-- An id has a history once something was appended about it, until it is erased. -/
theorem history_run_eq_nil_iff : (run steps).history id = [] ↔
    ∀ e, .append e ∈ sinceErased id steps → e.id ≠ id := by
  rw [history_run, List.filterMap_eq_nil_iff]
  constructor
  · rintro h e he rfl
    exact Option.some_ne_none _ ((if_pos rfl).symm.trans (h _ he))
  · intro h s hs
    cases s with
    | append e => exact if_neg (h e hs)
    | erase id' => rfl

end Journal

/-! ### Histories apart -/

namespace Histories

open Journal (Step)

/-- Going on at a place is following what stands from there on. -/
theorem walk_eq (es : List JournalEntry) (s : TransferState) (i : Nat) :
    walk (es.map (·.line)) s i = Journal.follow s (es.drop i) := by
  fun_induction walk (es.map (·.line)) s i with
  | case1 s i h next ha ih =>
    have hi : i < es.length := by simpa using h
    have hnext : next = es[i].state := congrArg JournalLine.state (List.getElem_map _)
    rw [ih, List.drop_eq_getElem_cons hi, Journal.follow, ← hnext, if_pos ha]
  | case2 s i h next ha =>
    have hi : i < es.length := by simpa using h
    have hnext : next = es[i].state := congrArg JournalLine.state (List.getElem_map _)
    rw [List.drop_eq_getElem_cons hi, Journal.follow, ← hnext, if_neg ha]
  | case3 s i h =>
    rw [List.length_map, Nat.not_lt] at h
    rw [List.drop_of_length_le h, Journal.follow]

/-- A history of its own for every id, the same as in the journal. -/
def Agrees (hs : Histories) (j : Journal) : Prop :=
  ∀ id, hs.history id = (j.history id).map (·.line)

theorem history_eq (hs : Histories) (id : Bytes) : hs.history id = (hs.lines.get? id).getD [] := by
  unfold history
  cases hs.lines.get? id with
  | none => rfl
  | some ls => rfl

def perform (hs : Histories) : Step → Histories
  | .append e => hs.append e.id e.line
  | .erase id => hs.erase id

/-- A run from no histories. -/
def run (steps : List Step) : Histories := steps.foldl perform empty

namespace Agrees

variable {hs : Histories} {j : Journal} (h : hs.Agrees j)
include h

theorem perform (s : Step) : (hs.perform s).Agrees (s.perform j) := by
  intro id
  cases s with
  | append e =>
    rw [Histories.perform, Step.perform, Journal.history_append, history_eq, append, Table.get?_insert]
    by_cases hid : id = e.id
    · subst hid
      rw [if_pos rfl, if_pos rfl, Option.getD_some, ← history_eq, h, List.map_append,
        List.map_singleton]
    · rw [if_neg hid, if_neg (Ne.symm hid), ← history_eq, h]
  | erase id' =>
    rw [Histories.perform, Step.perform, Journal.history_erase, history_eq, erase, Table.get?_erase]
    by_cases hid : id = id'
    · rw [if_pos hid, if_pos hid]
      rfl
    · rw [if_neg hid, if_neg hid, ← history_eq, h]

theorem replay_eq (id : Bytes) : hs.replay id = j.replay id := by
  have hid := h id
  rw [history_eq] at hid
  rw [Journal.replay_eq, replay]
  generalize hs.lines.get? id = found at hid ⊢
  generalize j.history id = es at hid ⊢
  cases found with
  | none =>
    obtain rfl := List.map_eq_nil_iff.1 hid.symm
    rfl
  | some ls =>
    obtain rfl : ls = es.map (·.line) := hid
    cases es with
    | nil => rfl
    | cons e es => exact congrArg some (walk_eq (e :: es) e.state 1)

end Agrees

theorem agrees_run (steps : List Step) : (run steps).Agrees (Journal.run steps) := by
  induction steps using List.reverseRecOn with
  | nil => exact fun _ => rfl
  | append_singleton steps s ih =>
    rw [Journal.run_concat, run, List.foldl_concat]
    exact ih.perform s

end Histories

/-! ### Replaying -/

namespace Journal

/-- After any steps, the history of an id is what was appended about it since it was last erased.
Replaying gives nothing just when nothing was, and else the state of the last entry of the one
longest legal initial part of the history. A further entry behind others changes the outcome just
when it is a legal successor at the end of a legal history. Once the outcome is terminal, or the
history is not legal, it stays as it is until the id is erased; steps about other ids never change
it. The journal with the histories apart has the same histories and gives the same outcomes. -/
theorem replay_follows_legal_part (steps : List Step) (id : Bytes) :
    let j := run steps
    let es := j.history id
    es = (sinceErased id steps).filterMap (·.writes? id) ∧
    (j.replay id = none ↔ ∀ e, .append e ∈ sinceErased id steps → e.id ≠ id) ∧
    (∃! part, IsLegalPart part es) ∧
    (∀ part, IsLegalPart part es → j.replay id = part.getLast?.map (·.state)) ∧
    (∀ e, e.id = id → es ≠ [] → ((run (steps ++ [.append e])).replay id ≠ j.replay id ↔
      IsLegal es ∧ ∃ l, es.getLast? = some l ∧ l.state.allows e.state)) ∧
    (∀ more, .erase id ∉ more → (¬IsLegal es ∨ ∃ s, j.replay id = some s ∧ s.isTerminal) →
      (run (steps ++ more)).replay id = j.replay id) ∧
    (∀ more, (∀ s ∈ more, s.id ≠ id) → (run (steps ++ more)).history id = es ∧
      (run (steps ++ more)).replay id = j.replay id) ∧
    (Histories.run steps).history id = es.map (·.line) ∧
    (Histories.run steps).replay id = j.replay id := by
  intro j es
  have hj : j.replay id = reached es := replay_eq j id
  have hagrees : (Histories.run steps).Agrees j := Histories.agrees_run steps
  refine ⟨history_run steps id, ?_, existsUnique_isLegalPart es, fun part hpart => ?_,
    fun e he hes => ?_, fun more hmore hfinal => ?_, fun more hmore => ?_, hagrees id,
    hagrees.replay_eq id⟩
  · rw [hj, reached_eq_none_iff]
    exact history_run_eq_nil_iff
  · rw [hj, hpart.reached_eq]
  · have hnext : (run (steps ++ [.append e])).history id = es ++ [e] := by
      rw [run_concat, Step.perform, history_append, if_pos he]
    rw [hj, replay_eq, hnext]
    exact reached_concat_ne_iff hes
  · rw [hj] at hfinal ⊢
    rw [replay_eq, history_run_append hmore]
    exact (IsFinal.append hfinal _).2
  · have hsame : (run (steps ++ more)).history id = es := history_run_of_forall_ne hmore
    exact ⟨hsame, by rw [hj, replay_eq, hsame]⟩

/-- An entry that would be legal again behind one that is not is not followed. -/
example :
    let entry (s : TransferState) : Step := .append ⟨"t", s, 0, none⟩
    (run [entry .proposed, entry .executed, entry .prepared]).replay "t" = some .proposed := by
  decide

end Journal

end Interledger
