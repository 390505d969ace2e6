import Interledger.Proofs.Book.Stores
import Mathlib.Data.Set.Card

/-! Pruning a book. What is stale fades to its last state and loses its history, and all else
stays. Pruning twice is pruning once at the later of the two cutoffs, and what is dropped is
dropped once. The walk over the records, in whatever order it meets them, comes to the same. -/

namespace Interledger

/-! ### Entries -/

namespace BookEntry

variable {e : BookEntry} {c d : Int}

theorem isStale_max : e.isStale (max c d) = (e.isStale c || e.isStale d) := by
  cases e with
  | live t s u =>
    simp only [isStale, lt_max_iff, Bool.decide_or, Bool.and_or_distrib_left]
  | settled s => rfl

theorem isStale_pruned : (e.pruned c).isStale d = (!e.isStale c && e.isStale d) := by
  unfold pruned
  cases h : e.isStale c with
  | true => rfl
  | false => simp

theorem pruned_pruned : (e.pruned c).pruned d = e.pruned (max c d) := by
  rw [pruned, isStale_pruned, pruned, pruned, isStale_max]
  cases e.isStale c <;> simp [state]

/-- What holds escrow is never stale. -/
theorem prepared?_pruned : (e.pruned c).prepared? = e.prepared? := by
  unfold pruned
  split
  next h =>
    cases e with
    | live t s u =>
      cases s with
      | prepared => cases h
      | _ => rfl
    | settled s => cases h
  · rfl

end BookEntry

namespace Book

/-- A transfer that has been in a terminal state since before a cutoff. -/
def IsStale (b : Book) (cutoff : Int) (id : Bytes) : Prop :=
  ∃ t s u, b.entries.get? id = some (.live t s u) ∧ s.isTerminal ∧ u < cutoff

variable {b : Book}

theorem mem_stale_iff_isStale (h : b.entries.keys.Nodup) {cutoff : Int} {id : Bytes} :
    id ∈ b.stale cutoff ↔ b.IsStale cutoff id := by
  rw [mem_stale_iff h]
  constructor
  · rintro ⟨e, he, hs⟩
    cases e with
    | live t s u => exact ⟨t, s, u, he, by simpa [BookEntry.isStale] using hs⟩
    | settled s => cases hs
  · rintro ⟨t, s, u, he, hs⟩
    exact ⟨_, he, by simpa [BookEntry.isStale] using hs⟩

theorem length_stale (h : b.entries.keys.Nodup) (cutoff : Int) :
    (b.stale cutoff).length = {id | b.IsStale cutoff id}.ncard := by
  have hnodup : (b.stale cutoff).Nodup := h.sublist (List.filter_sublist.map _)
  have hset : {id | b.IsStale cutoff id} = ((b.stale cutoff).toFinset : Set Bytes) := by
    ext id
    simp [mem_stale_iff_isStale h]
  rw [hset, Set.ncard_coe_finset, List.toFinset_card_of_nodup hnodup]

/-- What is not stale stays as it is. -/
theorem get?_prune_of_notMem (h : b.entries.keys.Nodup) {cutoff : Int} {id : Bytes}
    (hs : id ∉ b.stale cutoff) : (b.prune cutoff).entries.get? id = b.entries.get? id := by
  rw [get?_prune]
  cases he : b.entries.get? id with
  | none => rfl
  | some e =>
    have hfresh : ¬e.isStale cutoff := fun hstale => hs ((mem_stale_iff h).2 ⟨e, he, hstale⟩)
    rw [Option.map_some, BookEntry.pruned, if_neg hfresh]

theorem contains_prune (b : Book) (cutoff : Int) (id : Bytes) :
    (b.prune cutoff).contains id = b.contains id := by
  rw [contains_eq_isSome_stateOf?, stateOf?_prune, ← contains_eq_isSome_stateOf?]

theorem prepared_prune (b : Book) (cutoff : Int) : (b.prune cutoff).prepared = b.prepared := by
  rw [prepared, entries_prune, List.filterMap_map]
  exact List.filterMap_congr fun e _ => BookEntry.prepared?_pruned

/-! ### Pruning again -/

theorem stale_prune (b : Book) (c d : Int) : (b.prune c).stale d =
    (b.entries.entries.filter fun e => !e.2.isStale c && e.2.isStale d).map (·.1) := by
  rw [stale, entries_prune, List.filter_map, List.map_map]
  congr 1
  apply List.filter_congr
  intro e _
  exact BookEntry.isStale_pruned

/-- What is stale at the later of two cutoffs is stale at the first, or afterwards at the
second. -/
theorem stale_append_perm (b : Book) (c d : Int) :
    (b.stale c ++ (b.prune c).stale d).Perm (b.stale (max c d)) := by
  rw [stale_prune, stale, stale, ← List.map_append]
  apply List.Perm.map
  have hfirst : b.entries.entries.filter (·.2.isStale c) =
      (b.entries.entries.filter (·.2.isStale (max c d))).filter (·.2.isStale c) := by
    rw [List.filter_filter]
    apply List.filter_congr
    intro e _
    rw [BookEntry.isStale_max]
    cases e.2.isStale c <;> rfl
  have hsecond : b.entries.entries.filter (fun e => !e.2.isStale c && e.2.isStale d) =
      (b.entries.entries.filter (·.2.isStale (max c d))).filter (! ·.2.isStale c) := by
    rw [List.filter_filter]
    apply List.filter_congr
    intro e _
    rw [BookEntry.isStale_max]
    cases e.2.isStale c <;> rfl
  rw [hfirst, hsecond]
  exact List.filter_append_perm _ _

theorem prune_prune (b : Book) (c d : Int) : (b.prune c).prune d = b.prune (max c d) := by
  have hentries : ((b.prune c).prune d).entries = (b.prune (max c d)).entries := by
    rw [entries_prune, entries_prune, entries_prune, List.map_map]
    simp only [Function.comp_def, BookEntry.pruned_pruned]
  have hjournal : ((b.prune c).prune d).journal = (b.prune (max c d)).journal := by
    show (b.journal.eraseAll (b.stale c)).eraseAll ((b.prune c).stale d) =
      b.journal.eraseAll (b.stale (max c d))
    rw [Journal.eraseAll_eraseAll]
    exact Journal.eraseAll_congr _ fun id => (stale_append_perm b c d).mem_iff
  exact congrArg₂ mk hentries hjournal

theorem stale_prune_self (b : Book) (c : Int) : (b.prune c).stale c = [] := by
  rw [stale_prune, List.map_eq_nil_iff, List.filter_eq_nil_iff]
  simp

end Book

/-! ### The stores -/

/-- The walk takes out no record that holds escrow. -/
theorem Stores.prepared_prune (st : Stores) (cutoff : Int) :
    (st.prune cutoff).2.prepared = st.prepared := by
  rw [prune_eq, prepared, prepared, List.filter_filter]
  congr 1
  apply List.filter_congr
  rintro ⟨id, r⟩ -
  by_cases h : r.state = .prepared
  · simp [h, BookRecord.isStale, TransferState.isTerminal]
  · simp [h]

namespace Book

open Annals (run)

/-- In any book that a run comes to, pruning is about the transfers that have been in a terminal
state since before the cutoff, and its answer is their number. Each of them keeps its last state
and loses its history, and every other entry and history stays as it was; no state and no id is
forgotten, and what holds escrow stays. Pruning again at another cutoff leaves the book that
pruning once at the later of the two leaves, with as many dropped in all; at the same cutoff it
drops nothing. The walk over the stores of the book, with their records in any order, takes out as
many and leaves the stores of the pruned book. -/
theorem pruning_settles_stale (steps : List (Int × Step)) (cutoff : Int) :
    let b := (run steps).book
    let b' := b.prune cutoff
    (∀ now, (Step.prune cutoff).perform now b = (.ok (.count (b.stale cutoff).length), b')) ∧
    (b.stale cutoff).length = {id | b.IsStale cutoff id}.ncard ∧
    (∀ id t s u, b.entries.get? id = some (.live t s u) → s.isTerminal → u < cutoff →
      b'.entries.get? id = some (.settled s) ∧ b'.journal.history id = []) ∧
    (∀ id, ¬b.IsStale cutoff id → b'.entries.get? id = b.entries.get? id ∧
      b'.journal.history id = b.journal.history id) ∧
    (∀ id, b'.stateOf? id = b.stateOf? id ∧ b'.contains id = b.contains id) ∧
    b'.prepared = b.prepared ∧
    (∀ again, b'.prune again = b.prune (max cutoff again) ∧
      (b.stale cutoff).length + (b'.stale again).length = (b.stale (max cutoff again)).length) ∧
    b'.prune cutoff = b' ∧ (b'.stale cutoff).length = 0 ∧
    (Stores.run steps).Agrees b ∧
    ∀ st : Stores, st.Agrees b → (st.prune cutoff).1 = (b.stale cutoff).length ∧
      (st.prune cutoff).2.Agrees b' ∧
      (∀ id, (st.prune cutoff).2.stateOf? id = st.stateOf? id ∧
        (st.prune cutoff).2.contains id = st.contains id) ∧
      (st.prune cutoff).2.prepared = st.prepared := by
  intro b b'
  have hr : (run steps).Orderly := Annals.orderly_run steps
  have hnodup : b.entries.keys.Nodup := hr.nodup_keys
  have hhistory : ∀ id, b'.journal.history id =
      if id ∈ b.stale cutoff then [] else b.journal.history id := fun id => Journal.history_eraseAll ..
  have hstates : ∀ id, b'.stateOf? id = b.stateOf? id ∧ b'.contains id = b.contains id :=
    fun id => ⟨stateOf?_prune b cutoff id, contains_prune b cutoff id⟩
  refine ⟨fun now => rfl, length_stale hnodup cutoff, fun id t s u hg ht hu => ?_,
    fun id hs => ?_, hstates, prepared_prune b cutoff, fun again => ?_, ?_, ?_,
    Stores.agrees_run steps, fun st hst => ?_⟩
  · have hstale : id ∈ b.stale cutoff := (mem_stale_iff_isStale hnodup).2 ⟨t, s, u, hg, ht, hu⟩
    rw [hhistory, if_pos hstale, get?_prune, hg]
    simp [BookEntry.pruned, BookEntry.isStale, BookEntry.state, ht, hu]
  · have hstale : id ∉ b.stale cutoff := mt (mem_stale_iff_isStale hnodup).1 hs
    exact ⟨get?_prune_of_notMem hnodup hstale, (hhistory id).trans (if_neg hstale)⟩
  · have hcount := (stale_append_perm b cutoff again).length_eq
    rw [List.length_append] at hcount
    exact ⟨prune_prune b cutoff again, hcount⟩
  · rw [prune_prune, max_self]
  · rw [stale_prune_self, List.length_nil]
  · obtain ⟨hcount, hagrees⟩ := hst.prune cutoff
    refine ⟨hcount, hagrees, fun id => ?_, st.prepared_prune cutoff⟩
    rw [hagrees.stateOf?_eq, hst.stateOf?_eq, hagrees.contains_eq, hst.contains_eq]
    exact hstates id

end Book

end Interledger
