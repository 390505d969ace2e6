import Interledger.Escrow.Book
import Interledger.Proofs.Table

/-! The book seen through its look-ups. A proposal and a change of state both write one
entry, `put`; what they leave of every other id, of the states and of the journal follows
from that. Pruning forgets transfers and never a state. -/

namespace Interledger

/-- What pruning at `cutoff` leaves of an entry. -/
def BookEntry.pruned (cutoff : Int) (e : BookEntry) : BookEntry :=
  if e.isStale cutoff then .settled e.state else e

@[simp] theorem BookEntry.state_pruned (cutoff : Int) (e : BookEntry) :
    (e.pruned cutoff).state = e.state := by
  unfold pruned
  split <;> rfl

namespace Book

/-- The book once a transfer has come into a state. -/
def put (b : Book) (now : Int) (t : Transfer) (s : TransferState) (reason : Option Reason) : Book :=
  ⟨b.entries.insert t.id (.live t s now), b.journal.append ⟨t.id, s, now, reason⟩⟩

variable {b : Book} {now : Int} {t : Transfer} {s : TransferState} {reason : Option Reason}
  {id : Bytes}

theorem get?_put : (b.put now t s reason).entries.get? id =
    if id = t.id then some (.live t s now) else b.entries.get? id :=
  Table.get?_insert ..

@[simp] theorem get?_put_self : (b.put now t s reason).entries.get? t.id = some (.live t s now) := by
  simp [get?_put]

theorem stateOf?_of_get? {b' : Book} {u : Int} (h : ∀ id, b'.entries.get? id =
    if id = t.id then some (.live t s u) else b.entries.get? id) (id : Bytes) :
    b'.stateOf? id = if id = t.id then some s else b.stateOf? id := by
  simp only [stateOf?, h]
  split <;> rfl

theorem stateOf?_put : (b.put now t s reason).stateOf? id =
    if id = t.id then some s else b.stateOf? id :=
  stateOf?_of_get? (fun _ => get?_put) id

@[simp] theorem contains_put : (b.put now t s reason).contains id = (decide (id = t.id) || b.contains id) :=
  Table.contains_insert ..

@[simp] theorem journal_put : (b.put now t s reason).journal.entries =
    b.journal.entries ++ [⟨t.id, s, now, reason⟩] := rfl

theorem history_put (b : Book) (now : Int) (t : Transfer) (s : TransferState)
    (reason : Option Reason) (id : Bytes) : (b.put now t s reason).journal.history id =
      if t.id = id then b.journal.history id ++ [⟨t.id, s, now, reason⟩]
      else b.journal.history id :=
  Journal.history_append ..

theorem nodup_keys_put (h : b.entries.keys.Nodup) : (b.put now t s reason).entries.keys.Nodup :=
  Table.nodup_keys_insert h ..

theorem contains_iff_get? : b.contains id ↔ ∃ e, b.entries.get? id = some e :=
  Table.contains_iff_exists

theorem contains_eq_isSome_stateOf? : b.contains id = (b.stateOf? id).isSome := by
  simp [contains, stateOf?, Table.contains]

theorem find?_eq_some_iff : b.find? id = some t ↔ ∃ s u, b.entries.get? id = some (.live t s u) := by
  rw [find?, Option.bind_eq_some_iff]
  constructor
  · rintro ⟨e, he, ht⟩
    cases e with
    | live t' s u => cases ht; exact ⟨s, u, he⟩
    | settled s => cases ht
  · rintro ⟨s, u, h⟩
    exact ⟨_, h, rfl⟩

/-! ### Proposals and changes of state -/

theorem propose_eq : b.propose now t =
    if b.contains t.id then .error (.transferKnown t.id) else .ok (b.put now t .proposed none) := rfl

theorem transition?_eq_some {target : TransferState} {u : Int}
    (h : b.entries.get? t.id = some (.live t s u)) (ha : s.allows target) :
    b.transition? now t.id s target reason = some (b.put now t target reason) := by
  simp only [transition?, h, true_and]
  rw [if_pos ha]
  rfl

theorem transition?_eq_none {source target : TransferState}
    (h : ∀ t u, b.entries.get? id ≠ some (.live t source u)) :
    b.transition? now id source target reason = none := by
  unfold transition?
  split
  next t s u he =>
    rw [if_neg]
    rintro ⟨rfl, -⟩
    exact h t u he
  · rfl
  · rfl

/-! ### Pruning -/

theorem entries_prune (b : Book) (cutoff : Int) : (b.prune cutoff).entries =
    ⟨b.entries.entries.map fun e => (e.1, e.2.pruned cutoff)⟩ := by
  rw [prune, Table.mk.injEq]
  apply List.map_congr_left
  intro e _
  unfold BookEntry.pruned
  split <;> rfl

theorem get?_prune (b : Book) (cutoff : Int) (id : Bytes) :
    (b.prune cutoff).entries.get? id = (b.entries.get? id).map (·.pruned cutoff) := by
  rw [entries_prune]
  exact Table.get?_mapValues b.entries (·.pruned cutoff) id

@[simp] theorem keys_prune (b : Book) (cutoff : Int) :
    (b.prune cutoff).entries.keys = b.entries.keys := by
  rw [entries_prune]
  simp only [Table.keys, List.map_map, Function.comp_def]

@[simp] theorem stateOf?_prune (b : Book) (cutoff : Int) (id : Bytes) :
    (b.prune cutoff).stateOf? id = b.stateOf? id := by
  simp only [stateOf?, get?_prune, Option.map_map, Function.comp_def, BookEntry.state_pruned]

/-- A record that pruning leaves was there before. -/
theorem live_of_prune {cutoff u : Int}
    (h : (b.prune cutoff).entries.get? id = some (.live t s u)) :
    b.entries.get? id = some (.live t s u) := by
  rw [get?_prune, Option.map_eq_some_iff] at h
  obtain ⟨e, he, h⟩ := h
  unfold BookEntry.pruned at h
  split at h
  · cases h
  · rw [he, h]

/-- A settled id that pruning leaves was settled or terminal before. -/
theorem settled_of_prune {cutoff : Int}
    (h : (b.prune cutoff).entries.get? id = some (.settled s)) :
    b.entries.get? id = some (.settled s) ∨
      ∃ t u, b.entries.get? id = some (.live t s u) ∧ s.isTerminal := by
  rw [get?_prune, Option.map_eq_some_iff] at h
  obtain ⟨e, he, h⟩ := h
  unfold BookEntry.pruned at h
  split at h
  next hs =>
    cases h
    cases e with
    | live t s u =>
      simp only [BookEntry.isStale, Bool.and_eq_true] at hs
      exact .inr ⟨t, u, he, hs.1⟩
    | settled s => cases hs
  · exact .inl (he.trans (congrArg some h))

theorem mem_stale_iff (h : b.entries.keys.Nodup) {cutoff : Int} :
    id ∈ b.stale cutoff ↔ ∃ e, b.entries.get? id = some e ∧ e.isStale cutoff := by
  simp only [stale, List.mem_map, List.mem_filter, Prod.exists, exists_and_right, exists_eq_right,
    Table.get?_eq_some_iff h]

/-- Pruning forgets the stale transfers. -/
theorem find?_prune (h : b.entries.keys.Nodup) (cutoff : Int) (id : Bytes) :
    (b.prune cutoff).find? id = if id ∈ b.stale cutoff then none else b.find? id := by
  rw [find?, get?_prune, find?]
  cases he : b.entries.get? id with
  | none => exact (ite_self none).symm
  | some e =>
    have hs : id ∈ b.stale cutoff ↔ e.isStale cutoff := by
      rw [mem_stale_iff h, he]
      simp
    by_cases h : e.isStale cutoff
    · simp [hs, BookEntry.pruned, h, BookEntry.transfer?]
    · simp [hs, BookEntry.pruned, h]

end Book

end Interledger
