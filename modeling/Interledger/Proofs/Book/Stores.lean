import Interledger.Escrow.Stores
import Interledger.Proofs.Book.Runs

/-! The three stores of a book agree with it. An id stands in the records while the book holds its
transfer, and in the settled states afterwards; the order of the records is open. Every operation
keeps this and gives what the same operation on the book gives. The walk that prunes meets every
record once, whatever it takes out on its way. -/

namespace Interledger

/-! ### Putting values where there are none -/

namespace Table

variable {κ α : Type} [DecidableEq κ]

theorem get?_emplace (t : Table κ α) (k j : κ) (a : α) :
    (t.emplace k a).get? j = (t.get? j).or (if k = j then some a else none) := by
  unfold emplace
  split
  next h =>
    obtain ⟨b, hb⟩ := contains_iff_exists.1 h
    by_cases hk : k = j
    · rw [← hk, hb, Option.some_or]
    · rw [if_neg hk, Option.or_none]
  next h =>
    have hnone : t.get? k = none := get?_eq_none_iff.2 (by simpa using h)
    rw [get?_insert]
    by_cases hk : j = k
    · rw [if_pos hk, if_pos hk.symm, hk, hnone, Option.none_or]
    · rw [if_neg hk, if_neg (Ne.symm hk), Option.or_none]

/-- Of several values for a key the first one stays. -/
theorem get?_foldl_emplace {β : Type} (f : β → α) (es : List (κ × β)) (t : Table κ α) (k : κ) :
    (es.foldl (fun t e => t.emplace e.1 (f e.2)) t).get? k =
      (t.get? k).or (((⟨es⟩ : Table κ β).get? k).map f) := by
  induction es generalizing t with
  | nil => exact (Option.or_none).symm
  | cons e es ih =>
    rw [List.foldl_cons, ih, get?_emplace, Option.or_assoc, get?_cons]
    by_cases hk : e.1 = k <;> simp [hk]

end Table

theorem Journal.eraseAll_nil (j : Journal) : j.eraseAll [] = j := by
  simp [eraseAll]

theorem Journal.eraseAll_eraseAll (j : Journal) (ids ids' : List Bytes) :
    (j.eraseAll ids).eraseAll ids' = j.eraseAll (ids ++ ids') := by
  rw [eraseAll, eraseAll, eraseAll, List.filter_filter]
  congr 1
  apply List.filter_congr
  intro e _
  simp only [List.mem_append, not_or, Bool.decide_and]
  exact Bool.and_comm _ _

theorem Journal.eraseAll_congr (j : Journal) {ids ids' : List Bytes} (h : ∀ id, id ∈ ids ↔ id ∈ ids') :
    j.eraseAll ids = j.eraseAll ids' := by
  simp only [eraseAll, h]

theorem BookRecord.isStale_iff {cutoff : Int} {r : BookRecord} :
    r.isStale cutoff ↔ r.state.isTerminal ∧ r.updatedAt < cutoff := by
  simp [isStale]

namespace Stores

/-! ### The walk -/

section
variable (cutoff : Int) (passed ahead : List (Bytes × BookRecord)) (id : Bytes) (r : BookRecord)
  (settled : Table Bytes TransferState) (j : Journal) (taken : Nat)

/-- A turn at a record that stands between those that were passed and those ahead. -/
theorem turn_cons :
    Walk.turn cutoff ⟨⟨⟨passed ++ (id, r) :: ahead⟩, settled, j⟩, passed.length, taken⟩ =
      if r.isStale cutoff then
        some ⟨⟨⟨passed ++ ahead⟩, settled.emplace id r.state, j.erase id⟩, passed.length, taken + 1⟩
      else some ⟨⟨⟨passed ++ (id, r) :: ahead⟩, settled, j⟩, passed.length + 1, taken⟩ := by
  have hstands : (passed ++ (id, r) :: ahead)[passed.length]? = some (id, r) := by simp
  have hout : (passed ++ (id, r) :: ahead).eraseIdx passed.length = passed ++ ahead := by
    rw [List.eraseIdx_append_of_length_le (Nat.le_refl _), Nat.sub_self, List.eraseIdx_cons_zero]
  rw [Walk.turn, hstands]
  dsimp only
  rw [hout]
  by_cases hstale : r.isStale cutoff
  · have hs := BookRecord.isStale_iff.1 hstale
    rw [if_pos hstale, if_neg]
    simpa using hs
  · have hs := mt BookRecord.isStale_iff.2 hstale
    rw [if_neg hstale, if_pos]
    simpa [Classical.or_iff_not_imp_left] using hs

theorem finish_of_turn {w w' : Walk} (h : w.turn cutoff = some w') :
    w.finish cutoff = w'.finish cutoff := by
  rw [Walk.finish]
  split
  next hnone => cases h.symm.trans hnone
  next hsome => rw [Option.some.inj (h.symm.trans hsome)]

theorem finish_of_end {w : Walk} (h : w.turn cutoff = none) : w.finish cutoff = w := by
  rw [Walk.finish]
  split
  · rfl
  next hsome => cases h.symm.trans hsome

/-- A walk to the end leaves the records that are not stale, in order. -/
theorem finish_eq :
    let stale := ahead.filter (·.2.isStale cutoff)
    let kept := passed ++ ahead.filter (! ·.2.isStale cutoff)
    Walk.finish cutoff ⟨⟨⟨passed ++ ahead⟩, settled, j⟩, passed.length, taken⟩ =
      ⟨⟨⟨kept⟩, stale.foldl (fun t e => t.emplace e.1 e.2.state) settled,
        j.eraseAll (stale.map (·.1))⟩, kept.length, taken + stale.length⟩ := by
  dsimp only
  induction ahead generalizing passed settled j taken with
  | nil =>
    have hend : Walk.turn cutoff ⟨⟨⟨passed ++ []⟩, settled, j⟩, passed.length, taken⟩ = none := by
      simp [Walk.turn]
    rw [finish_of_end cutoff hend]
    simp [Journal.eraseAll_nil]
  | cons e ahead ih =>
    obtain ⟨id, r⟩ := e
    have hturn := turn_cons cutoff passed ahead id r settled j taken
    by_cases hstale : r.isStale cutoff
    · rw [if_pos hstale] at hturn
      rw [finish_of_turn cutoff hturn, ih, Journal.erase, Journal.eraseAll_eraseAll]
      simp [hstale, Nat.add_assoc, Nat.add_comm 1]
    · rw [if_neg hstale] at hturn
      have hpassed : passed.length + 1 = (passed ++ [(id, r)]).length := by simp
      have hrecords : passed ++ (id, r) :: ahead = (passed ++ [(id, r)]) ++ ahead := by simp
      rw [finish_of_turn cutoff hturn, hpassed, hrecords, ih]
      simp [hstale]

end

/-- The ids of the records that are stale. -/
def stale (st : Stores) (cutoff : Int) : List Bytes :=
  (st.records.entries.filter (·.2.isStale cutoff)).map (·.1)

theorem prune_eq (st : Stores) (cutoff : Int) : st.prune cutoff =
    ((st.stale cutoff).length, ⟨⟨st.records.entries.filter (! ·.2.isStale cutoff)⟩,
      (st.records.entries.filter (·.2.isStale cutoff)).foldl
        (fun t e => t.emplace e.1 e.2.state) st.settled,
      st.journal.eraseAll (st.stale cutoff)⟩) := by
  have hfinish : Walk.finish cutoff ⟨st, 0, 0⟩ = _ :=
    finish_eq cutoff [] st.records.entries st.settled st.journal 0
  rw [prune, hfinish]
  simp [stale]

end Stores

/-! ### Agreement with the book -/

/-- The transfer of an entry with its state, while the book holds it. -/
def BookEntry.record? : BookEntry → Option BookRecord
  | live t s u => some ⟨t, s, u⟩
  | settled _ => none

def BookEntry.settled? : BookEntry → Option TransferState
  | live .. => none
  | settled s => some s

theorem BookEntry.record?_pruned (cutoff : Int) (e : BookEntry) :
    (e.pruned cutoff).record? = e.record?.filter (! ·.isStale cutoff) := by
  cases e with
  | live t s u =>
    have hstale : (live t s u).isStale cutoff = (BookRecord.mk t s u).isStale cutoff := rfl
    rw [pruned, hstale, record?, Option.filter_some]
    cases (BookRecord.mk t s u).isStale cutoff <;> rfl
  | settled s => rfl

theorem BookEntry.settled?_pruned (cutoff : Int) (e : BookEntry) : (e.pruned cutoff).settled? =
    e.settled?.or ((e.record?.filter (·.isStale cutoff)).map (·.state)) := by
  cases e with
  | live t s u =>
    have hstale : (live t s u).isStale cutoff = (BookRecord.mk t s u).isStale cutoff := rfl
    rw [pruned, hstale, record?, Option.filter_some]
    cases (BookRecord.mk t s u).isStale cutoff <;> rfl
  | settled s => rfl

namespace Stores

/-- The records and the settled states are those of the book, in whatever order. -/
structure Agrees (st : Stores) (b : Book) : Prop where
  records : ∀ id, st.records.get? id = (b.entries.get? id).bind (·.record?)
  settled : ∀ id, st.settled.get? id = (b.entries.get? id).bind (·.settled?)
  journal : st.journal = b.journal
  nodup_records : st.records.keys.Nodup
  nodup_entries : b.entries.keys.Nodup

theorem agrees_empty : empty.Agrees .empty :=
  ⟨fun _ => rfl, fun _ => rfl, rfl, List.nodup_nil, List.nodup_nil⟩

namespace Agrees

variable {st : Stores} {b : Book} (h : st.Agrees b)
include h

theorem contains_eq (id : Bytes) : st.contains id = b.contains id := by
  rw [Stores.contains, Table.contains, Table.contains, h.records, h.settled, Book.contains, Table.contains]
  cases b.entries.get? id with
  | none => rfl
  | some e => cases e <;> rfl

theorem stateOf?_eq (id : Bytes) : st.stateOf? id = b.stateOf? id := by
  rw [Stores.stateOf?, h.records, h.settled, Book.stateOf?]
  cases b.entries.get? id with
  | none => rfl
  | some e => cases e <;> rfl

/-- A record that is written to both. -/
theorem put (now : Int) (t : Transfer) (s : TransferState) (reason : Option Reason)
    (hn : st.settled.get? t.id = none) :
    Agrees ⟨st.records.insert t.id ⟨t, s, now⟩, st.settled, st.journal.append ⟨t.id, s, now, reason⟩⟩
      (b.put now t s reason) where
  records id := by
    rw [Table.get?_insert, Book.get?_put, h.records]
    split <;> rfl
  settled id := by
    rw [Book.get?_put]
    split
    next hid => rw [hid, hn]; rfl
    next => exact h.settled id
  journal := congrArg (Journal.append · _) h.journal
  nodup_records := Table.nodup_keys_insert h.nodup_records ..
  nodup_entries := Book.nodup_keys_put h.nodup_entries

/-- A proposal is refused by both, or leaves stores and a book that agree. -/
theorem propose (now : Int) (t : Transfer) :
    (∃ e, st.propose now t = .error e ∧ b.propose now t = .error e) ∨
    ∃ st' b', st.propose now t = .ok st' ∧ b.propose now t = .ok b' ∧ st'.Agrees b' := by
  rw [Stores.propose, Book.propose_eq, h.contains_eq]
  by_cases hc : b.contains t.id
  · exact .inl ⟨_, if_pos hc, if_pos hc⟩
  · refine .inr ⟨_, _, if_neg hc, if_neg hc, h.put now t .proposed none ?_⟩
    have hnone : b.entries.get? t.id = none := Table.get?_eq_none_iff.2 (Bool.eq_false_iff.2 hc)
    rw [h.settled, hnone]
    rfl

/-- A change of state is lost in both, or leaves stores and a book that agree. -/
theorem transition? (hid : ∀ id t s u, b.entries.get? id = some (.live t s u) → t.id = id)
    (now : Int) (id : Bytes) (source target : TransferState) (reason : Option Reason) :
    (st.transition? now id source target reason = none ∧
      b.transition? now id source target reason = none) ∨
    ∃ st' b', st.transition? now id source target reason = some st' ∧
      b.transition? now id source target reason = some b' ∧ st'.Agrees b' := by
  rw [Stores.transition?, Book.transition?, h.records]
  cases he : b.entries.get? id with
  | none => exact .inl ⟨rfl, rfl⟩
  | some e =>
    cases e with
    | settled s => exact .inl ⟨rfl, rfl⟩
    | live t s u =>
      obtain rfl := hid _ _ _ _ he
      simp only [Option.bind_some, BookEntry.record?]
      by_cases hs : s = source ∧ source.allows target
      · rw [if_pos hs, if_pos hs]
        refine .inr ⟨_, _, rfl, rfl, h.put now t target reason ?_⟩
        rw [h.settled, he]
        rfl
      · rw [if_neg hs, if_neg hs]
        exact .inl ⟨rfl, rfl⟩

theorem mem_stale_iff {cutoff : Int} {id : Bytes} :
    id ∈ st.stale cutoff ↔ id ∈ b.stale cutoff := by
  have hstores : id ∈ st.stale cutoff ↔ ∃ r, st.records.get? id = some r ∧ r.isStale cutoff := by
    simp only [stale, List.mem_map, List.mem_filter, Prod.exists, exists_and_right, exists_eq_right,
      Table.get?_eq_some_iff h.nodup_records]
  rw [hstores, Book.mem_stale_iff h.nodup_entries, h.records]
  cases b.entries.get? id with
  | none => simp
  | some e => cases e <;> simp [BookEntry.record?, BookRecord.isStale, BookEntry.isStale]

theorem stale_perm (cutoff : Int) : (st.stale cutoff).Perm (b.stale cutoff) := by
  have hrecords : (st.stale cutoff).Nodup := h.nodup_records.sublist (List.filter_sublist.map _)
  have hentries : (b.stale cutoff).Nodup := h.nodup_entries.sublist (List.filter_sublist.map _)
  exact (List.perm_ext_iff_of_nodup hrecords hentries).2 fun id => h.mem_stale_iff

/-- The walk takes out as many as the book drops, and leaves what the book leaves. -/
theorem prune (cutoff : Int) : (st.prune cutoff).1 = (b.stale cutoff).length ∧
    (st.prune cutoff).2.Agrees (b.prune cutoff) := by
  rw [prune_eq]
  refine ⟨(h.stale_perm cutoff).length_eq, fun id => ?_, fun id => ?_, ?_, ?_, ?_⟩
  · dsimp only
    rw [Table.get?_filter h.nodup_records fun r => !r.isStale cutoff, h.records, Book.get?_prune]
    cases b.entries.get? id with
    | none => rfl
    | some e => exact (e.record?_pruned cutoff).symm
  · dsimp only
    rw [Table.get?_foldl_emplace, Table.get?_filter h.nodup_records (·.isStale cutoff), h.records,
      h.settled, Book.get?_prune]
    cases b.entries.get? id with
    | none => rfl
    | some e => exact (e.settled?_pruned cutoff).symm
  · dsimp only
    rw [h.journal]
    exact Journal.eraseAll_congr _ fun id => h.mem_stale_iff
  · exact h.nodup_records.sublist (List.filter_sublist.map _)
  · rw [Book.keys_prune]
    exact h.nodup_entries

end Agrees

/-! ### Runs -/

/-- One step of the stores at a reading of the clock. -/
def perform (now : Int) (st : Stores) : Book.Step → Except Error Book.Answer × Stores
  | .propose t =>
    match st.propose now t with
    | .ok st => (.ok .done, st)
    | .error e => (.error e, st)
  | .transition id source target reason =>
    match st.transition? now id source target reason with
    | some st => (.ok (.truth true), st)
    | none => (.ok (.truth false), st)
  | .prune cutoff =>
    let (n, st) := st.prune cutoff
    (.ok (.count n), st)

/-- A run from empty stores: steps with the readings of the clock. -/
def run (steps : List (Int × Book.Step)) : Stores :=
  steps.foldl (fun st s => (st.perform s.1 s.2).2) empty

theorem Agrees.perform {st : Stores} {b : Book} (h : st.Agrees b)
    (hid : ∀ id t s u, b.entries.get? id = some (.live t s u) → t.id = id) (now : Int)
    (s : Book.Step) : (st.perform now s).1 = (s.perform now b).1 ∧
      (st.perform now s).2.Agrees (s.perform now b).2 := by
  cases s with
  | propose t =>
    simp only [Stores.perform, Book.Step.perform]
    rcases h.propose now t with ⟨e, hst, hb⟩ | ⟨st', b', hst, hb, h'⟩
    · rw [hst, hb]
      exact ⟨rfl, h⟩
    · rw [hst, hb]
      exact ⟨rfl, h'⟩
  | transition id source target reason =>
    simp only [Stores.perform, Book.Step.perform]
    rcases h.transition? hid now id source target reason with ⟨hst, hb⟩ | ⟨st', b', hst, hb, h'⟩
    · rw [hst, hb]
      exact ⟨rfl, h⟩
    · rw [hst, hb]
      exact ⟨rfl, h'⟩
  | prune cutoff =>
    obtain ⟨hcount, h'⟩ := h.prune cutoff
    exact ⟨congrArg (fun n => Except.ok (Book.Answer.count n)) hcount, h'⟩

theorem agrees_run (steps : List (Int × Book.Step)) :
    (run steps).Agrees (Book.Annals.run steps).book := by
  induction steps using List.reverseRecOn with
  | nil => exact agrees_empty
  | append_singleton steps s ih =>
    have horderly := Book.Annals.orderly_run steps
    rw [Book.Annals.run_concat, run, List.foldl_concat]
    exact (ih.perform (fun id t st u hg => (horderly.live id t st u hg).1) s.1 s.2).2

end Stores

end Interledger
