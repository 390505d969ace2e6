import Interledger.Proofs.Book
import Interledger.Proofs.Journal
import Interledger.Proofs.Sample
import Mathlib.Data.List.Induction
import Mathlib.Data.List.Nodup

/-! Runs of a book. A proposed id is known for ever and is taken once. While the book holds
its transfer, its history is one of the few paths from proposed to a terminal state, written
in the order of time, and replaying it gives its state; what is settled keeps a terminal
state and no history. A terminal state is reached once and never left. -/

namespace Interledger

/-! ### Paths -/

/-- The states that a transfer may go through in a book. -/
inductive TransferState.Path : List TransferState → Prop
  | proposed : Path [.proposed]
  | declined : Path [.proposed, .rejected]
  | prepared : Path [.proposed, .prepared]
  | ended {s : TransferState} (hs : s.isTerminal) : Path [.proposed, .prepared, s]

open TransferState (Path)

theorem TransferState.Path.append {ss : List TransferState} {s target : TransferState}
    (h : Path ss) (hs : ss.getLast? = some s) (ha : s.allows target) : Path (ss ++ [target]) := by
  cases h with
  | proposed =>
    cases hs
    rcases (by simpa [TransferState.allows] using ha : target = .prepared ∨ target = .rejected) with
      rfl | rfl
    · exact .prepared
    · exact .declined
  | declined =>
    cases hs
    cases ha
  | prepared =>
    cases hs
    exact .ended ha
  | @ended s' ht =>
    obtain rfl : s' = s := Option.some.inj hs
    rw [TransferState.allows_of_isTerminal ht] at ha
    cases ha

theorem TransferState.Path.isChain {ss : List TransferState} (h : Path ss) :
    ss.IsChain fun s t => s.allows t := by
  cases h with
  | proposed => exact .singleton _
  | declined | prepared => exact .cons_cons rfl (.singleton _)
  | ended hs => exact .cons_cons rfl (.cons_cons hs (.singleton _))

namespace Journal

/-- Replaying follows a path to its end. -/
theorem replay_of_path {j : Journal} {id : Bytes} (h : Path ((j.history id).map (·.state))) :
    j.replay id = ((j.history id).map (·.state)).getLast? := by
  have hlegal : IsLegal (j.history id) := (List.isChain_map _).1 h.isChain
  rw [replay_eq, reached_of_isLegal hlegal, List.getLast?_map]

theorem replay_of_history_eq_nil {j : Journal} {id : Bytes} (h : j.history id = []) :
    j.replay id = none := by
  rw [replay_eq, reached_eq_none_iff.2 h]

end Journal

namespace Book

/-! ### Steps -/

inductive Step where
  | propose (t : Transfer)
  | transition (id : Bytes) (source target : TransferState) (reason : Option Reason)
  | prune (cutoff : Int)

/-- What a step gives back. -/
inductive Answer where
  | done
  | truth (b : Bool)
  | count (n : Nat)

/-- One step at a reading of the clock. -/
def Step.perform (now : Int) (b : Book) : Step → Except Error Answer × Book
  | propose t =>
    match b.propose now t with
    | .ok b => (.ok .done, b)
    | .error e => (.error e, b)
  | transition id source target reason =>
    match b.transition? now id source target reason with
    | some b => (.ok (.truth true), b)
    | none => (.ok (.truth false), b)
  | prune cutoff => (.ok (.count (b.stale cutoff).length), b.prune cutoff)

/-- What a step can do, with what it gives back and the book that it leaves. -/
inductive Effect (b : Book) (now : Int) : Step → Except Error Answer → Book → Prop
  | refused {t : Transfer} (h : b.contains t.id) :
    Effect b now (.propose t) (.error (.transferKnown t.id)) b
  | proposed {t : Transfer} (h : b.contains t.id = false) :
    Effect b now (.propose t) (.ok .done) (b.put now t .proposed none)
  | lost {id : Bytes} {source target : TransferState} {reason : Option Reason} :
    Effect b now (.transition id source target reason) (.ok (.truth false)) b
  | moved {t : Transfer} {s target : TransferState} {u : Int} {reason : Option Reason}
      (hg : b.entries.get? t.id = some (.live t s u)) (ha : s.allows target) :
    Effect b now (.transition t.id s target reason) (.ok (.truth true)) (b.put now t target reason)
  | pruned {cutoff : Int} :
    Effect b now (.prune cutoff) (.ok (.count (b.stale cutoff).length)) (b.prune cutoff)

/-- The list of outcomes is complete when records stand under their own ids. -/
theorem perform_effect {b : Book}
    (hid : ∀ id t s u, b.entries.get? id = some (.live t s u) → t.id = id) (now : Int) (s : Step) :
    b.Effect now s (s.perform now b).1 (s.perform now b).2 := by
  cases s with
  | propose t =>
    simp only [Step.perform, propose_eq]
    by_cases h : b.contains t.id
    · rw [if_pos h]
      exact .refused h
    · rw [if_neg h]
      exact .proposed (by simpa using h)
  | transition id source target reason =>
    simp only [Step.perform]
    cases hm : b.transition? now id source target reason with
    | none => exact .lost
    | some b' =>
      unfold transition? at hm
      split at hm
      next t s u hg =>
        split at hm
        next h =>
          obtain ⟨rfl, ha⟩ := h
          obtain rfl := hid _ _ _ _ hg
          cases hm
          exact .moved hg ha
        · cases hm
      · cases hm
      · cases hm
  | prune cutoff => exact .pruned

/-! ### Runs -/

/-- A book with the ids that were proposed and the ids that came into a terminal state, each
in order. -/
structure Annals where
  book : Book
  proposed : List Bytes
  ended : List Bytes

namespace Annals

def start : Annals := ⟨.empty, [], []⟩

def proposal : Step → Except Error Answer → List Bytes
  | .propose t, .ok _ => [t.id]
  | _, _ => []

def ending : Step → Except Error Answer → List Bytes
  | .transition id _ target _, .ok (.truth true) => if target.isTerminal then [id] else []
  | _, _ => []

/-- The annals after a step that gave an answer and left a book. -/
def record (r : Annals) (s : Step) (answer : Except Error Answer) (b : Book) : Annals :=
  ⟨b, r.proposed ++ proposal s answer, r.ended ++ ending s answer⟩

def next (r : Annals) (now : Int) (s : Step) : Annals :=
  r.record s (s.perform now r.book).1 (s.perform now r.book).2

/-- A run from an empty book: steps with the readings of the clock. -/
def run (steps : List (Int × Step)) : Annals := steps.foldl (fun r s => r.next s.1 s.2) start

@[simp] theorem run_concat (steps : List (Int × Step)) (s : Int × Step) :
    run (steps ++ [s]) = (run steps).next s.1 s.2 := by
  simp [run]

/-- What holds of the ids of a run, of their states and of their histories. -/
structure Orderly (r : Annals) : Prop where
  keys : r.book.entries.keys = r.proposed
  nodup_proposed : r.proposed.Nodup
  live : ∀ id t s u, r.book.entries.get? id = some (.live t s u) → t.id = id ∧
    Path ((r.book.journal.history id).map (·.state)) ∧
    ((r.book.journal.history id).map (·.state)).getLast? = some s ∧
    ((r.book.journal.history id).map (·.time)).getLast? = some u
  silent : ∀ id, r.book.find? id = none → r.book.journal.history id = []
  settled : ∀ id s, r.book.entries.get? id = some (.settled s) → s.isTerminal
  nodup_ended : r.ended.Nodup
  ended : ∀ id ∈ r.ended, ∃ st, r.book.stateOf? id = some st ∧ st.isTerminal

end Annals

/-! ### The two parts of a book -/

/-- The ids whose transfers the book holds. -/
def liveIds (b : Book) : List Bytes :=
  (b.entries.entries.filter (·.2.transfer?.isSome)).map (·.1)

/-- The ids of which the book holds no more than the last state. -/
def settledIds (b : Book) : List Bytes :=
  (b.entries.entries.filter (! ·.2.transfer?.isSome)).map (·.1)

theorem ids_perm (b : Book) : (b.liveIds ++ b.settledIds).Perm b.entries.keys := by
  rw [liveIds, settledIds, ← List.map_append]
  exact (List.filter_append_perm _ _).map _

theorem mem_liveIds_iff {b : Book} (h : b.entries.keys.Nodup) {id : Bytes} :
    id ∈ b.liveIds ↔ ∃ t s u, b.entries.get? id = some (.live t s u) := by
  simp only [liveIds, List.mem_map, List.mem_filter, Prod.exists, exists_and_right, exists_eq_right,
    ← Table.get?_eq_some_iff h]
  constructor
  · rintro ⟨e, he, ht⟩
    cases e with
    | live t s u => exact ⟨t, s, u, he⟩
    | settled s => cases ht
  · rintro ⟨t, s, u, he⟩
    exact ⟨_, he, rfl⟩

/-! ### One step -/

section
variable {b b' : Book} {now : Int} {s : Step} {answer : Except Error Answer}

theorem find?_put {t : Transfer} {s : TransferState} {reason : Option Reason} {id : Bytes} :
    (b.put now t s reason).find? id = if id = t.id then some t else b.find? id := by
  simp only [find?, get?_put]
  split <;> rfl

/-- A terminal state is never left. -/
theorem Effect.stateOf?_of_isTerminal (h : b.Effect now s answer b') {id : Bytes}
    {st : TransferState} (hs : b.stateOf? id = some st) (ht : st.isTerminal) :
    b'.stateOf? id = some st := by
  cases h with
  | refused => exact hs
  | @proposed t hn =>
    have hne : id ≠ t.id := by
      rintro rfl
      rw [contains_eq_isSome_stateOf?, hs] at hn
      cases hn
    rw [stateOf?_put, if_neg hne]
    exact hs
  | lost => exact hs
  | @moved t s target u reason hg ha =>
    have hne : id ≠ t.id := by
      rintro rfl
      rw [stateOf?, hg] at hs
      obtain rfl : s = st := Option.some.inj hs
      rw [TransferState.allows_of_isTerminal ht] at ha
      cases ha
    rw [stateOf?_put, if_neg hne]
    exact hs
  | pruned => exact (stateOf?_prune ..).trans hs

end

namespace Annals

variable {r : Annals} {now : Int} {s : Step} {answer : Except Error Answer} {b : Book}

theorem orderly_start : start.Orderly where
  keys := rfl
  nodup_proposed := List.nodup_nil
  live _ _ _ _ h := nomatch h
  silent _ _ := rfl
  settled _ _ h := nomatch h
  nodup_ended := List.nodup_nil
  ended _ h := nomatch h

theorem Orderly.contains_iff (hr : r.Orderly) {id : Bytes} :
    r.book.contains id ↔ id ∈ r.proposed := by
  rw [← hr.keys]
  exact Table.contains_iff_mem_keys

theorem Orderly.nodup_keys (hr : r.Orderly) : r.book.entries.keys.Nodup :=
  hr.keys ▸ hr.nodup_proposed

/-- A record that is written, with a line added to its history, leaves all others as they were. -/
theorem Orderly.put (hr : r.Orderly) (now : Int) (t : Transfer) (st : TransferState)
    (reason : Option Reason)
    (hpath : Path (((r.book.journal.history t.id).map (·.state)) ++ [st])) :
    let b := r.book.put now t st reason
    (∀ id t' st' u, b.entries.get? id = some (.live t' st' u) → t'.id = id ∧
      Path ((b.journal.history id).map (·.state)) ∧
      ((b.journal.history id).map (·.state)).getLast? = some st' ∧
      ((b.journal.history id).map (·.time)).getLast? = some u) ∧
    (∀ id, b.find? id = none → b.journal.history id = []) ∧
    (∀ id st', b.entries.get? id = some (.settled st') → st'.isTerminal) := by
  intro b
  refine ⟨fun id t' st' u h => ?_, fun id h => ?_, fun id st' h => ?_⟩
  · rw [get?_put] at h
    rw [history_put]
    split at h
    next hid =>
      subst hid
      cases h
      simpa using hpath
    next hid =>
      rw [if_neg (Ne.symm hid)]
      exact hr.live id t' st' u h
  · rw [find?_put] at h
    rw [history_put]
    split at h
    · cases h
    next hid =>
      rw [if_neg (Ne.symm hid)]
      exact hr.silent id h
  · rw [get?_put] at h
    split at h
    · cases h
    · exact hr.settled id st' h

theorem Orderly.proposed (hr : r.Orderly) {t : Transfer} (hn : r.book.contains t.id = false) :
    (r.record (.propose t) (.ok .done) (r.book.put now t .proposed none)).Orderly := by
  have hfresh : t.id ∉ r.proposed := by
    rw [← hr.contains_iff, hn]
    exact Bool.false_ne_true
  have hnone : r.book.entries.get? t.id = none := Table.get?_eq_none_iff.2 hn
  have hhistory : r.book.journal.history t.id = [] := hr.silent t.id (by simp [find?, hnone])
  obtain ⟨hlive, hsilent, hsettled⟩ := hr.put now t .proposed none (by simpa [hhistory] using Path.proposed)
  refine ⟨?_, ?_, hlive, hsilent, hsettled, ?_, ?_⟩
  · show (r.book.entries.insert t.id _).keys = r.proposed ++ [t.id]
    rw [Table.keys_insert, show r.book.entries.contains t.id = false from hn, hr.keys]
    rfl
  · refine List.nodup_append.2 ⟨hr.nodup_proposed, by simp [proposal], ?_⟩
    rintro x hx y hy rfl
    obtain rfl := List.mem_singleton.1 hy
    exact hfresh hx
  · simpa [record, ending] using hr.nodup_ended
  · intro id hid
    obtain ⟨st, hst, ht⟩ := hr.ended id (by simpa [record, ending] using hid)
    exact ⟨st, (Effect.proposed hn).stateOf?_of_isTerminal hst ht, ht⟩

theorem Orderly.moved (hr : r.Orderly) {t : Transfer} {st target : TransferState} {u : Int}
    {reason : Option Reason} (hg : r.book.entries.get? t.id = some (.live t st u))
    (ha : st.allows target) : (r.record (.transition t.id st target reason) (.ok (.truth true))
      (r.book.put now t target reason)).Orderly := by
  have hst : r.book.stateOf? t.id = some st := by rw [stateOf?, hg]; rfl
  have hcontains : r.book.entries.contains t.id = true := Table.contains_iff_exists.2 ⟨_, hg⟩
  have hended : t.id ∉ r.ended := by
    intro hid
    obtain ⟨st', hst', ht⟩ := hr.ended t.id hid
    obtain rfl : st = st' := Option.some.inj (hst.symm.trans hst')
    rw [TransferState.allows_of_isTerminal ht] at ha
    cases ha
  obtain ⟨-, hpath, hlast, -⟩ := hr.live t.id t st u hg
  obtain ⟨hlive, hsilent, hsettled⟩ := hr.put now t target reason (hpath.append hlast ha)
  refine ⟨?_, ?_, hlive, hsilent, hsettled, ?_, ?_⟩
  · show (r.book.entries.insert t.id _).keys = r.proposed ++ []
    rw [Table.keys_insert, hcontains, hr.keys]
    exact (List.append_nil _).symm
  · simpa [record, proposal] using hr.nodup_proposed
  · show (r.ended ++ if target.isTerminal then [t.id] else []).Nodup
    split
    · refine List.nodup_append.2 ⟨hr.nodup_ended, by simp, ?_⟩
      rintro x hx y hy rfl
      exact hended (List.mem_singleton.1 hy ▸ hx)
    · simpa using hr.nodup_ended
  · intro id hid
    rcases List.mem_append.1 hid with hid | hid
    · obtain ⟨st', hst', ht⟩ := hr.ended id hid
      exact ⟨st', (Effect.moved hg ha).stateOf?_of_isTerminal hst' ht, ht⟩
    · by_cases ht : target.isTerminal
      · obtain rfl : id = t.id := by simpa [ending, ht] using hid
        exact ⟨target, by simp [record, stateOf?_put], ht⟩
      · simp [ending, ht] at hid

theorem Orderly.pruned (hr : r.Orderly) (cutoff : Int) :
    (r.record (.prune cutoff) (.ok (.count (r.book.stale cutoff).length))
      (r.book.prune cutoff)).Orderly := by
  have hstale : ∀ id, id ∈ r.book.stale cutoff ↔
      ∃ e, r.book.entries.get? id = some e ∧ e.isStale cutoff := fun id => mem_stale_iff hr.nodup_keys
  have hhistory : ∀ id, (r.book.prune cutoff).journal.history id =
      if id ∈ r.book.stale cutoff then [] else r.book.journal.history id :=
    fun id => Journal.history_eraseAll ..
  refine ⟨?_, ?_, fun id t st u h => ?_, fun id h => ?_, fun id st h => ?_, ?_, fun id hid => ?_⟩
  · simpa [record, proposal] using hr.keys
  · simpa [record, proposal] using hr.nodup_proposed
  · have hold := live_of_prune h
    have hn : id ∉ r.book.stale cutoff := by
      rw [hstale]
      rintro ⟨e, he, hs⟩
      change (r.book.prune cutoff).entries.get? id = _ at h
      rw [get?_prune, he] at h
      simp [BookEntry.pruned, hs] at h
    simp only [record, hhistory, if_neg hn]
    exact hr.live id t st u hold
  · simp only [record, hhistory]
    change (r.book.prune cutoff).find? id = none at h
    rw [find?_prune hr.nodup_keys] at h
    split at h
    next hs => exact if_pos hs
    next hs => rw [if_neg hs, hr.silent id h]
  · rcases settled_of_prune h with h | ⟨t, u, -, h⟩
    · exact hr.settled id st h
    · exact h
  · simpa [record, ending] using hr.nodup_ended
  · obtain ⟨st, hst, ht⟩ := hr.ended id (by simpa [record, ending] using hid)
    exact ⟨st, (stateOf?_prune ..).trans hst, ht⟩

theorem Orderly.record (hr : r.Orderly) (h : r.book.Effect now s answer b) :
    (r.record s answer b).Orderly := by
  cases h with
  | refused => simpa [Annals.record, proposal, ending] using hr
  | proposed hn => exact hr.proposed hn
  | lost => simpa [Annals.record, proposal, ending] using hr
  | moved hg ha => exact hr.moved hg ha
  | pruned => exact hr.pruned _

theorem Orderly.effect (hr : r.Orderly) (now : Int) (s : Step) :
    r.book.Effect now s (s.perform now r.book).1 (s.perform now r.book).2 :=
  perform_effect (fun id t st u h => (hr.live id t st u h).1) now s

theorem orderly_run (steps : List (Int × Step)) : (run steps).Orderly := by
  induction steps using List.reverseRecOn with
  | nil => exact orderly_start
  | append_singleton steps s ih =>
    rw [run_concat]
    exact ih.record (ih.effect s.1 s.2)

/-- What later steps leave of the ids and the terminal states. -/
theorem run_append (steps more : List (Int × Step)) :
    (run steps).proposed ⊆ (run (steps ++ more)).proposed ∧
    ∀ id st, (run steps).book.stateOf? id = some st → st.isTerminal →
      (run (steps ++ more)).book.stateOf? id = some st := by
  induction more using List.reverseRecOn with
  | nil =>
    rw [List.append_nil]
    exact ⟨List.Subset.refl _, fun _ _ h _ => h⟩
  | append_singleton more s ih =>
    obtain ⟨hsub, hstate⟩ := ih
    rw [← List.append_assoc, run_concat]
    refine ⟨fun id hid => List.mem_append_left _ (hsub hid), fun id st hst ht => ?_⟩
    exact ((orderly_run (steps ++ more)).effect s.1 s.2).stateOf?_of_isTerminal (hstate id st hst ht) ht

/-- The journal is in the order of time, as long as the clock never goes back. -/
theorem journal_times {steps : List (Int × Step)} (h : (steps.map (·.1)).Pairwise (· ≤ ·)) :
    ((run steps).book.journal.entries.map (·.time)).Pairwise (· ≤ ·) ∧
    ∀ e ∈ (run steps).book.journal.entries, e.time ∈ steps.map (·.1) := by
  induction steps using List.reverseRecOn with
  | nil => exact ⟨.nil, fun _ he => nomatch he⟩
  | append_singleton steps step ih =>
    obtain ⟨now, s⟩ := step
    rw [List.map_append, List.pairwise_append] at h
    obtain ⟨hsteps, -, hlast⟩ := h
    obtain ⟨htimes, hmem⟩ := ih hsteps
    -- A line that is written now comes after every line that stands there.
    have hput : ∀ e : JournalEntry, e.time = now →
        (((run steps).book.journal.entries ++ [e]).map (·.time)).Pairwise (· ≤ ·) ∧
        ∀ e' ∈ (run steps).book.journal.entries ++ [e], e'.time ∈ (steps ++ [(now, s)]).map (·.1) := by
      intro e he
      rw [List.map_append, List.pairwise_append, List.map_append]
      refine ⟨⟨htimes, List.pairwise_singleton .., fun x hx y hy => ?_⟩, fun e' he' => ?_⟩
      · obtain ⟨e', he', rfl⟩ := List.mem_map.1 hx
        obtain rfl : y = e.time := by simpa using hy
        exact hlast _ (hmem e' he') _ (by simp [he])
      · rcases List.mem_append.1 he' with he' | he'
        · exact List.mem_append_left _ (hmem e' he')
        · obtain rfl := List.mem_singleton.1 he'
          simp [he]
    have hkeep : ∀ es : List JournalEntry, es.Sublist (run steps).book.journal.entries →
        (es.map (·.time)).Pairwise (· ≤ ·) ∧ ∀ e ∈ es, e.time ∈ (steps ++ [(now, s)]).map (·.1) := by
      intro es hes
      refine ⟨htimes.sublist (hes.map _), fun e he => ?_⟩
      rw [List.map_append]
      exact List.mem_append_left _ (hmem e (hes.subset he))
    have heffect := (orderly_run steps).effect now s
    rw [run_concat, next, record]
    generalize (s.perform now (run steps).book).1 = answer at heffect
    generalize (s.perform now (run steps).book).2 = b at heffect
    cases heffect with
    | refused | lost => exact hkeep _ (.refl _)
    | proposed => exact hput _ rfl
    | moved => exact hput _ rfl
    | pruned => exact hkeep _ List.filter_sublist

/-- With a clock that never goes back: the ids that the book holds with their transfers and
those it has settled are, without repetition, the ids that were proposed. The history of an id
with its transfer is a path in the order of time, up to the state and the time of the record,
and replays to that state; every other id has no history. What is settled is in a terminal
state; each id comes into a terminal state once, and stays in it, and stays known. -/
theorem ids_and_histories {steps : List (Int × Step)}
    (hclock : (steps.map (·.1)).Pairwise (· ≤ ·)) :
    let r := run steps
    let b := r.book
    r.proposed.Nodup ∧ (b.liveIds ++ b.settledIds).Perm r.proposed ∧
    (∀ id s, b.entries.get? id = some (.settled s) → s.isTerminal) ∧
    (∀ id t s u, b.entries.get? id = some (.live t s u) →
      Path ((b.journal.history id).map (·.state)) ∧
      ((b.journal.history id).map (·.time)).Pairwise (· ≤ ·) ∧
      ((b.journal.history id).map (·.time)).getLast? = some u ∧
      ((b.journal.history id).map (·.state)).getLast? = some s ∧
      b.journal.replay id = some s ∧ b.stateOf? id = some s) ∧
    (∀ id, id ∉ b.liveIds → b.journal.history id = [] ∧ b.journal.replay id = none) ∧
    r.ended.Nodup ∧
    ∀ more, (∀ id ∈ r.proposed, (run (steps ++ more)).book.contains id) ∧
      ∀ id s, b.stateOf? id = some s → s.isTerminal →
        (run (steps ++ more)).book.stateOf? id = some s := by
  intro r b
  have hr : r.Orderly := orderly_run steps
  refine ⟨hr.nodup_proposed, ?_, hr.settled, fun id t s u h => ?_, fun id h => ?_, hr.nodup_ended,
    fun more => ?_⟩
  · rw [← hr.keys]
    exact b.ids_perm
  · obtain ⟨-, hpath, hstate, htime⟩ := hr.live id t s u h
    have htimes : ((b.journal.history id).map (·.time)).Pairwise (· ≤ ·) :=
      (journal_times hclock).1.sublist (List.filter_sublist.map _)
    exact ⟨hpath, htimes, htime, hstate, (Journal.replay_of_path hpath).trans hstate, by
      rw [stateOf?, h]; rfl⟩
  · have hnone : b.find? id = none := by
      rw [Option.eq_none_iff_forall_ne_some]
      intro t ht
      obtain ⟨s, u, hg⟩ := find?_eq_some_iff.1 ht
      exact h (mem_liveIds_iff hr.nodup_keys |>.2 ⟨t, s, u, hg⟩)
    exact ⟨hr.silent id hnone, Journal.replay_of_history_eq_nil (hr.silent id hnone)⟩
  · obtain ⟨hsub, hstate⟩ := run_append steps more
    exact ⟨fun id hid => (orderly_run (steps ++ more)).contains_iff.2 (hsub hid), hstate⟩

/-- One transfer is executed and pruned, and another stays proposed: an expiry that comes too
late, a state that does not exist and an id that is taken change nothing. -/
def sampleSteps : List (Int × Step) := [
  (1, .propose (Ledger.Sample.locked 'p')), (1, .transition "p" .proposed .prepared none),
  (2, .transition "p" .prepared .executed none), (3, .transition "p" .prepared .expired none),
  (4, .propose (Ledger.Sample.locked 'q')), (5, .transition "q" (.other 7) .executed none),
  (6, .prune 3), (7, .propose (Ledger.Sample.locked 'p'))]

theorem ids_and_histories_pruned :
    (sampleSteps.map (·.1)).Pairwise (· ≤ ·) ∧
    let r := run sampleSteps
    (r.book.liveIds ++ r.book.settledIds).Perm ["p", "q"] ∧ r.book.settledIds = ["p"] ∧
      r.book.journal.history "p" = [] ∧ r.book.journal.replay "q" = some .proposed := by
  have hclock : (sampleSteps.map (·.1)).Pairwise (· ≤ ·) := by decide
  have hq : (run sampleSteps).book.entries.get? "q" =
      some (.live (Ledger.Sample.locked 'q') .proposed 4) := by decide +kernel
  have hp : ("p" : Bytes) ∉ (run sampleSteps).book.liveIds := by decide +kernel
  obtain ⟨-, hids, -, hlive, hsilent, -⟩ := ids_and_histories hclock
  obtain ⟨-, -, -, -, hreplay, -⟩ := hlive _ _ _ _ hq
  exact ⟨hclock, hids, by decide +kernel, (hsilent _ hp).1, hreplay⟩

end Annals

end Book

end Interledger
