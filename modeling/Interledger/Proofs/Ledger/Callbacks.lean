import Interledger.Proofs.Ledger.Runs
import Mathlib.Data.List.Forall2

/-! Callbacks and the journal. In every run the notices about transfers are the changes of
state that were written into the journal, one for one and in order. A listener that attends
from before the first transfer receives just these, so that it sees each transfer prepared
and ended once, or declined. -/

namespace Interledger

/-- A transfer that has come from one state into another. -/
structure Change where
  id : Bytes
  source : TransferState
  target : TransferState
  reason : Option Reason

namespace Change

/-- The state that a transfer is left in by some entries of the journal. -/
def endState? (es : List JournalEntry) (id : Bytes) : Option TransferState :=
  ((es.filter (·.id = id)).getLast?).map (·.state)

/-- The changes that entries tell of, after those of the past. The first entry of a transfer
only proposes it. -/
def ofEntries (past : List JournalEntry) : List JournalEntry → List Change
  | [] => []
  | e :: es => ((endState? past e.id).map fun s => ⟨e.id, s, e.state, e.reason⟩).toList
      ++ ofEntries (past ++ [e]) es

theorem endState?_append (es es' : List JournalEntry) (id : Bytes) :
    endState? (es ++ es') id = (endState? es' id).or (endState? es id) := by
  simp only [endState?, List.filter_append, List.getLast?_append, Option.map_or]

theorem endState?_nil (id : Bytes) : endState? [] id = none := rfl

theorem endState?_cons (e : JournalEntry) (es : List JournalEntry) (id : Bytes) :
    endState? (e :: es) id = (endState? es id).or (if id = e.id then some e.state else none) := by
  have hone : endState? [e] id = if id = e.id then some e.state else none := by
    by_cases h : id = e.id
    · simp [endState?, h]
    · simp [endState?, h, Ne.symm h]
  rw [← List.singleton_append, endState?_append, hone]

theorem endState?_eq_none_iff {es : List JournalEntry} {id : Bytes} :
    endState? es id = none ↔ ∀ e ∈ es, e.id ≠ id := by
  rw [endState?, Option.map_eq_none_iff, List.getLast?_eq_none_iff, List.filter_eq_nil_iff]
  simp

/-- The past counts only with the states that it leaves the transfers in. -/
theorem ofEntries_congr {past past' es : List JournalEntry}
    (h : ∀ e ∈ es, endState? past e.id = endState? past' e.id) :
    ofEntries past es = ofEntries past' es := by
  induction es generalizing past past' with
  | nil => rfl
  | cons e es ih =>
    have hrest : ofEntries (past ++ [e]) es = ofEntries (past' ++ [e]) es := by
      apply ih
      intro e' he'
      rw [endState?_append, endState?_append, h e' (List.mem_cons_of_mem e he')]
    rw [ofEntries, ofEntries, hrest, h e List.mem_cons_self]

theorem ofEntries_append (past es es' : List JournalEntry) :
    ofEntries past (es ++ es') = ofEntries past es ++ ofEntries (past ++ es) es' := by
  induction es generalizing past with
  | nil => rw [List.nil_append, List.append_nil]; rfl
  | cons e es ih =>
    rw [List.cons_append, ofEntries, ih, ofEntries, List.append_assoc, List.append_assoc]
    rfl

end Change

namespace Notice

def transfer? : Notice → Option Transfer
  | prepared t | executed t _ | rejected t _ => some t
  | message _ => none

/-- Whether a notice is about the transfer of an id. -/
def isAbout (id : Bytes) (n : Notice) : Bool := n.transfer?.any (·.id = id)

/-- The notice that tells of a change, with the transfer that was accepted. -/
inductive Tells (accepted : List Transfer) : Change → Notice → Prop
  | prepared {t : Transfer} (ht : t ∈ accepted) :
    Tells accepted ⟨t.id, .proposed, .prepared, none⟩ (.prepared t)
  | executed {t : Transfer} (ht : t ∈ accepted) (f : Option Fulfillment) :
    Tells accepted ⟨t.id, .prepared, .executed, none⟩ (.executed t f)
  | declined {t : Transfer} (ht : t ∈ accepted) (reason : Reason) :
    Tells accepted ⟨t.id, .proposed, .rejected, some reason⟩ (.rejected t reason)
  | rejected {t : Transfer} (ht : t ∈ accepted) (reason : Reason) :
    Tells accepted ⟨t.id, .prepared, .rejected, some reason⟩ (.rejected t reason)
  | expired {t : Transfer} (ht : t ∈ accepted) (reason : Reason) :
    Tells accepted ⟨t.id, .prepared, .expired, some reason⟩ (.rejected t reason)

/-- All that is told of the transfer of an id until it is in some state. -/
inductive Story (accepted : List Transfer) (id : Bytes) : Option TransferState → List Notice → Prop
  | unknown : Story accepted id none []
  | prepared {t : Transfer} (ht : t ∈ accepted) (hid : t.id = id) :
    Story accepted id (some .prepared) [.prepared t]
  | declined {t : Transfer} (ht : t ∈ accepted) (hid : t.id = id) (reason : Reason) :
    Story accepted id (some .rejected) [.rejected t reason]
  | ended {t : Transfer} (ht : t ∈ accepted) (hid : t.id = id) (e : Ledger.Ending) :
    Story accepted id (some e.state) [.prepared t, e.notice t]

theorem Tells.mono {accepted accepted' : List Transfer} (h : accepted ⊆ accepted') {c : Change}
    {n : Notice} (ht : Tells accepted c n) : Tells accepted' c n := by
  cases ht with
  | prepared ht => exact .prepared (h ht)
  | executed ht f => exact .executed (h ht) f
  | declined ht reason => exact .declined (h ht) reason
  | rejected ht reason => exact .rejected (h ht) reason
  | expired ht reason => exact .expired (h ht) reason

theorem Story.mono {accepted accepted' : List Transfer} (h : accepted ⊆ accepted') {id : Bytes}
    {st : Option TransferState} {ns : List Notice} (hs : Story accepted id st ns) :
    Story accepted' id st ns := by
  cases hs with
  | unknown => exact .unknown
  | prepared ht hid => exact .prepared (h ht) hid
  | declined ht hid reason => exact .declined (h ht) hid reason
  | ended ht hid e => exact .ended (h ht) hid e

theorem Story.eq_of_prepared {accepted : List Transfer} {id : Bytes} {ns : List Notice}
    (h : Story accepted id (some .prepared) ns) :
    ∃ t ∈ accepted, t.id = id ∧ ns = [.prepared t] := by
  generalize hst : some TransferState.prepared = st at h
  cases h with
  | unknown => cases hst
  | prepared ht hid => exact ⟨_, ht, hid, rfl⟩
  | declined => cases hst
  | ended ht hid e => cases e <;> cases hst

theorem Tells.transfer {accepted : List Transfer} {c : Change} {n : Notice}
    (h : Tells accepted c n) : ∃ t ∈ accepted, n.transfer? = some t ∧ t.id = c.id := by
  cases h with
  | prepared ht => exact ⟨_, ht, rfl, rfl⟩
  | executed ht f => exact ⟨_, ht, rfl, rfl⟩
  | declined ht reason => exact ⟨_, ht, rfl, rfl⟩
  | rejected ht reason => exact ⟨_, ht, rfl, rfl⟩
  | expired ht reason => exact ⟨_, ht, rfl, rfl⟩

theorem tells_notice {accepted : List Transfer} {t : Transfer} (ht : t ∈ accepted)
    (e : Ledger.Ending) : Tells accepted ⟨t.id, .prepared, e.state, e.reason?⟩ (e.notice t) := by
  cases e with
  | executed f => exact .executed ht f
  | rejected reason => exact .rejected ht reason
  | expired => exact .expired ht _

end Notice

namespace Ledger.Chronicle

open Change Notice

/-- The journal, what was told of the transfers and the states in the book agree. -/
structure Narrated (c : Chronicle) : Prop where
  silent : c.ledger.notices = []
  states : ∀ id, endState? c.written id = c.ledger.book.stateOf? id
  journal : c.ledger.book.journal.entries =
    c.written.filter fun e => (c.ledger.book.find? e.id).isSome
  told : List.Forall₂ (Tells c.accepted) (ofEntries [] c.written)
    (c.told.filter (·.transfer?.isSome))
  stories : ∀ id, Story c.accepted id (c.ledger.book.stateOf? id) (c.told.filter (·.isAbout id))

theorem written_record {c : Chronicle} {l' : Ledger} {es : List JournalEntry}
    (h : l'.book.journal.entries = c.ledger.book.journal.entries ++ es) (s : Step)
    (answer : Except Error Answer) : (c.record s answer l').written = c.written ++ es := by
  rw [record, h]
  exact congrArg (c.written ++ ·) List.drop_left

theorem narrated_start {info : LedgerInfo} {l : Ledger} (h : make info = .ok l) :
    (start l).Narrated := by
  rw [make_eq_ok h]
  exact ⟨rfl, fun _ => rfl, rfl, .nil, fun _ => .unknown⟩

namespace Narrated

variable {c : Chronicle} {now : Int} {s : Step} {answer : Except Error Answer} {l' : Ledger}

/-- A step that adds no line to the journal and tells no news of a transfer. -/
theorem keep (hc : c.Narrated) {ns : List Notice}
    (hw : l'.book.journal.entries.drop c.ledger.book.journal.entries.length = [])
    (ha : (c.record s answer l').accepted = c.accepted)
    (hb : ∀ id, l'.book.stateOf? id = c.ledger.book.stateOf? id)
    (hj : l'.book.journal.entries = c.written.filter fun e => (l'.book.find? e.id).isSome)
    (hn : l'.notices = c.ledger.notices ++ ns) (hns : ∀ n ∈ ns, n.transfer? = none) :
    (c.record s answer l').Narrated := by
  have hsome : ns.filter (·.transfer?.isSome) = [] := by
    rw [List.filter_eq_nil_iff]
    intro n hm
    simp [hns n hm]
  have habout : ∀ id, ns.filter (·.isAbout id) = [] := by
    intro id
    rw [List.filter_eq_nil_iff]
    intro n hm
    simp [isAbout, hns n hm]
  have ht : (c.record s answer l').told = c.told ++ ns := by
    rw [record, hn, hc.silent]
    rfl
  have hw : (c.record s answer l').written = c.written := by
    rw [record, hw, List.append_nil]
  refine ⟨rfl, fun id => ?_, ?_, ?_, fun id => ?_⟩
  · rw [hw, hc.states]
    exact (hb id).symm
  · rw [hw]
    exact hj
  · rw [hw, ha, ht, List.filter_append, hsome, List.append_nil]
    exact hc.told
  · rw [ha, ht, List.filter_append, habout, List.append_nil]
    exact (hb id).symm ▸ hc.stories id

/-- A step that brings one transfer from state to state. -/
theorem write (hc : c.Narrated) {t : Transfer} {st : TransferState} {u : Int}
    {es : List JournalEntry} {ns : List Notice}
    (hg : ∀ id, l'.book.entries.get? id =
      if id = t.id then some (.live t st u) else c.ledger.book.entries.get? id)
    (hlive : c.ledger.book.contains t.id → (c.ledger.book.find? t.id).isSome)
    (hj : l'.book.journal.entries = c.ledger.book.journal.entries ++ es)
    (hes : ∀ e ∈ es, e.id = t.id)
    (hst : endState? es t.id = some st)
    (hn : l'.notices = c.ledger.notices ++ ns) (hns : ∀ n ∈ ns, n.transfer? = some t)
    (ha : c.accepted ⊆ (c.record s answer l').accepted)
    (ht : List.Forall₂ (Tells (c.record s answer l').accepted) (ofEntries c.written es) ns)
    (hstory : Story (c.record s answer l').accepted t.id (some st)
      (c.told.filter (·.isAbout t.id) ++ ns)) :
    (c.record s answer l').Narrated := by
  have hw : (c.record s answer l').written = c.written ++ es := written_record hj s answer
  have htold : (c.record s answer l').told = c.told ++ ns := by
    rw [record, hn, hc.silent]
    rfl
  have hb : ∀ id, l'.book.stateOf? id =
      if id = t.id then some st else c.ledger.book.stateOf? id := Book.stateOf?_of_get? hg
  have hfind : ∀ id, (l'.book.find? id).isSome =
      (decide (id = t.id) || (c.ledger.book.find? id).isSome) := by
    intro id
    rw [Book.find?, hg]
    by_cases hid : id = t.id
    · simp [hid, BookEntry.transfer?]
    · simp [hid, Book.find?]
  have hsome : ns.filter (·.transfer?.isSome) = ns := by
    rw [List.filter_eq_self]
    intro n hm
    rw [hns n hm]
    rfl
  refine ⟨rfl, fun id => ?_, ?_, ?_, fun id => ?_⟩
  · rw [hw, endState?_append, hc.states]
    refine Eq.trans ?_ (hb id).symm
    by_cases hid : id = t.id
    · rw [if_pos hid, hid, hst]
      rfl
    · have hnone : endState? es id = none :=
        endState?_eq_none_iff.2 fun e he => hes e he ▸ Ne.symm hid
      rw [if_neg hid, hnone]
      rfl
  · have hold : c.written.filter (fun e => (l'.book.find? e.id).isSome) =
        c.written.filter fun e => (c.ledger.book.find? e.id).isSome := by
      apply List.filter_congr
      intro e he
      rw [hfind]
      by_cases hid : e.id = t.id
      · have hk : c.ledger.book.contains t.id := by
          rw [Book.contains_eq_isSome_stateOf?, ← hc.states, Option.isSome_iff_ne_none]
          intro h
          exact endState?_eq_none_iff.1 h e he hid
        simp [hid, hlive hk]
      · simp [hid]
    have hnew : es.filter (fun e => (l'.book.find? e.id).isSome) = es := by
      rw [List.filter_eq_self]
      intro e he
      simp [hfind, hes e he]
    rw [hw]
    show l'.book.journal.entries = _
    rw [hj, hc.journal, List.filter_append]
    exact congrArg₂ (· ++ ·) hold.symm hnew.symm
  · rw [hw, ofEntries_append, htold, List.filter_append, hsome]
    exact List.rel_append (hc.told.imp fun _ _ h => h.mono ha) ht
  · show Story _ id (l'.book.stateOf? id) _
    rw [htold, List.filter_append, hb]
    by_cases hid : id = t.id
    · have habout : ns.filter (·.isAbout id) = ns := by
        rw [List.filter_eq_self]
        intro n hm
        simp [isAbout, hns n hm, hid]
      rw [if_pos hid, habout, hid]
      exact hstory
    · have habout : ns.filter (·.isAbout id) = [] := by
        rw [List.filter_eq_nil_iff]
        intro n hm
        simp [isAbout, hns n hm, Ne.symm hid]
      rw [if_neg hid, habout, List.append_nil]
      exact (hc.stories id).mono ha

/-- A step that accepts one transfer under a new id, and tells all that there is of it. -/
theorem accept (hc : c.Narrated) {t : Transfer} {st : TransferState} {u : Int}
    {es : List JournalEntry} {ns : List Notice} (hfresh : c.ledger.book.contains t.id = false)
    (hg : ∀ id, l'.book.entries.get? id =
      if id = t.id then some (.live t st u) else c.ledger.book.entries.get? id)
    (hj : l'.book.journal.entries = c.ledger.book.journal.entries ++ es)
    (hes : ∀ e ∈ es, e.id = t.id) (hst : endState? es t.id = some st)
    (hn : l'.notices = c.ledger.notices ++ ns) (hns : ∀ n ∈ ns, n.transfer? = some t)
    (ha : (c.record s answer l').accepted = c.accepted ++ [t])
    (ht : List.Forall₂ (Tells (c.accepted ++ [t])) (ofEntries [] es) ns)
    (hstory : Story (c.accepted ++ [t]) t.id (some st) ns) : (c.record s answer l').Narrated := by
  have hnone : c.ledger.book.stateOf? t.id = none := by
    rw [Book.contains_eq_isSome_stateOf?] at hfresh
    simpa using hfresh
  have hpast : ofEntries c.written es = ofEntries [] es := by
    apply ofEntries_congr
    intro e he
    rw [hes e he, hc.states, hnone, endState?_nil]
  have hold : c.told.filter (·.isAbout t.id) = [] := by
    have hunknown := hc.stories t.id
    rw [hnone] at hunknown
    generalize c.told.filter (·.isAbout t.id) = told at hunknown
    cases hunknown
    rfl
  apply hc.write hg (by simp [hfresh]) hj hes hst hn hns
  · rw [ha]
    exact List.subset_append_left ..
  · rw [ha, hpast]
    exact ht
  · rw [ha, hold]
    exact hstory

/-- Pruning, like the other calm steps, loses nothing that was not pruned. -/
theorem calm (hc : c.Narrated) (hl : c.ledger.Sound) (h : c.ledger.Calm now s answer l') :
    (c.record s answer l').Narrated := by
  have ha : (c.record s answer l').accepted = c.accepted := by
    simp [Chronicle.record, (calm_entries h c.opened).2]
  have hquiet : c.ledger.notices = c.ledger.notices ++ [] := (List.append_nil _).symm
  cases h with
  | told log =>
    exact hc.keep List.drop_length ha (fun _ => rfl) hc.journal rfl
      (by simp [transfer?])
  | @pruned cutoff n =>
    have hw : (c.ledger.book.prune cutoff).journal.entries.drop
        c.ledger.book.journal.entries.length = [] :=
      List.drop_eq_nil_of_le (List.length_filter_le ..)
    refine hc.keep hw ha (Book.stateOf?_prune _ _) ?_ hquiet (by simp)
    show c.ledger.book.journal.entries.filter (fun e => e.id ∉ c.ledger.book.stale cutoff) = _
    rw [hc.journal, List.filter_filter]
    apply List.filter_congr
    intro e _
    rw [Book.find?_prune hl.nodup_keys]
    by_cases hs : e.id ∈ c.ledger.book.stale cutoff
    · simp [hs]
    · simp [hs]
  | _ =>
    exact hc.keep List.drop_length ha (fun _ => rfl) hc.journal hquiet (by simp)

theorem record (hf : c.Filed) (hl : c.ledger.Sound) (hc : c.Narrated)
    (h : c.ledger.Effect now s answer l') : (c.record s answer l').Narrated := by
  cases h with
  | calm h => exact hc.calm hl h
  | opened hb ha =>
    exact hc.keep List.drop_length (List.append_nil _) (fun _ => rfl) hc.journal
      (List.append_nil _).symm (by simp)
  | @declined t balance ht hb hlt =>
    have hm : t ∈ c.accepted ++ [t] := by simp
    apply hc.accept ht.fresh (get?_declined c.ledger now t balance) (List.append_assoc ..)
      (by simp) (by simp [endState?]) rfl (by simp [transfer?]) rfl
    · simp only [List.singleton_append, ofEntries, List.nil_append, endState?_nil, endState?_cons,
        if_true]
      exact .cons (.declined hm _) .nil
    · exact .declined hm rfl _
  | @funded t balance ht hb hle hcond =>
    have hm : t ∈ c.accepted ++ [t] := by simp
    apply hc.accept ht.fresh (get?_funded c.ledger now t) (List.append_assoc ..)
      (by simp) (by simp [endState?]) rfl (by simp [transfer?]) rfl
    · simp only [List.singleton_append, ofEntries, List.nil_append, endState?_nil, endState?_cons,
        if_true]
      exact .cons (.prepared hm) .nil
    · exact .prepared hm rfl
  | @executed t balance ht hb hle hcond =>
    have hm : t ∈ c.accepted ++ [t] := by simp
    have hj : ((c.ledger.funded now t).ended now t (.executed none)).book.journal.entries =
        c.ledger.book.journal.entries ++ [⟨t.id, .proposed, now, none⟩, ⟨t.id, .prepared, now, none⟩,
          ⟨t.id, .executed, now, none⟩] := by
      simp [Ending.state, Ending.reason?]
    have hn : ((c.ledger.funded now t).ended now t (.executed none)).notices =
        c.ledger.notices ++ [.prepared t, .executed t none] := by
      simp [Ending.notice]
    apply hc.accept ht.fresh (get?_funded_ended c.ledger now t (.executed none)) hj
      (by simp) (by simp [endState?, Ending.state]) hn (by simp [transfer?]) rfl
    · simp only [ofEntries, List.nil_append, List.cons_append, endState?_nil, endState?_cons, if_true]
      exact .cons (.prepared hm) (.cons (.executed hm none) .nil)
    · exact .ended hm rfl (.executed none)
  | @ended s answer t u e adopted log hg hs =>
    have ha : (c.record s (.ok answer) { c.ledger.ended now t e with adopted, log }).accepted =
        c.accepted := by
      simp [Chronicle.record, (ends_entries hs c.opened).2]
    have hm : t ∈ c.accepted := hf.live _ _ _ _ hg
    have hstate : c.ledger.book.stateOf? t.id = some .prepared := by
      simp [Book.stateOf?, hg, BookEntry.state]
    have hstory := hc.stories t.id
    rw [hstate] at hstory
    obtain ⟨t', hm', hid, htold⟩ := hstory.eq_of_prepared
    obtain rfl : t' = t := List.inj_on_of_nodup_map hf.nodup_ids hm' hm hid
    have hj : (c.ledger.ended now t' e).book.journal.entries =
        c.ledger.book.journal.entries ++ [⟨t'.id, e.state, now, e.reason?⟩] := rfl
    have hn : (c.ledger.ended now t' e).notices = c.ledger.notices ++ [e.notice t'] := rfl
    refine hc.write (fun id => Book.get?_put) (fun _ => ?_) hj (by simp) (by simp [endState?]) hn ?_
      (ha ▸ List.Subset.refl _) ?_ ?_
    · simp [Book.find?, hg, BookEntry.transfer?]
    · cases e <;> simp [Ending.notice, transfer?]
    · have hes : ofEntries c.written [⟨t'.id, e.state, now, e.reason?⟩] =
          [⟨t'.id, .prepared, e.state, e.reason?⟩] := by
        simp [ofEntries, hc.states, hstate]
      rw [hes, ha]
      exact .cons (tells_notice hm e) .nil
    · rw [htold, ha]
      exact .ended hm rfl e

end Narrated

theorem narrated_run {info : LedgerInfo} {l : Ledger} (h : make info = .ok l)
    (steps : List (Int × Step)) : (run l steps).Narrated :=
  (run_induction (P := fun c => c.Filed ∧ c.Narrated) (sound_of_make h)
    ⟨filed_start h, narrated_start h⟩
    (fun _ _ _ _ _ hs hc he => ⟨hc.1.record he, hc.2.record hc.1 hs he⟩) steps).2.2

/-! ### Listeners that attend a run -/

/-- What a listener has received about transfers. -/
def heard (c : Chronicle) (w : Listener) : List Notice :=
  (w.received c.callbacks).filter (·.transfer?.isSome)

/-- A listener attends a run when it attaches before any transfer is prepared, and is not
detached afterwards. -/
def Attends (l : Ledger) (steps : List (Int × Step)) (w : Listener) : Prop :=
  ∃ before now a after, steps = before ++ (now, .attach a w) :: after ∧
    (∀ s ∈ before, ∀ t, s.2 ≠ .prepare t) ∧
    (run l before).ledger.accounts.contains a ∧ ∀ s ∈ after, s.2 ≠ .detach w

theorem received_append (w : Listener) (calls calls' : List (Listener × Notice)) :
    w.received (calls ++ calls') = w.received calls ++ w.received calls' := by
  simp only [Listener.received, List.filter_append, List.map_append]

/-- A listener with a session receives every notice once. -/
theorem received_callbacks {l : Ledger} {w : Listener} (hn : (l.sessions.map (·.listener)).Nodup)
    (hw : w ∈ l.sessions.map (·.listener)) : w.received l.callbacks = l.notices := by
  have hone : ∀ n, w.received (l.sessions.map fun s => (s.listener, n)) = [n] := by
    intro n
    have hfilter : (l.sessions.map (·.listener)).filter (· = w) = [w] := by
      rw [List.filter_eq, List.count_eq_one_of_mem hn hw]
      rfl
    have hpair : (l.sessions.map fun s => (s.listener, n)) =
        (l.sessions.map (·.listener)).map fun v => (v, n) := by
      rw [List.map_map]
      rfl
    rw [Listener.received, hpair, List.filter_map]
    show (((l.sessions.map (·.listener)).filter (· = w)).map _).map _ = _
    rw [hfilter]
    rfl
  unfold Ledger.callbacks
  induction l.notices with
  | nil => rfl
  | cons n ns ih => rw [List.flatMap_cons, received_append, hone, ih, List.singleton_append]

/-- Nobody receives what was not told. -/
theorem received_subset (w : Listener) (l : Ledger) : w.received l.callbacks ⊆ l.notices := by
  intro n hn
  simp only [Listener.received, Ledger.callbacks, List.mem_map, List.mem_filter, List.mem_flatMap] at hn
  obtain ⟨c, ⟨⟨m, hm, s, -, rfl⟩, -⟩, rfl⟩ := hn
  exact hm

section
variable {info : LedgerInfo} {l : Ledger} {w : Listener}

theorem received_subset_told (l : Ledger) (w : Listener) (steps : List (Int × Step)) :
    w.received (run l steps).callbacks ⊆ (run l steps).told := by
  induction steps using List.reverseRecOn with
  | nil => exact List.nil_subset _
  | append_singleton steps s ih =>
    rw [run_concat]
    show w.received (_ ++ _) ⊆ _ ++ _
    rw [received_append]
    exact List.append_subset.2 ⟨List.subset_append_of_subset_left _ ih,
      List.subset_append_of_subset_right _ (received_subset w _)⟩

theorem accepted_eq_nil (l : Ledger) {steps : List (Int × Step)}
    (h : ∀ s ∈ steps, ∀ t, s.2 ≠ .prepare t) : (run l steps).accepted = [] := by
  induction steps using List.reverseRecOn with
  | nil => rfl
  | append_singleton steps s ih =>
    have hs : ∀ answer, acceptance s.2 answer = [] := by
      intro answer
      unfold acceptance
      split
      next t _ hs => exact absurd hs (h s (by simp) t)
      · rfl
    rw [run_concat]
    show (run l steps).accepted ++ acceptance s.2 _ = []
    rw [hs, ih fun s hs => h s (by simp [hs])]
    rfl

/-- As long as nothing was accepted, nothing is told of transfers. -/
theorem Narrated.told_eq_nil {c : Chronicle} (hc : c.Narrated) (h : c.accepted = []) :
    c.told.filter (·.transfer?.isSome) = [] := by
  have htold := hc.told
  rw [h] at htold
  generalize c.told.filter (·.transfer?.isSome) = ns at htold
  generalize ofEntries [] c.written = changes at htold
  cases htold with
  | nil => rfl
  | cons hn _ =>
    obtain ⟨t, ht, -⟩ := hn.transfer
    cases ht

theorem heard_record {c : Chronicle} {s : Step} {answer : Except Error Answer} {l' : Ledger}
    (hl : l'.Sound) (hw : w ∈ l'.sessions.map (·.listener)) : (c.record s answer l').heard w =
      c.heard w ++ l'.notices.filter (·.transfer?.isSome) := by
  rw [heard, record, received_append, received_callbacks hl.nodup_listeners hw, List.filter_append]
  rfl

/-- A session ends with nothing but detaching its listener. -/
theorem mem_listeners {l l' : Ledger} {now : Int} {s : Step} {answer : Except Error Answer}
    (h : l.Effect now s answer l') (hs : s ≠ .detach w)
    (hw : w ∈ l.sessions.map (·.listener)) : w ∈ l'.sessions.map (·.listener) := by
  cases h with
  | calm h =>
    cases h with
    | attached ha =>
      show w ∈ (l.seats _ _).map (·.listener)
      rw [map_listener_seats]
      split
      · exact hw
      · exact List.mem_append_left _ hw
    | @detached who =>
      obtain ⟨s, hs', rfl⟩ := List.mem_map.1 hw
      have hne : s.listener ≠ who := fun h => hs (congrArg Step.detach h.symm)
      exact List.mem_map.2 ⟨s, List.mem_filter.2 ⟨hs', by simpa using hne⟩, rfl⟩
    | _ => exact hw
  | _ => exact hw

theorem heard_eq_told (hl : make info = .ok l) {steps : List (Int × Step)}
    (hw : Attends l steps w) : w ∈ (run l steps).ledger.sessions.map (·.listener) ∧
      (run l steps).heard w = (run l steps).told.filter (·.transfer?.isSome) := by
  obtain ⟨before, now, a, after, rfl, hbefore, ha, hafter⟩ := hw
  -- The induction is on the steps after the listener has attached: from then on it has a session.
  induction after using List.reverseRecOn with
  | nil =>
    have hsound := sound_run (sound_of_make hl) before
    have htold := (narrated_run hl before).told_eq_nil (accepted_eq_nil l hbefore)
    have hheard : (run l before).heard w = [] := by
      have hsub := List.filter_subset (·.transfer?.isSome) (received_subset_told l w before)
      rw [htold] at hsub
      exact List.subset_nil.1 hsub
    rw [run_concat, next]
    have hw : w ∈ (Step.perform now (run l before).ledger (.attach a w)).2.sessions.map
        (·.listener) := by
      simp only [Step.perform, attach_eq, if_pos ha, map_listener_seats]
      split
      next h => exact h
      · exact List.mem_append_right _ (List.mem_singleton_self w)
    refine ⟨hw, ?_⟩
    rw [heard_record (sound_perform hsound now _) hw, hheard]
    show _ = ((run l before).told ++ _).filter _
    rw [List.filter_append, htold]
  | append_singleton after s ih =>
    obtain ⟨hw, hheard⟩ := ih fun s hs => hafter s (by simp [hs])
    have hsound := sound_run (sound_of_make hl) (before ++ (now, .attach a w) :: after)
    have hw' := mem_listeners (perform_effect hsound s.1 s.2) (hafter s (by simp)) hw
    rw [← List.cons_append, ← List.append_assoc, run_concat, next]
    refine ⟨hw', ?_⟩
    rw [heard_record (sound_perform hsound s.1 s.2) hw', hheard]
    exact (List.filter_append ..).symm

/-! ### Steps that tell nothing, and one that tells two things -/

variable {c : Chronicle} {now : Int}

theorem callbacks_next_of_ledger_eq (hc : c.Narrated) {s : Step}
    (h : (s.perform now c.ledger).2 = c.ledger) : (c.next now s).callbacks = c.callbacks := by
  rw [next, record, h, Ledger.callbacks, hc.silent]
  exact List.append_nil _

theorem callbacks_next_of_error (hl : c.ledger.Sound) (hc : c.Narrated) {s : Step} {e : Error}
    (h : (s.perform now c.ledger).1 = .error e) : (c.next now s).callbacks = c.callbacks := by
  have he := perform_effect hl now s
  rw [h] at he
  exact callbacks_next_of_ledger_eq hc he.eq_of_error

theorem callbacks_next_of_lost (hl : c.ledger.Sound) (hc : c.Narrated) {id : Bytes}
    (h : (c.ledger.expire now id).1 = .ok false) :
    (c.next now (.expire id)).callbacks = c.callbacks := by
  apply callbacks_next_of_ledger_eq hc
  rw [Step.perform]
  rcases expire_cases hl now id with ⟨-, he⟩ | ⟨t, u, -, he⟩
  · rw [he]
  · rw [he] at h
    cases h

/-- A funded transfer without a condition is prepared and executed in one call. -/
theorem heard_next_of_unconditional (hl : c.ledger.Sound) (hc : c.Narrated)
    (hw : w ∈ c.ledger.sessions.map (·.listener)) {t : Transfer} {st : TransferState}
    (ht : t.condition = none) (h : (c.ledger.prepare now t).1 = .ok st) (hst : st ≠ .rejected) :
    (c.next now (.prepare t)).heard w = c.heard w ++ [.prepared t, .executed t none] := by
  have hsound := sound_perform hl now (.prepare t)
  unfold next
  rcases prepare_cases c.ledger now t with ⟨e, he⟩ | ⟨balance, -, -, he⟩
  · rw [he] at h
    cases h
  · by_cases hlt : balance < t.amount
    · rw [he, if_pos hlt] at h
      exact absurd (Except.ok.inj h).symm hst
    · rw [if_neg hlt, if_neg (by simp [ht])] at he
      simp only [Step.perform, he] at hsound ⊢
      rw [heard_record hsound hw, notices_ended, notices_funded, hc.silent]
      rfl

end

end Ledger.Chronicle

end Interledger
