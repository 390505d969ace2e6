import Interledger.Proofs.Alarm
import Interledger.Proofs.Table
import Interledger.Timers.Index

/-! The two indexes of timers agree. Every entry is found by its id, through its handle, and
nothing else is; entries stand in the order of their deadlines and, for equal deadlines, of
their handles. Every operation keeps this, so no handle ever leads nowhere, and gives what the
same operation on the plain timers gives. -/

namespace Interledger.Timers

/-! ### Taking ids out of a table -/

theorem keys_foldl_erase (t : Table Bytes Nat) (ids : List Bytes) :
    (ids.foldl Table.erase t).keys = t.keys.filter (· ∉ ids) := by
  induction ids generalizing t with
  | nil => simp
  | cons id ids ih =>
    rw [List.foldl_cons, ih, Table.keys_erase, List.filter_filter]
    apply List.filter_congr
    intro j _
    by_cases hj : j = id <;> simp [hj]

theorem get?_foldl_erase (t : Table Bytes Nat) (ids : List Bytes) (id : Bytes) :
    (ids.foldl Table.erase t).get? id = if id ∈ ids then none else t.get? id := by
  induction ids generalizing t with
  | nil => simp
  | cons j ids ih =>
    rw [List.foldl_cons, ih, Table.get?_erase]
    by_cases hj : id = j <;> by_cases hid : id ∈ ids <;> simp [hj, hid]

/-- One entry falls due before another, or with it and was entered before it. -/
def Entry.Precedes (e f : Entry) : Prop :=
  e.timer.deadline < f.timer.deadline ∨
    e.timer.deadline = f.timer.deadline ∧ e.handle < f.handle

instance (e f : Entry) : Decidable (e.Precedes f) := inferInstanceAs (Decidable (_ ∨ _))

namespace Index

/-! ### Placing an entry -/

theorem place_perm (e : Entry) (es : List Entry) : (place e es).Perm (e :: es) := by
  induction es with
  | nil => exact .refl _
  | cons f fs ih =>
    unfold place
    split
    · exact .refl _
    · exact (ih.cons f).trans (.swap e f fs)

theorem map_timer_place (e : Entry) (es : List Entry) :
    (place e es).map (·.timer) = Timers.place e.timer (es.map (·.timer)) := by
  induction es with
  | nil => rfl
  | cons f fs ih =>
    unfold place
    rw [List.map_cons, Timers.place]
    split
    · rfl
    · rw [List.map_cons, ih]

theorem filter_place {e : Entry} {p : Entry → Bool} (hp : p e = false) (es : List Entry) :
    (place e es).filter p = es.filter p := by
  induction es with
  | nil => simp [place, hp]
  | cons f fs ih =>
    unfold place
    split
    · simp [hp]
    · rw [List.filter_cons, List.filter_cons, ih]

/-- A new entry has the greatest handle, so it comes last among its like. -/
theorem precedes_place {e : Entry} {es : List Entry} (h : es.Pairwise Entry.Precedes)
    (hnew : ∀ f ∈ es, f.handle < e.handle) : (place e es).Pairwise Entry.Precedes := by
  induction es with
  | nil => exact List.pairwise_singleton ..
  | cons f fs ih =>
    obtain ⟨hf, hfs⟩ := List.pairwise_cons.1 h
    unfold place
    split
    next hlt =>
      refine List.pairwise_cons.2 ⟨fun g hg => .inl ?_, h⟩
      rcases List.mem_cons.1 hg with rfl | hg
      · exact hlt
      · rcases hf g hg with hd | ⟨hd, -⟩ <;> omega
    next hge =>
      have hplace := ih hfs fun g hg => hnew g (List.mem_cons_of_mem f hg)
      refine List.pairwise_cons.2 ⟨fun g hg => ?_, hplace⟩
      rcases List.mem_cons.1 ((place_perm e fs).mem_iff.1 hg) with rfl | hg
      · have hlt := hnew f List.mem_cons_self
        unfold Entry.Precedes
        omega
      · exact hf g hg

/-! ### Two indexes that agree -/

structure Consistent (ix : Index) : Prop where
  precedes : ix.entries.Pairwise Entry.Precedes
  nodup_ids : (ix.entries.map (·.timer.id)).Nodup
  nodup_handles : (ix.entries.map (·.handle)).Nodup
  keys : ix.handles.keys.Perm (ix.entries.map (·.timer.id))
  points : ∀ e ∈ ix.entries, ix.handles.get? e.timer.id = some e.handle
  fresh : ∀ e ∈ ix.entries, e.handle < ix.next

theorem consistent_empty : empty.Consistent :=
  ⟨.nil, List.nodup_nil, List.nodup_nil, .refl _, nofun, nofun⟩

theorem consistent_drain (ix : Index) : ix.drain.2.Consistent :=
  ⟨.nil, List.nodup_nil, List.nodup_nil, .refl _, nofun, nofun⟩

/-- What arming enters, when the id is free. -/
theorem arm?_eq_some {ix ix' : Index} {t : Timer} {e : Entry} (h : ix.arm? t = some (e, ix')) :
    ¬ix.handles.contains t.id ∧ e = ⟨ix.next, t⟩ ∧
      ix' = ⟨place e ix.entries, ix.handles.insert t.id ix.next, ix.next + 1⟩ := by
  unfold arm? at h
  split at h
  · cases h
  next hid =>
    obtain ⟨rfl, rfl⟩ := Prod.mk.inj (Option.some.inj h)
    exact ⟨hid, rfl, rfl⟩

namespace Consistent

variable {ix : Index} {t : Timer} {id : Bytes} {now : Int}

/-- What the index by id holds are the handles of the entries. -/
theorem get?_eq_some_iff (h : ix.Consistent) {handle : Nat} : ix.handles.get? id = some handle ↔
    ∃ e ∈ ix.entries, e.timer.id = id ∧ e.handle = handle := by
  constructor
  · intro hg
    have hid : id ∈ ix.entries.map (·.timer.id) :=
      h.keys.mem_iff.1 (Table.contains_iff_mem_keys.1 (Table.contains_iff_exists.2 ⟨_, hg⟩))
    obtain ⟨e, he, rfl⟩ := List.mem_map.1 hid
    exact ⟨e, he, rfl, Option.some.inj ((h.points e he).symm.trans hg)⟩
  · rintro ⟨e, he, rfl, rfl⟩
    exact h.points e he

theorem contains_iff (h : ix.Consistent) :
    ix.handles.contains id ↔ id ∈ ix.entries.map (·.timer.id) := by
  rw [Table.contains_iff_mem_keys, h.keys.mem_iff]

theorem isArmed_iff (h : ix.Consistent) : ix.timers.isArmed id ↔ ix.handles.contains id := by
  rw [h.contains_iff, timers, isArmed]
  simp

theorem size_eq (h : ix.Consistent) : ix.size = ix.timers.size := by
  have hlength := h.keys.length_eq
  simpa [Table.keys, size, timers, Timers.size] using hlength

/-! ### Arming -/

theorem arm? (h : ix.Consistent) {e : Entry} {ix' : Index} (ha : ix.arm? t = some (e, ix')) :
    ix'.Consistent := by
  obtain ⟨hid, rfl, rfl⟩ := arm?_eq_some ha
  have hperm := place_perm ⟨ix.next, t⟩ ix.entries
  have hids := hperm.map fun e : Entry => e.timer.id
  have hfree : t.id ∉ ix.entries.map (·.timer.id) := mt h.contains_iff.2 hid
  have hnew : ix.next ∉ ix.entries.map (·.handle) := by
    intro hm
    obtain ⟨e, he, heq⟩ := List.mem_map.1 hm
    have := h.fresh e he
    omega
  refine ⟨precedes_place h.precedes h.fresh, ?_, ?_, ?_, fun e he => ?_, fun e he => ?_⟩
  · exact hids.nodup_iff.2 (List.nodup_cons.2 ⟨hfree, h.nodup_ids⟩)
  · exact (hperm.map _).nodup_iff.2 (List.nodup_cons.2 ⟨hnew, h.nodup_handles⟩)
  · rw [Table.keys_insert, if_neg hid]
    exact (List.perm_append_singleton _ _).trans ((h.keys.cons t.id).trans hids.symm)
  · rw [Table.get?_insert]
    rcases List.mem_cons.1 (hperm.mem_iff.1 he) with rfl | he
    · exact if_pos rfl
    · rw [if_neg fun heq => hfree (List.mem_map.2 ⟨e, he, heq⟩)]
      exact h.points e he
  · rcases List.mem_cons.1 (hperm.mem_iff.1 he) with rfl | he
    · exact Nat.lt_succ_self _
    · exact Nat.lt_succ_of_lt (h.fresh e he)

theorem timers_arm? (h : ix.Consistent) (t : Timer) :
    (ix.arm? t).map (·.2.timers) = ix.timers.arm? t := by
  unfold Index.arm? Timers.arm?
  by_cases hid : ix.handles.contains t.id
  · rw [if_pos hid, if_pos (h.isArmed_iff.2 hid)]
    rfl
  · rw [if_neg hid, if_neg (mt h.isArmed_iff.1 hid)]
    exact congrArg (fun ts => some (Timers.mk ts)) (map_timer_place ..)

end Consistent

/-! ### Taking entries out -/

/-- Both indexes without some ids. -/
def without (ix : Index) (ids : List Bytes) : Index :=
  ⟨ix.entries.filter fun e => !ids.contains e.timer.id, ids.foldl Table.erase ix.handles, ix.next⟩

theorem entries_without (ix : Index) (ids : List Bytes) :
    (ix.without ids).entries = ix.entries.filter (·.timer.id ∉ ids) := by
  simp [without]

theorem map_id_without (ix : Index) (ids : List Bytes) :
    (ix.without ids).entries.map (·.timer.id) =
      (ix.entries.map (·.timer.id)).filter (· ∉ ids) := by
  rw [entries_without, List.filter_map]
  rfl

namespace Consistent

variable {ix : Index} {t : Timer} {id : Bytes} {now : Int}

theorem without (h : ix.Consistent) (ids : List Bytes) : (ix.without ids).Consistent := by
  have hsub : (ix.without ids).entries.Sublist ix.entries := List.filter_sublist
  refine ⟨h.precedes.sublist hsub, h.nodup_ids.sublist (hsub.map _),
    h.nodup_handles.sublist (hsub.map _), ?_, fun e he => ?_, fun e he => h.fresh e (hsub.subset he)⟩
  · rw [map_id_without]
    show (ids.foldl Table.erase ix.handles).keys.Perm _
    rw [keys_foldl_erase]
    exact h.keys.filter _
  · rw [entries_without] at he
    obtain ⟨hmem, hid⟩ := List.mem_filter.1 he
    show (ids.foldl Table.erase ix.handles).get? e.timer.id = _
    rw [get?_foldl_erase, if_neg (of_decide_eq_true hid)]
    exact h.points e hmem

/-- Without the id of an entry, that entry is gone and nothing else. -/
theorem count_without (h : ix.Consistent) {e : Entry} (he : e ∈ ix.entries) (id : Bytes) :
    (ix.entries.map (·.timer.id)).count id = [e.timer.id].count id +
      ((ix.without [e.timer.id]).entries.map (·.timer.id)).count id := by
  rw [map_id_without]
  by_cases hid : id = e.timer.id
  · subst hid
    have hone := List.count_eq_one_of_mem h.nodup_ids (List.mem_map_of_mem he)
    have hzero : e.timer.id ∉ (ix.entries.map (·.timer.id)).filter (· ∉ [e.timer.id]) := by
      simp
    rw [hone, List.count_eq_zero_of_not_mem hzero, List.count_singleton_self]
  · rw [List.count_filter (by simpa using hid), List.count_singleton, if_neg (by simpa using Ne.symm hid),
      Nat.zero_add]

/-- Handles tell entries apart as ids do. -/
theorem handle_eq_iff (h : ix.Consistent) {e f : Entry} (he : e ∈ ix.entries)
    (hf : f ∈ ix.entries) : e.handle = f.handle ↔ e.timer.id = f.timer.id := by
  constructor
  · intro heq
    rw [List.inj_on_of_nodup_map h.nodup_handles he hf heq]
  · intro heq
    rw [List.inj_on_of_nodup_map h.nodup_ids he hf heq]

/-- A handle leads to its entry. -/
theorem find?_handle (h : ix.Consistent) {e : Entry} (he : e ∈ ix.entries) :
    ix.entries.find? (·.handle = e.handle) = some e := by
  have hsome : (ix.entries.find? (·.handle = e.handle)).isSome :=
    List.find?_isSome.2 ⟨e, he, decide_eq_true rfl⟩
  obtain ⟨f, hf⟩ := Option.isSome_iff_exists.1 hsome
  have heq : f.handle = e.handle := by simpa using List.find?_some hf
  rw [hf, List.inj_on_of_nodup_map h.nodup_handles (List.mem_of_find?_eq_some hf) he heq]

/-- Cancelling follows a handle to the one entry of the id. -/
theorem cancel_cases (h : ix.Consistent) (id : Bytes) :
    (id ∉ ix.entries.map (·.timer.id) ∧ ix.cancel id = .absent) ∨
    ∃ e ∈ ix.entries, e.timer.id = id ∧ ix.cancel id = .entry e (ix.without [id]) := by
  by_cases hid : id ∈ ix.entries.map (·.timer.id)
  · obtain ⟨e, he, rfl⟩ := List.mem_map.1 hid
    have hfilter : ix.entries.filter (·.handle ≠ e.handle) =
        (ix.without [e.timer.id]).entries := by
      rw [entries_without]
      apply List.filter_congr
      intro f hf
      simp [h.handle_eq_iff hf he]
    refine .inr ⟨e, he, rfl, ?_⟩
    simp only [cancel, h.points e he, h.find?_handle he, hfilter]
    rfl
  · have hnone : ix.handles.get? id = none := by
      rw [Table.get?_eq_none_iff, Bool.eq_false_iff]
      exact mt h.contains_iff.1 hid
    exact .inl ⟨hid, by simp only [cancel, hnone]⟩

theorem timers_cancel? (h : ix.Consistent) {e : Entry} (he : e ∈ ix.entries) :
    ix.timers.cancel? e.timer.id = some (ix.without [e.timer.id]).timers := by
  have harmed : ix.timers.isArmed e.timer.id :=
    h.isArmed_iff.2 (h.contains_iff.2 (List.mem_map_of_mem he))
  rw [Timers.cancel?, if_pos harmed]
  simp [timers, Index.without, List.filter_map, Function.comp_def]

end Consistent

/-! ### Popping -/

theorem popFrom_eq (now : Int) (next : Nat) (es : List Entry) (handles : Table Bytes Nat) :
    popFrom now next es handles =
      let due := es.takeWhile fun e => isDue now e.timer
      (due, ⟨es.dropWhile fun e => isDue now e.timer,
        (due.map (·.timer.id)).foldl Table.erase handles, next⟩) := by
  induction es generalizing handles with
  | nil => rfl
  | cons e es ih =>
    unfold popFrom
    by_cases he : isDue now e.timer
    · simp [he, ih]
    · simp [he]

/-- What a pass takes out. -/
def due (ix : Index) (now : Int) : List Entry := ix.entries.takeWhile fun e => isDue now e.timer

theorem pop_fst (ix : Index) (now : Int) : (ix.pop now).1 = ix.due now := by
  rw [pop, popFrom_eq]
  rfl

theorem entries_pop (ix : Index) (now : Int) :
    ix.due now ++ (ix.pop now).2.entries = ix.entries := by
  rw [pop, popFrom_eq]
  exact List.takeWhile_append_dropWhile

@[simp] theorem next_pop (ix : Index) (now : Int) : (ix.pop now).2.next = ix.next := by
  rw [pop, popFrom_eq]

theorem map_timer_due (ix : Index) (now : Int) : (ix.due now).map (·.timer) = ix.timers.due now := by
  rw [due, Timers.due, timers, List.takeWhile_map]
  rfl

theorem timers_pop (ix : Index) (now : Int) : (ix.pop now).2.timers = ix.timers.later now := by
  rw [pop, popFrom_eq, timers, Timers.later, timers, List.dropWhile_map]
  rfl

/-- What a pass leaves is what has another id than all that it takes out. -/
theorem Consistent.pop_eq {ix : Index} (h : ix.Consistent) (now : Int) :
    ix.pop now = (ix.due now, ix.without ((ix.due now).map (·.timer.id))) := by
  have hsplit : ix.due now ++ (ix.entries.dropWhile fun e => isDue now e.timer) = ix.entries :=
    List.takeWhile_append_dropWhile
  have hdisjoint := h.nodup_ids
  rw [← hsplit, List.map_append] at hdisjoint
  have hlater : (ix.entries.dropWhile fun e => isDue now e.timer) =
      (ix.without ((ix.due now).map (·.timer.id))).entries := by
    rw [entries_without]
    conv_rhs => rw [← hsplit, List.filter_append]
    rw [List.filter_eq_nil_iff.2 fun e he => ?_, List.nil_append, List.filter_eq_self.2 fun e he => ?_]
    · exact decide_eq_true fun hm =>
        List.disjoint_of_nodup_append hdisjoint hm (List.mem_map_of_mem he)
    · simpa using ⟨e, he, rfl⟩
  rw [Index.pop, popFrom_eq, hlater]
  rfl

theorem Consistent.pop {ix : Index} (h : ix.Consistent) (now : Int) :
    (ix.pop now).2.Consistent := by
  rw [h.pop_eq]
  exact h.without _

end Index

end Interledger.Timers
