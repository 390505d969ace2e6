import Interledger.Proofs.Hub.Moves

/-! Custody of timers. Between two moves, every prepared transfer that was sent through an adaptor
and has an expiry has just one timer in all alarms together. It is in the alarm of the adaptor as
long as there is one, and among the adopted timers of the ledger afterwards. A move arms the timer
of a transfer that it sends, opens an adaptor without timers, hands those of one adaptor over to
the ledger, or only loses timers of transfers that are not prepared any more. -/

namespace Interledger

/-- Who holds the timers of an owner once an adaptor is gone. -/
def Owner.heir (k : Nat) (o : Owner) : Owner := if o = .adaptor k then .ledger else o

namespace Hub

open Ledger (Chronicle)

variable {η : Type} {h h' : Hub η} {now : Int} {k : Nat} {o : Owner} {tm : Timer}

/-! ### Who holds a timer -/

/-- An owner's alarm has a timer to come. -/
def Holds (h : Hub η) (o : Owner) (tm : Timer) : Prop :=
  ∃ a, h.alarm? o = some a ∧ tm ∈ a.timers.list

/-- Who answers for what was sent through an adaptor: the adaptor, as long as there is one. -/
def keeper (h : Hub η) (k : Nat) : Owner :=
  if h.adaptors.contains k then .adaptor k else .ledger

theorem contains_adaptor_iff : h.adaptors.contains k ↔ ∃ a, h.alarm? (.adaptor k) = some a := by
  rw [← Option.isSome_iff_exists, alarm?, Option.isSome_map]
  rfl

theorem keeper_congr (hk : h'.adaptors.contains k = h.adaptors.contains k) :
    h'.keeper k = h.keeper k := by
  rw [keeper, keeper, hk]

/-- The alarms of a hub between two moves. No two owners have timers of one id. -/
structure Tidy (h : Hub η) : Prop where
  nodup_keys : h.adaptors.keys.Nodup
  lt_nextKey : ∀ k ∈ h.adaptors.keys, k < h.nextKey
  ready : ∀ o a, h.alarm? o = some a → a.Ready
  awake : ∀ k a, h.alarm? (.adaptor k) = some a → a.running
  known : ∀ o tm, h.Holds o tm → h.ledger.book.contains tm.id
  single : ∀ o o' tm tm', h.Holds o tm → h.Holds o' tm' → tm.id = tm'.id → o = o'

/-- A transfer that was sent through an adaptor is watched for its expiry while it is prepared. -/
structure Guards (h : Hub η) (k : Nat) (t : Transfer) : Prop where
  lt_nextKey : k < h.nextKey
  known : h.ledger.book.contains t.id
  held : ∀ e, t.expiresAt = some e → h.ledger.book.stateOf? t.id = some .prepared →
    h.Holds (h.keeper k) ⟨t.id, e⟩

/-- No transfer that was known is prepared anew, and what is still prepared keeps its timer. -/
structure Keeps (h h' : Hub η) : Prop where
  nextKey : h.nextKey ≤ h'.nextKey
  known : ∀ id, h.ledger.book.contains id → h'.ledger.book.contains id
  prepared : ∀ id, h.ledger.book.contains id → h'.ledger.book.stateOf? id = some .prepared →
    h.ledger.book.stateOf? id = some .prepared
  held : ∀ k, k < h.nextKey → ∀ tm, h.Holds (h.keeper k) tm →
    h'.ledger.book.stateOf? tm.id = some .prepared → h'.Holds (h'.keeper k) tm

theorem Guards.keep {t : Transfer} (hg : h.Guards k t) (hk : h.Keeps h') : h'.Guards k t where
  lt_nextKey := Nat.lt_of_lt_of_le hg.lt_nextKey hk.nextKey
  known := hk.known _ hg.known
  held e hx hp := hk.held k hg.lt_nextKey _ (hg.held e hx (hk.prepared _ hg.known hp)) hp

theorem tidy_make (l : Ledger) (hl : l.adopted = .make l.adopted.name) : (make l : Hub η).Tidy := by
  have hnone : ∀ o tm, ¬(make l : Hub η).Holds o tm := by
    rintro o tm ⟨a, ha, hm⟩
    cases o with
    | ledger =>
      obtain rfl : l.adopted = a := Option.some.inj ha
      rw [hl] at hm
      cases hm
    | adaptor k => cases ha
  refine ⟨List.nodup_nil, nofun, fun o a ha => ?_, nofun, fun o tm hm => absurd hm (hnone o tm),
    fun o o' tm tm' hm => absurd hm (hnone o tm)⟩
  cases o with
  | ledger =>
    obtain rfl : l.adopted = a := Option.some.inj ha
    rw [hl]
    exact .make _
  | adaptor k => cases ha

namespace Tidy

theorem nextKey_free (ht : h.Tidy) : h.adaptors.contains h.nextKey = false := by
  rw [← Bool.not_eq_true, Table.contains_iff_mem_keys]
  exact fun hm => Nat.lt_irrefl _ (ht.lt_nextKey _ hm)

/-- There are no timers of an unknown id. -/
theorem fresh (ht : h.Tidy) {id : Bytes} (hid : h.ledger.book.contains id = false) {a : Alarm}
    (ha : h.alarm? o = some a) : id ∉ a.timers.list.map (·.id) := by
  intro hmem
  obtain ⟨tm, hm, rfl⟩ := List.mem_map.1 hmem
  rw [ht.known o tm ⟨a, ha, hm⟩] at hid
  cases hid

theorem idle (ht : h.Tidy) (o : Owner) : h.owes o = [] := by
  unfold owes
  cases ha : h.alarm? o with
  | none => rfl
  | some a => exact (ht.ready o a ha).idle

end Tidy

/-! ### Calls and passes -/

/-- The timer that a step arms, with the adaptor. -/
def Step.arming (h : Hub η) (now : Int) : Step η → Option (Nat × Timer)
  | sendTransfer k t => (h.arms? now k t).map fun tm => (k, tm)
  | _ => none

/-- An owner's alarm once a timer is armed for an adaptor. -/
def arm (new : Option (Nat × Timer)) (o : Owner) (a : Alarm) : Alarm :=
  new.elim a fun n => if o = .adaptor n.1 then (a.schedule n.2).2 else a

theorem tend_of_isCall {s : Step η} (hc : s.isCall) (h : Hub η) (now : Int) (o : Owner) (a : Alarm) :
    s.tend h now o a = arm (s.arming h now) o a := by
  cases s with
  | ledger s =>
    cases o with
    | ledger => cases s <;> first | rfl | cases hc
    | adaptor k => rfl
  | sendTransfer j t =>
    cases o with
    | ledger =>
      simp only [Step.tend, Step.arming, arm]
      cases h.arms? now j t <;> rfl
    | adaptor k =>
      simp only [Step.tend, Step.arming, arm]
      cases h.arms? now j t with
      | none => exact ite_self a
      | some tm => simp only [Option.elim_some, Option.map_some, Owner.adaptor.injEq]
  | passTimers | fireTimer | haltTimers | drainTimers | closeCourier | remove => cases hc
  | _ => cases o <;> rfl

/-- An alarm with the same worker and only timers that it had; those of prepared transfers are
all there. -/
structure Thinner (b : Book) (a a' : Alarm) : Prop where
  sublist : a'.timers.list.Sublist a.timers.list
  dropped : ∀ tm ∈ a.timers.list, tm ∈ a'.timers.list ∨ b.stateOf? tm.id ≠ some .prepared
  batch : a'.batch = a.batch
  running : a'.running = a.running

theorem thinner_without {b : Book} {ids : List Bytes} (hids : ∀ id ∈ ids, b.IsOver id) (a : Alarm) :
    Thinner b a (a.without ids) where
  sublist := List.filter_sublist
  dropped tm hm := by
    by_cases hid : tm.id ∈ ids
    · exact .inr (hids _ hid).ne_prepared
    · exact .inl (Alarm.mem_without.2 ⟨hm, hid⟩)
  batch := rfl
  running := rfl

/-- The same adaptors with the same workers. One timer may be armed, no known transfer is prepared
anew, and none that is prepared has lost its timer. -/
structure Thins (h h' : Hub η) (new : Option (Nat × Timer)) : Prop where
  keys : h'.adaptors.keys = h.adaptors.keys
  nextKey : h'.nextKey = h.nextKey
  alarm : ∀ o, Option.Rel (Thinner h'.ledger.book) ((h.alarm? o).map (arm new o)) (h'.alarm? o)
  known : ∀ id, h.ledger.book.contains id → h'.ledger.book.contains id
  prepared : ∀ id, h.ledger.book.contains id → h'.ledger.book.stateOf? id = some .prepared →
    h.ledger.book.stateOf? id = some .prepared

theorem Thins.refl (h : Hub η) : h.Thins h none := by
  refine ⟨rfl, rfl, fun o => ?_, fun _ hid => hid, fun _ _ hp => hp⟩
  cases h.alarm? o with
  | none => exact .none
  | some a => exact .some ⟨.refl _, fun _ hm => .inl hm, rfl, rfl⟩

/-- A step forgets no id, and prepares no transfer under one that is known. -/
theorem states_perform (hq : h.Quiet) (hs : h.ledger.Sound) (now : Int) (s : Step η) {id : Bytes}
    (hid : h.ledger.book.contains id) : (s.perform now h).2.ledger.book.contains id ∧
      ((s.perform now h).2.ledger.book.stateOf? id = some .prepared →
        h.ledger.book.stateOf? id = some .prepared) := by
  rw [(perform_effect hq now s).ledger_eq]
  cases s.call? h with
  | none => exact ⟨hid, fun hp => hp⟩
  | some c =>
    show (c.perform now h.ledger).2.book.contains id ∧
      ((c.perform now h.ledger).2.book.stateOf? id = some .prepared → _)
    rw [Book.contains_eq_isSome_stateOf?]
    rcases (Ledger.perform_effect hs now c).stateOf?_cases id with
      heq | ⟨t, -, -, hnew, -⟩ | ⟨t, e, answer, u, -, -, hst⟩
    · rw [heq, ← Book.contains_eq_isSome_stateOf?]
      exact ⟨hid, fun hp => hp⟩
    · rw [hid] at hnew
      cases hnew
    · rw [hst]
      refine ⟨rfl, fun hp => ?_⟩
      cases e <;> cases hp

theorem thins_call (hq : h.Quiet) (hs : h.ledger.Sound) (now : Int) {s : Step η} (hc : s.isCall)
    (hopen : ∀ a, s ≠ .openAdaptor a) : h.Thins (s.perform now h).2 (s.arming h now) := by
  have hremove : ∀ k, s ≠ .remove k := by
    rintro k rfl
    cases hc
  obtain ⟨_, _, hkeys⟩ := perform_clears hq hs now hopen hremove
  refine ⟨hkeys.keys, hkeys.nextKey, fun o => ?_, fun id hid => (states_perform hq hs now s hid).1,
    fun id hid => (states_perform hq hs now s hid).2⟩
  have hturn := turn_perform hq hs now s o
  generalize h.alarm? o = x at hturn ⊢
  generalize (s.perform now h).2.alarm? o = x' at hturn ⊢
  cases hturn with
  | opened account => exact absurd rfl (hopen account)
  | removed k => exact absurd rfl (hremove k)
  | tended _ hids =>
    simp only [tend_of_isCall hc]
    cases x with
    | none => exact .none
    | some a => exact .some (thinner_without hids _)

theorem pass_of_none (ho : h.alarm? o = none) (now : Int) : h.pass now o = h := by
  cases o with
  | ledger => cases ho
  | adaptor k =>
    have hk : h.adaptors.get? k = none := Option.map_eq_none_iff.1 ho
    have hpass : h.passTimers now k = h := by
      rw [passTimers, modifyAdaptor, Table.modify_of_get?_eq_none hk]
    show (h.passTimers now k).fireOwed now k = h
    rw [hpass, fireOwed, owed, hk]
    rfl

/-- A pass loses only timers of transfers that are not prepared any more. -/
theorem thins_pass (hq : h.Quiet) (hs : h.ledger.Sound) (ht : h.Tidy) (now : Int) (o : Owner) :
    h.Thins (h.pass now o) none := by
  cases ha : h.alarm? o with
  | none =>
    rw [pass_of_none ha]
    exact .refl h
  | some a =>
  obtain ⟨hw, hst⟩ := works_pass hq hs now ha (ht.ready o a ha)
  refine ⟨hw.keys, hw.nextKey, fun p => ?_, fun id hid => (hst.contains_eq id).trans hid,
    fun id _ hp => (hst.prepared hp).1⟩
  by_cases hp : p = o
  · subst hp
    obtain ⟨ids, hids, hown⟩ := hw.own
    rw [hown, ha, Option.map_some]
    refine .some ⟨?_, fun tm hm => ?_, rfl, rfl⟩
    · exact List.filter_sublist.trans (List.dropWhile_sublist _)
    · change tm ∈ a.timers.list at hm
      rw [← Timers.due_append_later a.timers now] at hm
      rcases List.mem_append.1 hm with hm | hm
      · exact .inr fun hp => (hst.prepared hp).2 (List.mem_map_of_mem hm)
      · by_cases hid : tm.id ∈ ids
        · exact .inr (hids _ hid).ne_prepared
        · exact .inl (Alarm.mem_without.2 ⟨hm, hid⟩)
  · obtain ⟨ids, hids, hother⟩ := hw.others p hp
    rw [hother]
    cases h.alarm? p with
    | none => exact .none
    | some b => exact .some (thinner_without hids b)

/-- A timer of an unknown id is armed beside those that were there. -/
theorem Tidy.arm (ht : h.Tidy) {new : Option (Nat × Timer)}
    (hnew : ∀ n, new = some n → h.ledger.book.contains n.2.id = false) {a : Alarm}
    (ha : h.alarm? o = some a) : (arm new o a).Ready ∧ (arm new o a).running = a.running ∧
      ∀ tm, tm ∈ (arm new o a).timers.list ↔
        tm ∈ a.timers.list ∨ ∃ k, o = .adaptor k ∧ new = some (k, tm) := by
  have hr := ht.ready o a ha
  cases new with
  | none => exact ⟨hr, rfl, by simp [Hub.arm]⟩
  | some n =>
    obtain ⟨k, tm⟩ := n
    by_cases ho : o = .adaptor k
    · subst ho
      have hawake := ht.awake k a ha
      obtain ⟨-, hready, hrun, hperm⟩ := hr.schedule hawake (ht.fresh (hnew _ rfl) ha)
      rw [Hub.arm, Option.elim_some, if_pos rfl]
      refine ⟨hready, hrun.trans hawake.symm, fun u => ?_⟩
      rw [hperm.mem_iff]
      simp [or_comm, eq_comm]
    · rw [Hub.arm, Option.elim_some, if_neg ho]
      refine ⟨hr, rfl, fun u => ?_⟩
      have hne : ∀ j, o = .adaptor j → (some (k, tm) : Option (Nat × Timer)) ≠ some (j, u) := by
        rintro j rfl heq
        cases heq
        exact ho rfl
      grind

namespace Thins

variable {new : Option (Nat × Timer)}

theorem exists_alarm (hx : h.Thins h' new) {a' : Alarm} (ha' : h'.alarm? o = some a') :
    ∃ a, h.alarm? o = some a ∧ Thinner h'.ledger.book (arm new o a) a' := by
  have hrel := hx.alarm o
  rw [ha'] at hrel
  cases ha : h.alarm? o with
  | none =>
    rw [ha] at hrel
    cases hrel
  | some a =>
    rw [ha] at hrel
    cases hrel with
    | some ht => exact ⟨a, rfl, ht⟩

/-- A timer that is there afterwards was there before, or is armed just now. -/
theorem holds_before (hx : h.Thins h' new) (ht : h.Tidy)
    (hnew : ∀ n, new = some n → h.ledger.book.contains n.2.id = false) (hm : h'.Holds o tm) :
    h.Holds o tm ∨ ∃ k, o = .adaptor k ∧ new = some (k, tm) := by
  obtain ⟨a', ha', hm⟩ := hm
  obtain ⟨a, ha, hthin⟩ := hx.exists_alarm ha'
  exact (((ht.arm hnew ha).2.2 tm).1 (hthin.sublist.subset hm)).imp_left fun hm => ⟨a, ha, hm⟩

/-- The timers of prepared transfers stay, and the new one is there. -/
theorem holds_after (hx : h.Thins h' new) (ht : h.Tidy)
    (hnew : ∀ n, new = some n → h.ledger.book.contains n.2.id = false) {a : Alarm}
    (ha : h.alarm? o = some a) (hm : tm ∈ a.timers.list ∨ ∃ k, o = .adaptor k ∧ new = some (k, tm))
    (hp : h'.ledger.book.stateOf? tm.id = some .prepared) : h'.Holds o tm := by
  have hm := ((ht.arm hnew ha).2.2 tm).2 hm
  have hrel := hx.alarm o
  rw [ha] at hrel
  generalize hx' : h'.alarm? o = x' at hrel
  cases hrel with
  | some hthin => exact ⟨_, hx', (hthin.dropped tm hm).resolve_right fun hn => hn hp⟩

theorem tidy (hx : h.Thins h' new) (ht : h.Tidy)
    (hnew : ∀ n, new = some n → h.ledger.book.contains n.2.id = false)
    (hafter : ∀ n, new = some n → h'.ledger.book.contains n.2.id) : h'.Tidy where
  nodup_keys := hx.keys ▸ ht.nodup_keys
  lt_nextKey := by
    rw [hx.keys, hx.nextKey]
    exact ht.lt_nextKey
  ready o a' ha' := by
    obtain ⟨a, ha, hthin⟩ := hx.exists_alarm ha'
    exact (ht.arm hnew ha).1.sublist hthin.sublist hthin.batch hthin.running
  awake k a' ha' := by
    obtain ⟨a, ha, hthin⟩ := hx.exists_alarm ha'
    rw [hthin.running, (ht.arm hnew ha).2.1]
    exact ht.awake k a ha
  known o tm hm := by
    rcases hx.holds_before ht hnew hm with hm | ⟨k, -, hn⟩
    · exact hx.known _ (ht.known o tm hm)
    · exact hafter _ hn
  single o o' tm tm' hm hm' hid := by
    rcases hx.holds_before ht hnew hm with hm | ⟨k, rfl, hn⟩
    · rcases hx.holds_before ht hnew hm' with hm' | ⟨k', rfl, hn'⟩
      · exact ht.single o o' tm tm' hm hm' hid
      · have hfresh := hnew _ hn'
        rw [← hid, ht.known o tm hm] at hfresh
        cases hfresh
    · rcases hx.holds_before ht hnew hm' with hm' | ⟨k', rfl, hn'⟩
      · have hfresh := hnew _ hn
        rw [hid, ht.known o' tm' hm'] at hfresh
        cases hfresh
      · rw [hn] at hn'
        cases hn'
        rfl

theorem contains_eq (hx : h.Thins h' new) (k : Nat) :
    h'.adaptors.contains k = h.adaptors.contains k := by
  rw [Bool.eq_iff_iff, Table.contains_iff_mem_keys, Table.contains_iff_mem_keys, hx.keys]

theorem keeps (hx : h.Thins h' new) (ht : h.Tidy)
    (hnew : ∀ n, new = some n → h.ledger.book.contains n.2.id = false) : h.Keeps h' where
  nextKey := Nat.le_of_eq hx.nextKey.symm
  known := hx.known
  prepared := hx.prepared
  held k _ tm hm hp := by
    obtain ⟨a, ha, hm⟩ := hm
    rw [keeper_congr (hx.contains_eq k)]
    exact hx.holds_after ht hnew ha (.inl hm) hp

end Thins

/-! ### Adaptors that come and go -/

/-- There is one adaptor more, with an alarm that has no timers. -/
structure Opens (h h' : Hub η) (name : Bytes) : Prop where
  ledger : h'.ledger = h.ledger
  keys : h'.adaptors.keys = h.adaptors.keys ++ [h.nextKey]
  nextKey : h'.nextKey = h.nextKey + 1
  alarm : ∀ o, h'.alarm? o =
    if o = .adaptor h.nextKey then some (Alarm.make name).start else h.alarm? o

theorem openAdaptor_cases (ht : h.Tidy) (account : Address) :
    (h.openAdaptor account).2 = h ∨ h.Opens (h.openAdaptor account).2 account.text := by
  unfold openAdaptor Adaptor.make
  split
  next a ha =>
    split at ha
    · cases ha
    cases ha
    refine .inr ⟨rfl, ?_, rfl, fun o => ?_⟩
    · show (Table.insert _ _ _).keys = _
      rw [Table.keys_insert, ht.nextKey_free]
      rfl
    · cases o with
      | ledger => rfl
      | adaptor j =>
        simp only [alarm?, Table.get?_insert, Owner.adaptor.injEq]
        split <;> rfl
  · exact .inl rfl

namespace Opens

variable {name : Bytes}

theorem holds_iff (hx : h.Opens h' name) (ht : h.Tidy) : h'.Holds o tm ↔ h.Holds o tm := by
  rw [Holds, Holds, hx.alarm]
  by_cases ho : o = .adaptor h.nextKey
  · have hnone : h.alarm? o = none := by
      rw [ho, ← Option.not_isSome_iff_eq_none, Option.isSome_iff_exists, ← contains_adaptor_iff,
        ht.nextKey_free]
      exact Bool.false_ne_true
    rw [if_pos ho, hnone]
    constructor
    · rintro ⟨a, ha, hm⟩
      cases ha
      cases hm
    · rintro ⟨a, ha, -⟩
      cases ha
  · rw [if_neg ho]

theorem tidy (hx : h.Opens h' name) (ht : h.Tidy) : h'.Tidy where
  nodup_keys := by
    rw [hx.keys]
    refine List.nodup_append.2 ⟨ht.nodup_keys, List.nodup_singleton _, fun j hj i hi heq => ?_⟩
    have := ht.lt_nextKey j hj
    rw [heq, List.mem_singleton.1 hi] at this
    exact Nat.lt_irrefl _ this
  lt_nextKey j hj := by
    rw [hx.keys] at hj
    rw [hx.nextKey]
    rcases List.mem_append.1 hj with hj | hj
    · exact Nat.lt_succ_of_lt (ht.lt_nextKey j hj)
    · rw [List.mem_singleton.1 hj]
      exact Nat.lt_succ_self _
  ready o a ha := by
    rw [hx.alarm] at ha
    split at ha
    · cases ha
      exact (Alarm.Ready.make name).start.1
    · exact ht.ready o a ha
  awake j a ha := by
    rw [hx.alarm] at ha
    split at ha
    · cases ha
      exact (Alarm.Ready.make name).start.2
    · exact ht.awake j a ha
  known o tm hm := by
    rw [hx.ledger]
    exact ht.known o tm ((hx.holds_iff ht).1 hm)
  single o o' tm tm' hm hm' :=
    ht.single o o' tm tm' ((hx.holds_iff ht).1 hm) ((hx.holds_iff ht).1 hm')

theorem keeper (hx : h.Opens h' name) (hk : k < h.nextKey) : h'.keeper k = h.keeper k := by
  refine keeper_congr ?_
  rw [Bool.eq_iff_iff, Table.contains_iff_mem_keys, Table.contains_iff_mem_keys, hx.keys,
    List.mem_append, List.mem_singleton]
  exact or_iff_left (Nat.ne_of_lt hk)

theorem keeps (hx : h.Opens h' name) (ht : h.Tidy) : h.Keeps h' where
  nextKey := hx.nextKey ▸ Nat.le_succ _
  known id hid := hx.ledger ▸ hid
  prepared id _ hp := hx.ledger ▸ hp
  held k hk tm hm _ := by
    rw [hx.keeper hk]
    exact (hx.holds_iff ht).2 hm

end Opens

/-- What an adaptor has to hand over is adopted beside what the ledger has adopted before. -/
theorem Tidy.adopts (ht : h.Tidy) {ts : List Timer} (hts : ts.Sublist (h.handed k)) :
    (h.ledger.adopted.adoptAll ts).Ready ∧
      (h.ledger.adopted.adoptAll ts).timers.list.Perm (ts ++ h.ledger.adopted.timers.list) := by
  have hnodup : ((h.handed k).map (·.id)).Nodup := by
    rw [handed_eq]
    cases ha : h.alarm? (.adaptor k) with
    | none => exact List.nodup_nil
    | some a => exact (ht.ready _ a ha).nodup_ids
  refine (ht.ready .ledger _ rfl).adoptAll (hnodup.sublist (hts.map _)) fun tm hm hid => ?_
  obtain ⟨u, hu, hid⟩ := List.mem_map.1 hid
  have howner : Owner.ledger = .adaptor k :=
    ht.single .ledger (.adaptor k) u tm ⟨_, rfl, hu⟩ (mem_handed_iff.1 (hts.subset hm)) hid
  cases howner

/-- An adaptor is gone, and whoever held a timer has left it to its heir. -/
theorem holds_destroy (hq : h.Quiet) (ht : h.Tidy) (now : Int) :
    ((h.retire now k).remove k).Holds o tm ↔ ∃ p, p.heir k = o ∧ h.Holds p tm := by
  obtain ⟨-, -, -, hledger, hadaptors⟩ := destroy_spec hq now (ht.idle (.adaptor k))
  cases o with
  | ledger =>
    have hperm := (ht.adopts (List.Sublist.refl (h.handed k))).2
    have hmem : ((h.retire now k).remove k).Holds .ledger tm ↔
        tm ∈ h.handed k ∨ tm ∈ h.ledger.adopted.timers.list := by
      rw [Holds, hledger, ← List.mem_append, ← hperm.mem_iff]
      simp
    rw [hmem, mem_handed_iff]
    constructor
    · rintro (hm | hm)
      · exact ⟨.adaptor k, if_pos rfl, hm⟩
      · exact ⟨.ledger, rfl, _, rfl, hm⟩
    · rintro ⟨p, hp, hm⟩
      unfold Owner.heir at hp
      split at hp
      next heq => exact .inl (heq ▸ hm)
      · subst hp
        obtain ⟨a, ha, hm⟩ := hm
        cases ha
        exact .inr hm
  | adaptor j =>
    rw [Holds, hadaptors]
    constructor
    · rintro ⟨a, ha, hm⟩
      split at ha
      · cases ha
      next hj =>
        exact ⟨.adaptor j, if_neg fun heq => hj (Owner.adaptor.inj heq), a, ha, hm⟩
    · rintro ⟨p, hp, hm⟩
      unfold Owner.heir at hp
      split at hp
      · cases hp
      next hne =>
        subst hp
        rwa [if_neg fun hj => hne (congrArg _ hj)]

theorem Tidy.destroy (hq : h.Quiet) (ht : h.Tidy) (now : Int) (k : Nat) :
    ((h.retire now k).remove k).Tidy := by
  obtain ⟨hkeys, hnext, hbook, hledger, hadaptors⟩ := destroy_spec hq now (ht.idle (.adaptor k))
  refine ⟨?_, fun j hj => ?_, fun o a ha => ?_, fun j a ha => ?_, fun o tm hm => ?_,
    fun o o' tm tm' hm hm' hid => ?_⟩
  · rw [hkeys]
    exact ht.nodup_keys.filter _
  · rw [hkeys] at hj
    rw [hnext]
    exact ht.lt_nextKey j (List.mem_of_mem_filter hj)
  · cases o with
    | ledger =>
      rw [hledger] at ha
      cases ha
      exact (ht.adopts (List.Sublist.refl _)).1
    | adaptor j =>
      rw [hadaptors] at ha
      split at ha
      · cases ha
      · exact ht.ready _ a ha
  · rw [hadaptors] at ha
    split at ha
    · cases ha
    · exact ht.awake j a ha
  · obtain ⟨p, -, hm⟩ := (holds_destroy hq ht now).1 hm
    rw [hbook]
    exact ht.known p tm hm
  · obtain ⟨p, rfl, hold⟩ := (holds_destroy hq ht now).1 hm
    obtain ⟨p', rfl, hold'⟩ := (holds_destroy hq ht now).1 hm'
    rw [ht.single p p' tm tm' hold hold' hid]

/-- What was sent through the adaptor is answered for by its heir. -/
theorem keeper_destroy (hq : h.Quiet) (ht : h.Tidy) (now : Int) (k j : Nat) :
    ((h.retire now k).remove k).keeper j = (h.keeper j).heir k := by
  obtain ⟨hkeys, -⟩ := destroy_spec hq now (ht.idle (.adaptor k))
  have hcontains : ((h.retire now k).remove k).adaptors.contains j ↔
      h.adaptors.contains j ∧ j ≠ k := by
    rw [Table.contains_iff_mem_keys, Table.contains_iff_mem_keys, hkeys, List.mem_filter,
      decide_eq_true_iff]
  unfold keeper Owner.heir
  by_cases hj : h.adaptors.contains j
  · by_cases hjk : j = k
    · rw [if_neg fun hn => (hcontains.1 hn).2 hjk, if_pos hj, if_pos (congrArg _ hjk)]
    · rw [if_pos (hcontains.2 ⟨hj, hjk⟩), if_pos hj,
        if_neg fun heq => hjk (Owner.adaptor.inj heq)]
  · rw [if_neg fun hn => hj (hcontains.1 hn).1, if_neg hj]
    rfl

theorem keeps_destroy (hq : h.Quiet) (ht : h.Tidy) (now : Int) (k : Nat) :
    h.Keeps ((h.retire now k).remove k) := by
  obtain ⟨-, hnext, hbook, -⟩ := destroy_spec hq now (ht.idle (.adaptor k))
  refine ⟨Nat.le_of_eq hnext.symm, fun id hid => hbook ▸ hid, fun id _ hp => hbook ▸ hp,
    fun j _ tm hm _ => ?_⟩
  rw [keeper_destroy hq ht]
  exact (holds_destroy hq ht now).2 ⟨_, rfl, hm⟩

/-! ### Moves -/

/-- What is sent is guarded from then on. -/
theorem guards_of_sent (hq : h.Quiet) (hs : h.ledger.Sound) (ht : h.Tidy) (now : Int) {t : Transfer}
    {st : TransferState} (hcall : (Step.sendTransfer k t).call? h = some (.prepare t))
    (hp : (h.ledger.prepare now t).1 = .ok st) : (h.sendTransfer now k t).2.Guards k t := by
  have hx : h.Thins (h.sendTransfer now k t).2 ((Step.sendTransfer k t).arming h now) :=
    thins_call (s := .sendTransfer k t) hq hs now rfl fun _ => nofun
  have hbook : (h.sendTransfer now k t).2.ledger.book = (h.ledger.prepare now t).2.book := by
    have hledger := (perform_effect hq now (.sendTransfer k t)).ledger_eq
    rw [hcall] at hledger
    exact congrArg (·.book) hledger
  obtain ⟨hfresh, hstate⟩ := Ledger.state_of_prepare hp
  obtain ⟨a, ha, -⟩ := Option.bind_eq_some_iff.1 hcall
  have ha : h.alarm? (.adaptor k) = some a.alarm := by
    rw [alarm?, (acting?_eq_some.1 ha).1]
    rfl
  have hk : h.adaptors.contains k := contains_adaptor_iff.2 ⟨_, ha⟩
  refine ⟨?_, ?_, fun e hexp hprep => ?_⟩
  · rw [hx.nextKey]
    exact ht.lt_nextKey k (Table.contains_iff_mem_keys.1 hk)
  · rw [hbook, Book.contains_eq_isSome_stateOf?, hstate]
    rfl
  · rw [hbook, hstate] at hprep
    obtain rfl : st = .prepared := Option.some.inj hprep
    have harms : h.arms? now k t = some ⟨t.id, e⟩ := arms?_eq_some_iff.2 ⟨hcall, hp, hexp, rfl⟩
    have harming : (Step.sendTransfer k t).arming h now = some (k, ⟨t.id, e⟩) := by
      rw [Step.arming, harms]
      rfl
    rw [harming] at hx
    rw [keeper_congr (hx.contains_eq k), keeper, if_pos hk]
    refine hx.holds_after ht ?_ ha (.inr ⟨k, rfl, rfl⟩) (by rw [hbook, hstate])
    rintro n ⟨rfl⟩
    exact hfresh

/-- A timer is armed for an id that was unknown and is known from then on. -/
theorem known_of_arming (hq : h.Quiet) (hs : h.ledger.Sound) (ht : h.Tidy) {s : Step η}
    {n : Nat × Timer} (hn : s.arming h now = some n) : h.ledger.book.contains n.2.id = false ∧
      (s.perform now h).2.ledger.book.contains n.2.id := by
  cases s with
  | sendTransfer k t =>
    obtain ⟨tm, harms, rfl⟩ := Option.map_eq_some_iff.1 hn
    obtain ⟨hcall, hp, -, hid⟩ := arms?_eq_some_iff.1 harms
    rw [hid]
    exact ⟨(Ledger.state_of_prepare hp).1, (guards_of_sent hq hs ht now hcall hp).known⟩
  | _ => cases hn

/-- The alarms are in order, and all that was sent is guarded. -/
structure Watch.Guarded (w : Watch η) : Prop where
  tidy : w.hub.Tidy
  guards : ∀ k t, (k, t) ∈ w.sent → w.hub.Guards k t

/-- Each move keeps that. -/
theorem Watch.Guarded.next {w : Watch η} (hw : w.Guarded) (hq : w.hub.Quiet)
    (hs : w.hub.ledger.Sound) (now : Int) (m : Move η) : (w.next now m).Guarded := by
  obtain ⟨ht, hg⟩ := hw
  -- All that is left to see of a move is that it keeps the alarms in order, and the timers of
  -- what was sent before.
  have hnext : (m.perform now w.hub).Tidy ∧ w.hub.Keeps (m.perform now w.hub) := by
    cases m with
    | call s hc =>
      by_cases hopen : ∃ a, s = .openAdaptor a
      · obtain ⟨account, rfl⟩ := hopen
        rcases openAdaptor_cases ht account with heq | hx
        · have hsame : Move.perform now w.hub (.call (.openAdaptor account) hc) = w.hub := heq
          rw [hsame]
          exact ⟨ht, (Thins.refl w.hub).keeps ht nofun⟩
        · exact ⟨hx.tidy ht, hx.keeps ht⟩
      · have hx := thins_call hq hs now hc fun a ha => hopen ⟨a, ha⟩
        have hnew := fun n (hn : s.arming w.hub now = some n) => known_of_arming hq hs ht hn
        exact ⟨hx.tidy ht (fun n hn => (hnew n hn).1) fun n hn => (hnew n hn).2,
          hx.keeps ht fun n hn => (hnew n hn).1⟩
    | pass o =>
      have hx := thins_pass hq hs ht now o
      exact ⟨hx.tidy ht nofun nofun, hx.keeps ht nofun⟩
    | destroy k => exact ⟨ht.destroy hq now k, keeps_destroy hq ht now k⟩
  refine ⟨hnext.1, fun k t hm => ?_⟩
  rcases List.mem_append.1 hm with hm | hm
  · exact (hg k t hm).keep hnext.2
  · obtain ⟨hc, rfl, st, hcall, hp⟩ := Move.sends_cases hm
    exact guards_of_sent hq hs ht now hcall hp

theorem Watch.guarded_run {info : LedgerInfo} {l : Ledger} (hl : Ledger.make info = .ok l)
    (moves : List (Int × Move η)) : (Watch.run l moves).Guarded := by
  induction moves using List.reverseRecOn with
  | nil => exact ⟨tidy_make l (by rw [Ledger.make_eq_ok hl]; rfl), nofun⟩
  | append_singleton moves m ih =>
    rw [run_concat]
    exact ih.next (quiet_run hl moves) (sound_run hl moves) m.1 m.2

/-! ### Escrow is never stuck -/

/-- The timers to come in all alarms together, with their owners. -/
def armed (h : Hub η) : List (Owner × Timer) :=
  (h.ledger.adopted.timers.list.map fun tm => (.ledger, tm)) ++
    h.adaptors.entries.flatMap fun e => e.2.alarm.timers.list.map fun tm => (.adaptor e.1, tm)

theorem mem_armed_iff (ht : h.Tidy) : (o, tm) ∈ h.armed ↔ h.Holds o tm := by
  simp only [armed, List.mem_append, List.mem_map, List.mem_flatMap, Prod.mk.injEq]
  cases o with
  | ledger => simp [Holds, alarm?]
  | adaptor k =>
    simp only [Holds, alarm?, Option.map_eq_some_iff, Table.get?_eq_some_iff ht.nodup_keys]
    constructor
    · rintro (⟨_, _, heq, -⟩ | ⟨⟨j, x⟩, hx, _, hm, heq, rfl⟩)
      · cases heq
      · cases heq
        exact ⟨_, ⟨x, hx, rfl⟩, hm⟩
    · rintro ⟨_, ⟨x, hx, rfl⟩, hm⟩
      exact .inr ⟨(k, x), hx, tm, hm, rfl, rfl⟩

theorem nodup_armed (ht : h.Tidy) : h.armed.Nodup := by
  have hone : ∀ o a, h.alarm? o = some a → (a.timers.list.map fun tm => (o, tm)).Nodup :=
    fun o a ha => (ht.ready o a ha).nodup_ids.of_map.map (Prod.mk_right_injective o)
  refine List.nodup_append.2 ⟨hone .ledger _ rfl, List.nodup_flatMap.2 ⟨fun e he => ?_, ?_⟩, ?_⟩
  · have hget := (Table.get?_eq_some_iff ht.nodup_keys).2 he
    exact hone (.adaptor e.1) e.2.alarm (by rw [alarm?, hget]; rfl)
  · refine (List.pairwise_map.1 ht.nodup_keys).imp fun hne => ?_
    intro x hx hx'
    obtain ⟨_, -, rfl⟩ := List.mem_map.1 hx
    obtain ⟨_, -, heq⟩ := List.mem_map.1 hx'
    exact hne (Owner.adaptor.inj (congrArg Prod.fst heq).symm)
  · intro x hx y hy heq
    obtain ⟨_, -, rfl⟩ := List.mem_map.1 hx
    obtain ⟨_, -, hy⟩ := List.mem_flatMap.1 hy
    obtain ⟨_, -, rfl⟩ := List.mem_map.1 hy
    cases heq

/-- A timer is the only one of its id. -/
theorem armed_filter (ht : h.Tidy) (hm : h.Holds o tm) :
    h.armed.filter (·.2.id = tm.id) = [(o, tm)] := by
  refine List.perm_singleton.1 ((List.perm_ext_iff_of_nodup ((nodup_armed ht).filter _)
    (List.nodup_singleton _)).2 fun ⟨p, u⟩ => ?_)
  rw [List.mem_filter, mem_armed_iff ht, decide_eq_true_iff, List.mem_singleton, Prod.mk.injEq]
  constructor
  · rintro ⟨hu, hid⟩
    obtain rfl := ht.single p o u tm hu hm hid
    obtain ⟨a, ha, hu⟩ := hu
    obtain ⟨b, hb, hm⟩ := hm
    obtain rfl : a = b := Option.some.inj (ha.symm.trans hb)
    exact ⟨rfl, List.inj_on_of_nodup_map (ht.ready p a ha).nodup_ids hu hm hid⟩
  · rintro ⟨rfl, rfl⟩
    exact ⟨hm, rfl⟩

/-- In a pass of its owner at its deadline, a timer lets its transfer expire. -/
theorem expired_of_pass (hq : h.Quiet) (hs : h.ledger.Sound) (ht : h.Tidy) (hm : h.Holds o tm)
    (hp : h.ledger.book.stateOf? tm.id = some .prepared) (hdue : tm.deadline ≤ now) :
    (h.pass now o).ledger.book.stateOf? tm.id = some .expired := by
  obtain ⟨a, ha, hm⟩ := hm
  have hr := ht.ready o a ha
  have hmem : tm.id ∈ (a.timers.due now).map (·.id) :=
    List.mem_map_of_mem (Timers.mem_due hr.inOrder hm hdue)
  exact (works_pass hq hs now ha hr).2.expired tm.id hmem hp

/-- When a transfer was sent and is left prepared, its id is free in the alarm of the adaptor. -/
theorem schedule_of_prepare (hq : h.Quiet) (ht : h.Tidy) {t : Transfer}
    (hp : (h.ledger.prepare now t).1 = .ok .prepared) {a : Adaptor η}
    (ha : (h.onLedger (·.prepare now t)).2.adaptors.get? k = some a) (e : Int) :
    (a.alarm.schedule ⟨t.id, e⟩).1 = true := by
  have hold := (prepared_leaves hq hp).alarm k
  rw [Option.map_id', alarm?, ha] at hold
  have hfree := ht.fresh (Ledger.state_of_prepare hp).1 hold.symm
  rw [Alarm.schedule_eq, if_neg hfree]

/-- When an adaptor hands its timers over, the id of each is free in the alarm of the ledger. -/
theorem schedule_of_handed (hq : h.Quiet) (ht : h.Tidy) {pre post : List Timer}
    (hts : (h.leaving now k).handed k = pre ++ tm :: post) :
    ((pre.foldl adopt ((h.leaving now k).drainTimers k)).ledger.adopted.start.schedule tm).1 =
      true := by
  obtain ⟨hleft, -, hadopted, hquiet⟩ := leaving_spec hq now (ht.idle (.adaptor k))
  have hdrained : ((h.leaving now k).drainTimers k).ledger = (h.leaving now k).ledger :=
    (Aside.drainTimers ..).ledger
  have hhands := (hands_foldl_adopt (h := (h.leaving now k).drainTimers k)
    (by rw [Quiet, hdrained]; exact hquiet) pre).adopted
  rw [handed_leaving hq now (ht.idle (.adaptor k))] at hts
  have hsub : (pre ++ [tm]).Sublist (h.handed k) := by
    rw [hts]
    exact (List.Sublist.refl pre).append (List.singleton_sublist.2 List.mem_cons_self)
  -- With this timer adopted too, all ids are still different.
  have hall := ht.adopts hsub
  have hnodup : ((pre.map (·.id)) ++ tm.id :: h.ledger.adopted.timers.list.map (·.id)).Nodup := by
    simpa using (hall.2.map (·.id)).nodup_iff.1 hall.1.nodup_ids
  have hpre := ht.adopts ((List.sublist_append_left pre [tm]).trans hsub)
  rw [hhands, hdrained, hadopted, Alarm.schedule_eq, if_neg]
  rw [Alarm.timers_start, (hpre.2.map _).mem_iff, List.map_append]
  exact (List.nodup_cons.1 (List.nodup_middle.1 hnodup)).1

/-- After every run of moves: a transfer that was sent through an adaptor and is prepared with an
expiry has one timer in all alarms together, with just that deadline, in the alarm of the adaptor
or, when it is gone, among the adopted timers of the ledger. A pass of that alarm at the deadline
or later leaves the transfer expired, and pays all that it lets expire back to the senders. Neither
does sending find a timer armed already, nor the ledger when it adopts what an adaptor hands
over. -/
theorem escrow_never_stuck {info : LedgerInfo} {l : Ledger} (hl : Ledger.make info = .ok l)
    (moves : List (Int × Move η)) :
    let w := Watch.run l moves
    let h := w.hub
    (∀ k t e, (k, t) ∈ w.sent → t.expiresAt = some e →
      h.ledger.book.stateOf? t.id = some .prepared →
        h.armed.filter (·.2.id = t.id) = [(h.keeper k, ⟨t.id, e⟩)] ∧
        t ∈ h.ledger.book.prepared ∧ h.ledger.accounts.contains t.sender ∧
        ∀ now, e ≤ now →
          let h' := h.pass now (h.keeper k)
          h'.ledger.book.stateOf? t.id = some .expired ∧
          ∀ a, h'.ledger.balance? a = (h.ledger.balance? a).map fun b =>
            b + h'.ledger.book.total (fun s u => u.sender = a ∧ s = .expired)
              h.ledger.book.prepared) ∧
    (∀ now k t e, t.expiresAt = some e → (h.ledger.prepare now t).1 = .ok .prepared →
      ∀ a, (h.onLedger (·.prepare now t)).2.adaptors.get? k = some a →
        (a.alarm.schedule ⟨t.id, e⟩).1 = true) ∧
    ∀ now k pre tm post, (h.leaving now k).handed k = pre ++ tm :: post →
      ((pre.foldl adopt ((h.leaving now k).drainTimers k)).ledger.adopted.start.schedule tm).1 =
        true := by
  intro w h
  obtain ⟨steps, (hhub : h = run l steps), hsent⟩ := Watch.exists_run hl moves
  obtain ⟨ht, hg⟩ := Watch.guarded_run hl moves
  have hq : h.Quiet := hhub ▸ quiet_run hl steps
  have hs : h.ledger.Sound := hhub ▸ sound_run hl steps
  have hledger : h.ledger = (chronicle l steps).ledger := hhub ▸ (run_eq_chronicle hl steps).1
  have hfiled : (chronicle l steps).Filed := Chronicle.filed_run hl _
  refine ⟨fun k t e hm hx hp => ?_, fun now k t e _ hp a ha => schedule_of_prepare hq ht hp ha e,
    fun now k pre tm post hts => schedule_of_handed hq ht hts⟩
  have hholds := (hg k t hm).held e hx hp
  refine ⟨armed_filter ht hholds, ?_, ?_, fun now hdue => ?_⟩
  · rw [hledger] at hs hp ⊢
    refine (Chronicle.prepared_perm hs hfiled).mem_iff.2 (List.mem_filter.2 ⟨hsent k t hm, ?_⟩)
    simp [hp, Chronicle.escrows]
  · rw [hledger]
    exact (hfiled.parties t (hsent k t hm)).1
  · obtain ⟨a, ha⟩ : ∃ a, h.alarm? (h.keeper k) = some a := hholds.imp fun _ => And.left
    have hlapses := (works_pass hq hs now ha (ht.ready _ a ha)).2
    refine ⟨expired_of_pass hq hs ht hholds hp hdue, fun b => ?_⟩
    have hbalance := balance?_pass hl steps now (h.keeper k) (by rw [← hhub]; exact hlapses) b
    rw [← hhub] at hbalance
    exact hbalance

/-- An adaptor has sent a transfer, disconnected and gone out of service. -/
def sampleLeft : List (Int × Move Unit) := [
  (0, .call (.ledger (.addAccount Ledger.Sample.alice "Alice" 100)) rfl),
  (0, .call (.ledger (.addAccount Ledger.Sample.bob "Bob" 0)) rfl),
  (1, .call (.openAdaptor Ledger.Sample.alice) rfl), (1, .call (.connect 0) rfl),
  (2, .call (.sendTransfer 0 (Ledger.Sample.locked 'p')) rfl),
  (3, .call (.disconnect 0) rfl), (4, .destroy 0)]

/-- The ledger has its timer, and pays back at the deadline. -/
theorem escrow_never_stuck_left :
    let l := Ledger.Sample.ledger
    let h := (Watch.run l sampleLeft).hub
    Ledger.make l.info = .ok l ∧ h.keeper 0 = .ledger ∧
      h.armed.filter (·.2.id = ("p" : Bytes)) = [(h.keeper 0, ⟨"p", 100⟩)] ∧
      (h.pass 100 (h.keeper 0)).ledger.book.stateOf? "p" = some .expired ∧
      h.ledger.balance? Ledger.Sample.alice = some 70 ∧
      (h.pass 100 (h.keeper 0)).ledger.balance? Ledger.Sample.alice = some 100 := by
  -- With the run in place of its name, nothing has to be evaluated to compare it.
  dsimp only
  have hl : Ledger.make Ledger.Sample.ledger.info = .ok Ledger.Sample.ledger := rfl
  obtain ⟨hsent, -, -⟩ := escrow_never_stuck hl sampleLeft
  obtain ⟨harmed, -, -, hpass⟩ := hsent 0 (Ledger.Sample.locked 'p') 100 (by decide +kernel) rfl
    (by decide +kernel)
  obtain ⟨hexpired, hbalance⟩ := hpass 100 (by decide)
  have hid : (Ledger.Sample.locked 'p').id = "p" := rfl
  rw [hid] at hexpired
  exact ⟨hl, by decide +kernel, harmed, hexpired, by decide +kernel,
    (hbalance _).trans (by decide +kernel)⟩

end Hub

end Interledger
