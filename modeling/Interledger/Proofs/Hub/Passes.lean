import Interledger.Proofs.Hub.Alarms

/-! Whole passes of alarms, and alarms that are handed over. A pass of an idle alarm takes out
what is due and calls it back in order: each of these transfers expires if it is prepared, and
no other timer is touched but those of transfers that are over. An adaptor that is taken out
of service without owing a callback leaves all its timers to the ledger. -/

namespace Interledger

/-- Of the transfers of some ids, those that are prepared in one book have expired in another. -/
structure Book.Lapses (ids : List Bytes) (b b' : Book) : Prop where
  expired : ∀ id ∈ ids, b.stateOf? id = some .prepared → b'.stateOf? id = some .expired
  kept : ∀ id, (id ∈ ids → b.stateOf? id ≠ some .prepared) → b'.stateOf? id = b.stateOf? id

namespace Book.Lapses

variable {ids ids' : List Bytes} {b b' b'' : Book}

theorem refl (b : Book) : b.Lapses [] b := ⟨nofun, fun _ _ => rfl⟩

theorem single {id : Bytes} (h : ∀ j, b'.stateOf? j =
    if j = id ∧ b.stateOf? id = some .prepared then some .expired else b.stateOf? j) :
    Lapses [id] b b' where
  expired j hj hp := by
    obtain rfl := List.mem_singleton.1 hj
    rw [h, if_pos ⟨rfl, hp⟩]
  kept j hn := by
    rw [h, if_neg]
    rintro ⟨rfl, hp⟩
    exact hn (List.mem_singleton_self j) hp

theorem trans (h : Lapses ids b b') (h' : Lapses ids' b' b'') : Lapses (ids ++ ids') b b'' where
  expired id hid hp := by
    by_cases hmem : id ∈ ids
    · have hx := h.expired id hmem hp
      rw [h'.kept id fun _ => by rw [hx]; nofun, hx]
    · have hp' : b'.stateOf? id = some .prepared := (h.kept id fun hn => absurd hn hmem).trans hp
      exact h'.expired id ((List.mem_append.1 hid).resolve_left hmem) hp'
  kept id hn := by
    have hkept := h.kept id fun hid => hn (List.mem_append_left _ hid)
    rw [h'.kept id fun hid => by rw [hkept]; exact hn (List.mem_append_right _ hid), hkept]

theorem isOver (h : Lapses ids b b') {id : Bytes} (hid : b.IsOver id) : b'.IsOver id := by
  have hkept := h.kept id fun _ => hid.ne_prepared
  obtain ⟨st, hst, ht⟩ := hid
  exact ⟨st, hkept.trans hst, ht⟩

/-- The states are as they were, or went from prepared to expired. -/
theorem stateOf?_cases (h : Lapses ids b b') (id : Bytes) :
    b'.stateOf? id = b.stateOf? id ∧ (id ∈ ids → b.stateOf? id ≠ some .prepared) ∨
      id ∈ ids ∧ b.stateOf? id = some .prepared ∧ b'.stateOf? id = some .expired := by
  by_cases hid : id ∈ ids ∧ b.stateOf? id = some .prepared
  · exact .inr ⟨hid.1, hid.2, h.expired id hid.1 hid.2⟩
  · have hn : id ∈ ids → b.stateOf? id ≠ some .prepared := fun hm hp => hid ⟨hm, hp⟩
    exact .inl ⟨h.kept id hn, hn⟩

theorem contains_eq (h : Lapses ids b b') (id : Bytes) : b'.contains id = b.contains id := by
  rw [contains_eq_isSome_stateOf?, contains_eq_isSome_stateOf?]
  rcases h.stateOf?_cases id with ⟨hst, -⟩ | ⟨-, hp, hx⟩
  · rw [hst]
  · rw [hp, hx]
    rfl

theorem prepared (h : Lapses ids b b') {id : Bytes} (hp : b'.stateOf? id = some .prepared) :
    b.stateOf? id = some .prepared ∧ id ∉ ids := by
  rcases h.stateOf?_cases id with ⟨hst, hn⟩ | ⟨-, -, hx⟩
  · rw [hp] at hst
    exact ⟨hst.symm, fun hid => hn hid hst.symm⟩
  · rw [hx] at hp
    cases hp

end Book.Lapses

namespace Owner

variable {η : Type}

/-- The step in which an owner's alarm takes out what is due. -/
def passes : Owner → Hub.Step η
  | ledger => .ledger .passAdopted
  | adaptor k => .passTimers k

/-- The step in which an owner's alarm calls back the next timer. -/
def fires : Owner → Hub.Step η
  | ledger => .ledger .fireAdopted
  | adaptor k => .fireTimer k

end Owner

namespace Hub

variable {η : Type} {h h' : Hub η} {now : Int} {o : Owner}

theorem quiet_perform (hq : h.Quiet) (now : Int) (s : Step η) : (s.perform now h).2.Quiet := by
  rw [Quiet, (perform_effect hq now s).ledger_eq]
  cases s.call? h with
  | none => exact hq
  | some c => rfl

theorem sound_perform (hq : h.Quiet) (hs : h.ledger.Sound) (now : Int) (s : Step η) :
    (s.perform now h).2.ledger.Sound := by
  rw [(perform_effect hq now s).ledger_eq]
  cases s.call? h with
  | none => exact hs
  | some c => exact (Ledger.sound_perform hs now c).quiet

/-! ### Callbacks of timers -/

/-- A step that works on one alarm changes only the timers of transfers that are over in all
the others. -/
structure Works (h h' : Hub η) (o : Owner) (f : Alarm → Alarm) : Prop where
  keys : h'.adaptors.keys = h.adaptors.keys
  nextKey : h'.nextKey = h.nextKey
  own : ∃ ids, (∀ id ∈ ids, h'.ledger.book.IsOver id) ∧
    h'.alarm? o = (h.alarm? o).map fun a => (f a).without ids
  others : ∀ p, p ≠ o → ∃ ids, (∀ id ∈ ids, h'.ledger.book.IsOver id) ∧
    h'.alarm? p = (h.alarm? p).map (·.without ids)

namespace Works

variable {h'' : Hub η} {f g : Alarm → Alarm}

theorem congr (hf : h.Works h' o f) (hfg : ∀ a, h.alarm? o = some a → f a = g a) :
    h.Works h' o g := by
  obtain ⟨ids, hids, hown⟩ := hf.own
  refine ⟨hf.keys, hf.nextKey, ⟨ids, hids, hown.trans ?_⟩, hf.others⟩
  exact Option.map_congr fun a ha => by rw [hfg a ha]

theorem trans (hf : h.Works h' o f) (hg : h'.Works h'' o g)
    (hover : ∀ id, h'.ledger.book.IsOver id → h''.ledger.book.IsOver id)
    (hcomm : ∀ a ids, g (a.without ids) = (g a).without ids) :
    h.Works h'' o fun a => g (f a) := by
  have hboth : ∀ {ids ids' : List Bytes}, (∀ id ∈ ids, h'.ledger.book.IsOver id) →
      (∀ id ∈ ids', h''.ledger.book.IsOver id) → ∀ id ∈ ids ++ ids', h''.ledger.book.IsOver id := by
    intro ids ids' hids hids' id hid
    rcases List.mem_append.1 hid with hid | hid
    · exact hover id (hids id hid)
    · exact hids' id hid
  refine ⟨hg.keys.trans hf.keys, hg.nextKey.trans hf.nextKey, ?_, fun p hp => ?_⟩
  · obtain ⟨ids, hids, hown⟩ := hf.own
    obtain ⟨ids', hids', hown'⟩ := hg.own
    refine ⟨ids ++ ids', hboth hids hids', ?_⟩
    rw [hown', hown, Option.map_map]
    congr 1
    funext a
    show (g ((f a).without ids)).without ids' = _
    rw [hcomm, Alarm.without_without]
  · obtain ⟨ids, hids, hold⟩ := hf.others p hp
    obtain ⟨ids', hids', hnew⟩ := hg.others p hp
    refine ⟨ids ++ ids', hboth hids hids', ?_⟩
    rw [hnew, hold, Option.map_map]
    congr 1
    funext a
    exact a.without_without ids ids'

end Works

theorem works_of_tend (hq : h.Quiet) (hs : h.ledger.Sound) (now : Int) {s : Step η} {o : Owner}
    {f : Alarm → Alarm} (hopen : ∀ a, s ≠ .openAdaptor a) (hremove : ∀ k, s ≠ .remove k)
    (hf : ∀ a, s.tend h now o a = f a) (hid : ∀ p, p ≠ o → ∀ a, s.tend h now p a = a) :
    h.Works (s.perform now h).2 o f := by
  obtain ⟨_, _, hkeys⟩ := perform_clears hq hs now hopen hremove
  have hturn : ∀ p, ∃ ids, (∀ id ∈ ids, (s.perform now h).2.ledger.book.IsOver id) ∧
      (s.perform now h).2.alarm? p = (h.alarm? p).map fun a => (s.tend h now p a).without ids := by
    intro p
    have ht := turn_perform hq hs now s p
    generalize h.alarm? p = x at ht ⊢
    generalize (s.perform now h).2.alarm? p = x' at ht ⊢
    cases ht with
    | opened account => exact absurd rfl (hopen account)
    | removed k => exact absurd rfl (hremove k)
    | tended _ hids => exact ⟨_, hids, rfl⟩
  refine ⟨hkeys.keys, hkeys.nextKey, ?_, fun p hp => ?_⟩
  · simpa only [hf] using hturn o
  · simpa only [hid p hp] using hturn p

/-- Passes and callbacks work on the alarm of one owner only. -/
theorem tend_other (h : Hub η) (now : Int) {o p : Owner} (hp : p ≠ o) (a : Alarm) :
    o.passes.tend h now p a = a ∧ o.fires.tend h now p a = a := by
  cases o with
  | ledger =>
    cases p with
    | ledger => exact absurd rfl hp
    | adaptor j => exact ⟨rfl, rfl⟩
  | adaptor k =>
    cases p with
    | ledger => exact ⟨rfl, rfl⟩
    | adaptor j =>
      have hj : j ≠ k := fun hj => hp (by rw [hj])
      exact ⟨if_neg hj, if_neg hj⟩

theorem works_fires (hq : h.Quiet) (hs : h.ledger.Sound) (now : Int) (o : Owner) :
    h.Works (o.fires.perform now h).2 o Alarm.rest := by
  refine works_of_tend hq hs now ?_ ?_ ?_ ?_
  · cases o <;> exact nofun
  · cases o <;> exact nofun
  · cases o with
    | ledger => exact fun _ => rfl
    | adaptor k => exact fun _ => if_pos rfl
  · exact fun p hp a => (tend_other h now hp a).2

theorem lapses_fires (hq : h.Quiet) (hs : h.ledger.Sound) (now : Int) {o : Owner} {a : Alarm}
    (ha : h.alarm? o = some a) {tm : Timer} {ts : List Timer} (hb : a.batch = some (tm :: ts)) :
    h.ledger.book.Lapses [tm.id] (o.fires.perform now h).2.ledger.book := by
  refine .single fun id => ?_
  rw [(perform_effect hq now _).ledger_eq]
  cases o with
  | ledger =>
    cases ha
    show (h.ledger.fireAdopted now).book.stateOf? id = _
    rw [Ledger.stateOf?_fireAdopted hs, hb]
    rfl
  | adaptor k =>
    obtain ⟨x, hx, rfl⟩ := Option.map_eq_some_iff.1 ha
    have hnext : x.alarm.next? = some (tm, x.alarm.rest) := by
      rw [Alarm.next?_eq, hb]
      rfl
    have hcall : (Owner.fires (.adaptor k)).call? h = some (.expire tm.id) := by
      show ((h.adaptors.get? k).bind (·.alarm.next?)).map _ = _
      rw [hx, Option.bind_some, hnext]
      rfl
    rw [hcall]
    exact Ledger.stateOf?_expire hs now tm.id id

/-- An alarm that owes no callback any more. -/
def called (a : Alarm) : Alarm := { a with batch := some [] }

/-- Calling back all that an alarm has taken out. -/
theorem works_fires_all (hq : h.Quiet) (hs : h.ledger.Sound) (now : Int) {o : Owner} {a : Alarm}
    (ha : h.alarm? o = some a) {ts : List Timer} (hb : a.batch = some ts) :
    let h' := h.after (ts.map fun _ => (now, o.fires))
    h.Works h' o called ∧ h.ledger.book.Lapses (ts.map (·.id)) h'.ledger.book := by
  induction ts generalizing h a with
  | nil =>
    have hcalled : h.alarm? o = some (called a) := by
      rw [ha, called, ← hb]
    refine ⟨⟨rfl, rfl, ⟨[], by simp, ?_⟩, fun p _ => ⟨[], by simp, ?_⟩⟩, .refl _⟩
    · show h.alarm? o = _
      rw [hcalled]
      simp [called]
    · simp only [Alarm.without_nil, Option.map_id']
      rfl
  | cons tm ts ih =>
    have hw := works_fires hq hs now o
    have hst := lapses_fires hq hs now ha hb
    obtain ⟨ids, hids, hown⟩ := hw.own
    rw [ha] at hown
    have hrest : (a.rest.without ids).batch = some ts := by
      show a.batch.map List.tail = some ts
      rw [hb]
      rfl
    obtain ⟨hw', hst'⟩ := ih (quiet_perform hq now _) (sound_perform hq hs now _) hown hrest
    exact ⟨hw.trans hw' (fun _ => hst'.isOver) fun _ _ => rfl, hst.trans hst'⟩

/-! ### Whole passes -/

/-- A whole pass of an owner's alarm. -/
def pass (h : Hub η) (now : Int) : Owner → Hub η
  | .ledger => h.runAdopted now
  | .adaptor k => h.runTimers now k

/-- The steps of a whole pass. -/
def passSteps (h : Hub η) (now : Int) (o : Owner) : List (Int × Step η) :=
  (now, o.passes) :: ((o.passes.perform now h).2.owes o).map fun _ => (now, o.fires)

theorem pass_eq (hq : h.Quiet) (now : Int) (o : Owner) :
    h.pass now o = h.after (h.passSteps now o) := by
  cases o with
  | ledger =>
    have hpass : (Owner.ledger.passes.perform now h).2 = h.passAdopted now :=
      publish_of_quiet (show (h.ledger.passAdopted now).quiet = _ from
        congrArg (·.passAdopted now) hq)
    rw [passSteps, hpass]
    show _ = ((Owner.ledger.passes.perform now h).2).after _
    rw [hpass, after, List.foldl_map]
    rfl
  | adaptor k =>
    show (h.passTimers now k).fireOwed now k = (h.passTimers now k).after
      (((h.passTimers now k).owes (.adaptor k)).map fun _ => (now, .fireTimer k))
    rw [fireOwed_eq, owed_eq]

theorem works_passes (hq : h.Quiet) (hs : h.ledger.Sound) (now : Int) (o : Owner) :
    h.Works (o.passes.perform now h).2 o (·.pass now) := by
  refine works_of_tend hq hs now ?_ ?_ ?_ ?_
  · cases o <;> exact nofun
  · cases o <;> exact nofun
  · cases o with
    | ledger => exact fun _ => rfl
    | adaptor k => exact fun _ => if_pos rfl
  · exact fun p hp a => (tend_other h now hp a).1

theorem ledger_passes (hq : h.Quiet) (now : Int) (o : Owner) :
    (o.passes.perform now h).2.ledger.book = h.ledger.book := by
  rw [(perform_effect hq now _).ledger_eq]
  cases o <;> rfl

/-- In a whole pass, just the prepared transfers whose timers are due expire. -/
theorem works_pass (hq : h.Quiet) (hs : h.ledger.Sound) (now : Int) {o : Owner} {a : Alarm}
    (ha : h.alarm? o = some a) (hr : a.Ready) :
    h.Works (h.pass now o) o (fun a => { a with timers := a.timers.later now }) ∧
      h.ledger.book.Lapses ((a.timers.due now).map (·.id)) (h.pass now o).ledger.book := by
  have hw := works_passes hq hs now o
  have hbook := ledger_passes hq now o
  obtain ⟨ids, -, hown⟩ := hw.own
  rw [ha, Option.map_some] at hown
  rw [pass_eq hq, passSteps, owes, hown, Option.elim_some]
  by_cases hrun : a.running
  · have hpass : a.pass now =
        { a with timers := a.timers.later now, batch := some (a.timers.due now) } :=
      if_pos ⟨hrun, hr.worker hrun⟩
    rw [hpass] at hown ⊢
    obtain ⟨hw', hst⟩ := works_fires_all (quiet_perform hq now _) (sound_perform hq hs now _) now
      hown rfl
    rw [hbook] at hst
    refine ⟨(hw.trans hw' (fun id hid => hst.isOver (hbook ▸ hid)) fun _ _ => rfl).congr ?_, hst⟩
    intro a' ha'
    obtain rfl : a = a' := Option.some.inj (ha.symm.trans ha')
    simp only [called, hpass, hr.worker hrun]
  · have hnil : a.timers = ⟨[]⟩ := by
      by_contra hne
      exact hrun (hr.running fun h => hne (congrArg Timers.mk h))
    have hpass : a.pass now = a := if_neg fun h => hrun h.1
    have howes : ((a.pass now).without ids).batch.getD [] = [] := by
      rw [hpass]
      exact hr.idle
    rw [howes]
    refine ⟨hw.congr fun a' ha' => ?_, ?_⟩
    · obtain rfl : a = a' := Option.some.inj (ha.symm.trans ha')
      obtain ⟨name, timers, running, batch⟩ := a
      obtain rfl : timers = ⟨[]⟩ := hnil
      exact hpass
    · show h.ledger.book.Lapses _ (o.passes.perform now h).2.ledger.book
      rw [hbook, hnil]
      exact .refl _

/-! ### Taking an adaptor out of service -/

/-- The adaptors stay with their alarms, nothing happens to the transfers, and the ledger is left
with an alarm. -/
structure Hands (h h' : Hub η) (a : Alarm) : Prop where
  leaves : h.Leaves h'
  book : h'.ledger.book = h.ledger.book
  adopted : h'.ledger.adopted = a
  quiet : h'.Quiet

theorem hands_adopt (hq : h.Quiet) (t : Timer) :
    h.Hands (h.adopt t) (h.ledger.adopted.start.schedule t).2 := by
  have hledger : (h.adopt t).ledger = (h.ledger.adopt t).quiet := ledger_publish _
  have hadopt : (h.ledger.adopt t).book = h.ledger.book ∧
      (h.ledger.adopt t).adopted = (h.ledger.adopted.start.schedule t).2 ∧
      (h.ledger.adopt t).notices = h.ledger.notices := by
    unfold Ledger.adopt
    rcases h.ledger.adopted.start.schedule t with ⟨_ | _, adopted⟩ <;> exact ⟨rfl, rfl, rfl⟩
  obtain ⟨hbook, hadopted, hnotices⟩ := hadopt
  have hsilent : ∀ n ∈ (h.ledger.adopt t).notices, n.over? = none := by
    rw [hnotices, show h.ledger.notices = [] by rw [← hq]; rfl]
    exact nofun
  have hset : h.Leaves { h with ledger := h.ledger.adopt t } := .of_eq rfl rfl
  refine ⟨hset.trans (leaves_publish hsilent), ?_, ?_, ?_⟩
  · rw [hledger]
    exact hbook
  · rw [hledger]
    exact hadopted
  · rw [Quiet, hledger]
    rfl

theorem hands_foldl_adopt (hq : h.Quiet) (ts : List Timer) :
    h.Hands (ts.foldl adopt h) (h.ledger.adopted.adoptAll ts) := by
  induction ts generalizing h with
  | nil => exact ⟨.refl h, rfl, rfl, hq⟩
  | cons t ts ih =>
    have ht := hands_adopt hq t
    have hts := ih ht.quiet
    rw [ht.adopted] at hts
    exact ⟨ht.leaves.trans hts.leaves, hts.book.trans ht.book, hts.adopted, hts.quiet⟩

theorem hands_disconnect (hq : h.Quiet) (k : Nat) : h.Hands (h.disconnect k) h.ledger.adopted := by
  refine ⟨disconnect_leaves h k, ?_, ?_, ?_⟩
  · unfold disconnect
    split
    · rfl
    split <;> rfl
  · unfold disconnect
    split
    · rfl
    split <;> rfl
  · exact quiet_perform hq 0 (.disconnect k)

/-- An adaptor that is going out of service, once its alarm has been asked to end and owes no
callback. -/
def leaving (h : Hub η) (now : Int) (k : Nat) : Hub η :=
  ((h.disconnect k).haltTimers k).fireOwed now k

theorem leaving_spec (hq : h.Quiet) (now : Int) {k : Nat} (howed : h.owes (.adaptor k) = []) :
    let h' := h.leaving now k
    h.Adjusts h' (fun j a => if j = k then a.halt else a) ∧ h'.ledger.book = h.ledger.book ∧
      h'.ledger.adopted = h.ledger.adopted ∧ h'.Quiet := by
  intro h'
  have hd := hands_disconnect hq k
  have hhalt : (h.disconnect k).Adjusts ((h.disconnect k).haltTimers k)
      fun j a => if j = k then a.halt else a := .modifyAdaptor _ k _ (·.halt) fun _ _ => rfl
  have hhalted : h.Adjusts ((h.disconnect k).haltTimers k)
      fun j a => if j = k then a.halt else a := Adjusts.trans hd.leaves hhalt
  have hnone : ((h.disconnect k).haltTimers k).owed k = [] := by
    rw [owed_eq, owes, hhalted.alarm]
    unfold owes at howed
    cases ha : h.alarm? (.adaptor k) with
    | none => rfl
    | some a =>
      rw [ha] at howed
      simpa [Alarm.halt] using howed
  have hsame : h' = (h.disconnect k).haltTimers k := by
    show ((h.disconnect k).haltTimers k).fireOwed now k = _
    rw [fireOwed, hnone]
    rfl
  rw [hsame]
  exact ⟨hhalted, hd.book, hd.adopted, hd.quiet⟩

theorem handOver_spec (hq : h.Quiet) (k : Nat) :
    (∃ f : Alarm → Alarm, h.Adjusts (h.handOver k) fun j a => if j = k then f a else a) ∧
      (h.handOver k).ledger.book = h.ledger.book ∧
      (h.handOver k).ledger.adopted = h.ledger.adopted.adoptAll (h.handed k) := by
  unfold handOver handed
  cases hk : h.adaptors.get? k with
  | none => exact ⟨⟨id, by simpa using Adjusts.refl h⟩, rfl, rfl⟩
  | some x =>
    have hset : h.Adjusts (h.modifyAdaptor k fun a => { a with alarm := x.alarm.finish.drain.2 })
        fun j a => if j = k then x.alarm.finish.drain.2 else a := .modifyAdaptor h k _ _ fun _ _ => rfl
    have hquiet : (h.modifyAdaptor k fun a => { a with alarm := x.alarm.finish.drain.2 }).Quiet := hq
    have hts := hands_foldl_adopt hquiet x.alarm.finish.drain.1
    exact ⟨⟨_, hset.trans hts.leaves⟩, hts.book, hts.adopted⟩

theorem handed_leaving (hq : h.Quiet) (now : Int) {k : Nat} (howed : h.owes (.adaptor k) = []) :
    (h.leaving now k).handed k = h.handed k := by
  rw [handed_eq, handed_eq, (leaving_spec hq now howed).1.alarm]
  cases h.alarm? (.adaptor k) with
  | none => rfl
  | some a => simp [Alarm.halt]

/-- An adaptor is gone, and the ledger has adopted its timers. -/
theorem destroy_spec (hq : h.Quiet) (now : Int) {k : Nat} (howed : h.owes (.adaptor k) = []) :
    let h' := (h.retire now k).remove k
    h'.adaptors.keys = h.adaptors.keys.filter (· ≠ k) ∧ h'.nextKey = h.nextKey ∧
      h'.ledger.book = h.ledger.book ∧
      h'.alarm? .ledger = some (h.ledger.adopted.adoptAll (h.handed k)) ∧
      ∀ j, h'.alarm? (.adaptor j) = if j = k then none else h.alarm? (.adaptor j) := by
  intro h'
  obtain ⟨hleft, hbook, hadopted, hquiet⟩ := leaving_spec hq now howed
  obtain ⟨⟨f, hover⟩, hbook', hadopted'⟩ := handOver_spec hquiet k
  have hclosed : ((h.leaving now k).handOver k).Leaves (h.retire now k) :=
    (Leaves.refl _).modifyAdaptor k fun _ => by rfl
  have hretired := (hleft.trans hover).trans hclosed
  refine ⟨?_, hretired.nextKey, hbook'.trans hbook, ?_, fun j => ?_⟩
  · show ((h.retire now k).adaptors.erase k).keys = _
    rw [Table.keys_erase, hretired.keys]
  · show some ((h.leaving now k).handOver k).ledger.adopted = _
    rw [hadopted', hadopted, handed_leaving hq now howed]
  · show (((h.retire now k).adaptors.erase k).get? j).map (·.alarm) = _
    rw [Table.get?_erase]
    by_cases hj : j = k
    · rw [if_pos hj, if_pos hj]
      rfl
    · rw [if_neg hj, if_neg hj]
      refine (hretired.alarm j).trans ?_
      simp only [if_neg hj, Option.map_id']

end Hub

end Interledger
