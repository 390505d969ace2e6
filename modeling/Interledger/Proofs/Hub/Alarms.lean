import Interledger.Proofs.Hub.Runs
import Interledger.Proofs.Ledger.Adopted

/-! The alarms of a hub: the one of the ledger, for the timers it has adopted, and one for each
adaptor. Every step is traced to what it does to each of them: a worker's step works on its own
alarm, a transfer that is sent is armed, and all that is cancelled belongs to transfers that
have come to their end. -/

namespace Interledger

/-- Whose alarm a timer stands in. -/
inductive Owner where
  | ledger
  | adaptor (k : Nat)
  deriving DecidableEq

/-- What hearing a notice does to the timers. -/
theorem Adaptor.alarm_hear {η : Type} (a : Adaptor η) (n : Notice) :
    (a.hear n).2.alarm = a.alarm.without n.over?.toList := by
  have hreport : ∀ (a : Adaptor η) (t : Transfer) (event : Direction → Event),
      (a.report t event).alarm = a.alarm := by
    intro a t event
    unfold report
    split <;> rfl
  have hrelease : ∀ id, (a.release id).2.alarm = (a.alarm.cancel id).2 := by
    intro id
    unfold release
    rcases a.alarm.cancel id with ⟨_ | _, alarm⟩ <;> rfl
  cases n with
  | prepared t => exact (hreport ..).trans a.alarm.without_nil.symm
  | executed t f => exact (hreport ..).trans ((hrelease t.id).trans (a.alarm.cancel_eq t.id))
  | rejected t reason => exact (hreport ..).trans ((hrelease t.id).trans (a.alarm.cancel_eq t.id))
  | message m =>
    unfold hear
    simp only
    split
    · exact a.alarm.without_nil.symm
    · exact a.alarm.without_nil.symm

theorem Adaptor.alarm_foldl_hear {η : Type} (ns : List Notice) (a : Adaptor η) :
    (ns.foldl (fun a n => (a.hear n).2) a).alarm = a.alarm.without (ns.filterMap (·.over?)) := by
  induction ns generalizing a with
  | nil => exact a.alarm.without_nil.symm
  | cons n ns ih =>
    rw [List.foldl_cons, ih, alarm_hear, Alarm.without_without, List.filterMap_cons]
    cases n.over? <;> rfl

namespace Hub

variable {η : Type} {h h' h'' : Hub η} {now : Int} {k : Nat}

def alarm? (h : Hub η) : Owner → Option Alarm
  | .ledger => some h.ledger.adopted
  | .adaptor k => (h.adaptors.get? k).map (·.alarm)

/-- What an owner's alarm has taken out and not called back. -/
def owes (h : Hub η) (o : Owner) : List Timer := (h.alarm? o).elim [] fun a => a.batch.getD []

theorem owed_eq (h : Hub η) (k : Nat) : h.owed k = h.owes (.adaptor k) := by
  show ((h.adaptors.get? k).bind (·.alarm.batch)).getD [] =
    ((h.adaptors.get? k).map (·.alarm)).elim [] _
  cases h.adaptors.get? k <;> rfl

theorem handed_eq (h : Hub η) (k : Nat) :
    h.handed k = (h.alarm? (.adaptor k)).elim [] fun a => a.timers.list := by
  show (h.adaptors.get? k).elim [] _ = ((h.adaptors.get? k).map (·.alarm)).elim [] _
  cases h.adaptors.get? k with
  | none => rfl
  | some a => exact congrArg Timers.list a.alarm.timers_finish

theorem mem_handed_iff {tm : Timer} : tm ∈ h.handed k ↔
    ∃ a, h.alarm? (.adaptor k) = some a ∧ tm ∈ a.timers.list := by
  rw [handed_eq]
  cases h.alarm? (.adaptor k) with
  | none => simp
  | some a => simp

/-! ### Changes of the alarms of adaptors -/

/-- The adaptors stay, and the alarm of each changes as told. -/
structure Adjusts (h h' : Hub η) (f : Nat → Alarm → Alarm) : Prop where
  keys : h'.adaptors.keys = h.adaptors.keys
  nextKey : h'.nextKey = h.nextKey
  alarm : ∀ k, h'.alarm? (.adaptor k) = (h.alarm? (.adaptor k)).map (f k)

namespace Adjusts

variable {f g : Nat → Alarm → Alarm}

theorem refl (h : Hub η) : h.Adjusts h fun _ a => a :=
  ⟨rfl, rfl, fun _ => Option.map_id'.symm⟩

theorem trans (hf : h.Adjusts h' f) (hg : h'.Adjusts h'' g) :
    h.Adjusts h'' fun k a => g k (f k a) where
  keys := hg.keys.trans hf.keys
  nextKey := hg.nextKey.trans hf.nextKey
  alarm k := by
    rw [hg.alarm, hf.alarm, Option.map_map]
    rfl

theorem congr (hf : h.Adjusts h' f)
    (hfg : ∀ k a, h.alarm? (.adaptor k) = some a → f k a = g k a) : h.Adjusts h' g where
  keys := hf.keys
  nextKey := hf.nextKey
  alarm k := by
    rw [hf.alarm]
    exact Option.map_congr fun a ha => hfg k a ha

theorem modifyAdaptor (h : Hub η) (k : Nat) (c : Adaptor η → Adaptor η) (f : Alarm → Alarm)
    (hc : ∀ a, h.adaptors.get? k = some a → (c a).alarm = f a.alarm) :
    h.Adjusts (h.modifyAdaptor k c) fun j a => if j = k then f a else a where
  keys := Table.keys_modify ..
  nextKey := rfl
  alarm j := by
    show ((h.adaptors.modify k c).get? j).map (·.alarm) = ((h.adaptors.get? j).map (·.alarm)).map _
    rw [Table.get?_modify]
    by_cases hj : j = k
    · subst hj
      cases ha : h.adaptors.get? j with
      | none => simp
      | some a => simp [hc a ha]
    · simp only [if_neg hj, Option.map_id']

theorem updateAdaptor (h : Hub η) (k : Nat) (c : Adaptor η → List Log.Line × Adaptor η)
    (f : Alarm → Alarm) (hc : ∀ a, h.adaptors.get? k = some a → (c a).2.alarm = f a.alarm) :
    h.Adjusts (h.updateAdaptor k c) fun j a => if j = k then f a else a where
  keys := by
    unfold Hub.updateAdaptor
    split
    · exact Table.keys_modify ..
    · rfl
  nextKey := by
    unfold Hub.updateAdaptor
    split <;> rfl
  alarm j := by
    show ((h.updateAdaptor k c).adaptors.get? j).map _ = ((h.adaptors.get? j).map _).map _
    rw [get?_updateAdaptor]
    by_cases hj : j = k
    · subst hj
      cases ha : h.adaptors.get? j with
      | none => simp
      | some a => simp [hc a ha]
    · simp only [if_neg hj, Option.map_id']

end Adjusts

/-- The adaptors stay, with their alarms. -/
def Leaves (h h' : Hub η) : Prop := h.Adjusts h' fun _ a => a

namespace Leaves

theorem refl (h : Hub η) : h.Leaves h := Adjusts.refl h

theorem trans (hf : h.Leaves h') (hg : h'.Leaves h'') : h.Leaves h'' := Adjusts.trans hf hg

theorem of_eq (hk : h'.adaptors = h.adaptors) (hn : h'.nextKey = h.nextKey) : h.Leaves h' where
  keys := by rw [hk]
  nextKey := hn
  alarm k := by
    rw [Option.map_id']
    show (h'.adaptors.get? k).map _ = _
    rw [hk]
    rfl

theorem modifyAdaptor (hf : h.Leaves h') (k : Nat) {c : Adaptor η → Adaptor η}
    (hc : ∀ a, (c a).alarm = a.alarm) : h.Leaves (h'.modifyAdaptor k c) := by
  have hg := Adjusts.modifyAdaptor h' k c id fun a _ => hc a
  simp only [id_eq, ite_self] at hg
  exact hf.trans hg

theorem updateAdaptor (hf : h.Leaves h') (k : Nat) {c : Adaptor η → List Log.Line × Adaptor η}
    (hc : ∀ a, (c a).2.alarm = a.alarm) : h.Leaves (h'.updateAdaptor k c) := by
  have hg := Adjusts.updateAdaptor h' k c id fun a _ => hc a
  simp only [id_eq, ite_self] at hg
  exact hf.trans hg

theorem write (hf : h.Leaves h') (lines : List Log.Line) : h.Leaves (h'.write lines) :=
  hf.trans (.of_eq rfl rfl)

end Leaves

/-! ### What the ledger tells -/

theorem keys_publish (h : Hub η) :
    h.publish.adaptors.keys = h.adaptors.keys ∧ h.publish.nextKey = h.nextKey := by
  have hfold : ∀ (calls : List (Listener × Notice)) (g : Hub η),
      (calls.foldl bring g).adaptors.keys = g.adaptors.keys ∧
        (calls.foldl bring g).nextKey = g.nextKey := by
    intro calls
    induction calls with
    | nil => exact fun g => ⟨rfl, rfl⟩
    | cons c calls ih =>
      intro g
      obtain ⟨hkeys, hnext⟩ := ih (g.bring c)
      rw [List.foldl_cons, hkeys, hnext]
      obtain ⟨w, n⟩ := c
      cases w with
      | adaptor k =>
        have hf := Adjusts.updateAdaptor g k (·.hear n) (·.without n.over?.toList)
          fun a _ => a.alarm_hear n
        exact ⟨hf.keys, hf.nextKey⟩
      | outside name => exact ⟨rfl, rfl⟩
  rw [publish_eq]
  exact hfold _ _

/-- Each adaptor cancels what it hears the end of. -/
theorem adjusts_publish (h : Hub η) : h.Adjusts h.publish fun k a =>
    a.without (((Listener.adaptor k).received h.ledger.callbacks).filterMap (·.over?)) where
  keys := (keys_publish h).1
  nextKey := (keys_publish h).2
  alarm k := by
    show (h.publish.adaptors.get? k).map _ = ((h.adaptors.get? k).map _).map _
    rw [get?_adaptors_publish, Option.map_map, Option.map_map]
    congr 1
    funext a
    exact a.alarm_foldl_hear _

theorem notice_of_received {l : Ledger} {w : Listener} {n : Notice}
    (hn : n ∈ w.received l.callbacks) : n ∈ l.notices := by
  obtain ⟨⟨w', n'⟩, hc, rfl⟩ := List.mem_map.1 hn
  obtain ⟨m, hm, hc⟩ := List.mem_flatMap.1 (List.mem_of_mem_filter hc)
  obtain ⟨_, _, heq⟩ := List.mem_map.1 hc
  cases heq
  exact hm

/-- When no end is told, no timer is cancelled. -/
theorem leaves_publish (hn : ∀ n ∈ h.ledger.notices, n.over? = none) : h.Leaves h.publish := by
  have hf := adjusts_publish h
  have hids : ∀ k, ((Listener.adaptor k).received h.ledger.callbacks).filterMap (·.over?) = [] :=
    fun k => List.filterMap_eq_nil_iff.2 fun n hm => hn n (notice_of_received hm)
  simpa only [Leaves, hids, Alarm.without_nil] using hf

/-- The adaptors stay, their alarms change as told, and are rid of timers of transfers that
are over. -/
def Clears (h h' : Hub η) (f : Nat → Alarm → Alarm) : Prop :=
  ∃ ids : Nat → List Bytes, (∀ k, ∀ id ∈ ids k, h'.ledger.book.IsOver id) ∧
    h.Adjusts h' fun k a => (f k a).without (ids k)

namespace Clears

variable {f g : Nat → Alarm → Alarm}

theorem of_adjusts (hf : h.Adjusts h' f) : h.Clears h' f :=
  ⟨fun _ => [], by simp, by simpa only [Alarm.without_nil] using hf⟩

theorem before (hf : h.Adjusts h' f) (hg : h'.Clears h'' fun _ a => a) : h.Clears h'' f := by
  obtain ⟨ids, hids, hg⟩ := hg
  exact ⟨ids, hids, hf.trans hg⟩

theorem after (hf : h.Clears h' f) (hg : h'.Leaves h'') (hl : h''.ledger = h'.ledger) :
    h.Clears h'' f := by
  obtain ⟨ids, hids, hf⟩ := hf
  exact ⟨ids, hl ▸ hids, hf.trans hg⟩

theorem onLedger (hq : h.Quiet) (hs : h.ledger.Sound) (now : Int) (c : Ledger.Step) :
    h.Clears (h.onLedger fun l => c.perform now l).2 fun _ a => a := by
  have hf := adjusts_publish { h with ledger := (c.perform now h.ledger).2 }
  refine ⟨_, fun k id hid => ?_, ⟨hf.keys, hf.nextKey, hf.alarm⟩⟩
  obtain ⟨n, hn, hover⟩ := List.mem_filterMap.1 hid
  have hover :=
    (Ledger.perform_effect hs now c).isOver_of_over? hq.notices_eq (notice_of_received hn) hover
  show (publish _).ledger.book.IsOver id
  rw [ledger_publish]
  exact hover

/-- A call on the ledger that is a step of it. -/
theorem call {α : Type} (hq : h.Quiet) (hs : h.ledger.Sound) (now : Int) (c : Ledger.Step)
    {call : Ledger → Outcome Ledger α} {r : α → Ledger.Answer}
    (hc : ∀ l, c.perform now l = ((call l).1.map r, (call l).2)) :
    h.Clears (h.onLedger call).2 fun _ a => a := by
  have hstep : (h.onLedger fun l => c.perform now l).2 = (h.onLedger call).2 := by
    simp only [Hub.onLedger, hc]
  exact hstep ▸ onLedger hq hs now c

end Clears

/-! ### Steps -/

/-- The timer that an adaptor arms by sending a transfer: when the transfer is left prepared
and has an expiry. -/
def arms? (h : Hub η) (now : Int) (k : Nat) (t : Transfer) : Option Timer :=
  ((Step.sendTransfer k t).call? h).bind fun _ =>
    match (h.ledger.prepare now t).1 with
    | .ok .prepared => t.expiresAt.map fun e => ⟨t.id, e⟩
    | _ => none

theorem arms?_eq_some_iff {t : Transfer} {tm : Timer} : h.arms? now k t = some tm ↔
    (Step.sendTransfer k t).call? h = some (.prepare t) ∧
      (h.ledger.prepare now t).1 = .ok .prepared ∧ t.expiresAt = some tm.deadline ∧ tm.id = t.id := by
  have hcall : ∀ c, (Step.sendTransfer k t).call? h = some c → c = .prepare t := by
    intro c hc
    cases call?_eq_some.1 hc
    rfl
  obtain ⟨id, e⟩ := tm
  rw [arms?, Option.bind_eq_some_iff]
  constructor
  · rintro ⟨c, hc, harms⟩
    obtain rfl := hcall c hc
    split at harms
    next hp =>
      obtain ⟨e', hx, heq⟩ := Option.map_eq_some_iff.1 harms
      cases heq
      exact ⟨hc, hp, hx, rfl⟩
    · cases harms
  · rintro ⟨hc, hp, hx, rfl⟩
    refine ⟨_, hc, ?_⟩
    rw [hp, hx]
    rfl

/-- What a step does to an alarm, but for cancelling timers of transfers that are over. -/
def Step.tend (h : Hub η) (now : Int) : Step η → Owner → Alarm → Alarm
  | ledger s, .ledger, a => s.tend now a
  | sendTransfer j t, .adaptor k, a =>
    if k = j then (h.arms? now j t).elim a fun tm => (a.schedule tm).2 else a
  | passTimers j, .adaptor k, a => if k = j then a.pass now else a
  | fireTimer j, .adaptor k, a => if k = j then a.rest else a
  | haltTimers j, .adaptor k, a => if k = j then a.halt else a
  | drainTimers j, .adaptor k, a => if k = j then a.finish.drain.2 else a
  | _, _, a => a

theorem connect_clears (hq : h.Quiet) (hs : h.ledger.Sound) (k : Nat) :
    h.Clears (h.connect k) fun _ a => a := by
  unfold connect
  split
  · exact .of_adjusts (.refl h)
  next a _ =>
  split
  · exact .of_adjusts (.refl h)
  have hcall : h.Clears (h.onLedger (·.attach a.account (.adaptor k))).2 fun _ a => a :=
    .call hq hs 0 (.attach a.account (.adaptor k)) fun _ => rfl
  split
  next heq =>
    rw [heq] at hcall
    exact hcall.after (((Leaves.refl _).modifyAdaptor k fun _ => by rfl).write _) rfl
  next heq =>
    rw [heq] at hcall
    exact hcall.after (((Leaves.refl _).modifyAdaptor k fun _ => by rfl).write _) rfl

theorem disconnect_leaves (h : Hub η) (k : Nat) : h.Leaves (h.disconnect k) := by
  unfold disconnect
  split
  · exact .refl h
  split
  · have hd : h.Leaves { h with ledger := h.ledger.detach (.adaptor k) } := .of_eq rfl rfl
    exact (hd.modifyAdaptor k fun _ => by rfl).write _
  · exact .refl h

theorem Relays.clears (hr : h.Relays now h') (hq : h.Quiet) (hs : h.ledger.Sound) :
    h.Clears h' fun _ a => a := by
  induction hr with
  | refused => exact .of_adjusts (.refl h)
  | called c => exact .onLedger hq hs now c
  | logged hr lines ih => exact ih.after ((Leaves.refl _).write lines) rfl

/-- What sending a transfer comes to. -/
theorem sendTransfer_cases (h : Hub η) (now : Int) (k : Nat) (t : Transfer) :
    (∃ e, (Step.sendTransfer k t).call? h = none ∧ h.sendTransfer now k t = (.error e, h)) ∨
    (Step.sendTransfer k t).call? h = some (.prepare t) ∧
      ((∃ e, (h.ledger.prepare now t).1 = .error e ∧
        h.sendTransfer now k t = (.error e, (h.onLedger (·.prepare now t)).2)) ∨
      ∃ state lines, (h.ledger.prepare now t).1 = .ok state ∧ h.sendTransfer now k t =
        (.ok (), ((h.onLedger (·.prepare now t)).2.armExpiry k t state).write lines)) := by
  rw [sendTransfer, Step.call?]
  rcases connected_eq h k .sendTransfer with ⟨a, ha, hc⟩ | ⟨e, ha, hc⟩
  · rw [ha, hc]
    by_cases ht : t.sender = a.account
    · simp only [Option.bind_some, ht, if_true, ne_eq, not_true_eq_false, if_false]
      rcases onLedger_cases h (·.prepare now t) with ⟨e, he, ho⟩ | ⟨state, hp, ho⟩
      · rw [ho]
        exact .inr ⟨trivial, .inl ⟨e, he, rfl⟩⟩
      · rw [ho]
        exact .inr ⟨trivial, .inr ⟨state, _, hp, rfl⟩⟩
    · simp only [Option.bind_some, ht, if_false, ne_eq, not_false_eq_true, if_true]
      exact .inl ⟨_, trivial, rfl⟩
  · rw [ha, hc]
    exact .inl ⟨e, rfl, rfl⟩

/-- A transfer that is left prepared is the only news of the call. -/
theorem prepared_leaves (hq : h.Quiet) {t : Transfer}
    (hp : (h.ledger.prepare now t).1 = .ok .prepared) :
    h.Leaves (h.onLedger (·.prepare now t)).2 := by
  have hfunded : (h.ledger.prepare now t).2 = h.ledger.funded now t := by
    rcases Ledger.prepare_cases h.ledger now t with ⟨e, heq⟩ | ⟨balance, -, -, heq⟩
    · rw [heq] at hp
      cases hp
    · rw [heq] at hp ⊢
      split at hp
      · cases hp
      next hb =>
      split at hp
      next hc => rw [if_neg hb, if_pos hc]
      · cases hp
  have hf := leaves_publish (h := { h with ledger := (h.ledger.prepare now t).2 }) (by
    rw [hfunded]
    intro n hn
    rw [Ledger.notices_funded, hq.notices_eq] at hn
    obtain rfl := List.mem_singleton.1 hn
    rfl)
  exact ⟨hf.keys, hf.nextKey, hf.alarm⟩

theorem sendTransfer_clears (hq : h.Quiet) (hs : h.ledger.Sound) (now : Int) (k : Nat)
    (t : Transfer) : h.Clears (h.sendTransfer now k t).2 fun j a =>
      if j = k then (h.arms? now k t).elim a fun tm => (a.schedule tm).2 else a := by
  have hcall : h.Clears (h.onLedger (·.prepare now t)).2 fun _ a => a :=
    .call hq hs now (.prepare t) fun _ => rfl
  cases harms : h.arms? now k t with
  | some tm =>
    obtain ⟨hsome, hp, hx, hid⟩ := arms?_eq_some_iff.1 harms
    rcases sendTransfer_cases h now k t with ⟨e, hnone, -⟩ | ⟨-, ⟨e, he, -⟩ | ⟨st, lines, hst, heq⟩⟩
    · rw [hnone] at hsome
      cases hsome
    · rw [he] at hp
      cases hp
    · obtain rfl : st = .prepared := Except.ok.inj (hst.symm.trans hp)
      obtain ⟨id, e⟩ := tm
      obtain rfl : id = t.id := hid
      rw [heq]
      simp only [armExpiry, hx, if_true]
      refine .of_adjusts ((Adjusts.trans (prepared_leaves hq hp)
        (.updateAdaptor _ k _ (fun a => (a.schedule ⟨t.id, e⟩).2) fun a _ => ?_)).trans
          ((Leaves.refl _).write lines))
      rcases a.alarm.schedule ⟨t.id, e⟩ with ⟨_ | _, alarm⟩ <;> rfl
  | none =>
    simp only [Option.elim_none, ite_self]
    rcases sendTransfer_cases h now k t with ⟨e, -, heq⟩ | ⟨hsome, ⟨e, -, heq⟩ | ⟨st, lines, hst, heq⟩⟩
    · rw [heq]
      exact .of_adjusts (.refl h)
    · rw [heq]
      exact hcall
    · rw [heq, armExpiry]
      cases hx : t.expiresAt with
      | none => exact hcall.after ((Leaves.refl _).write _) rfl
      | some e =>
        have hne : st ≠ .prepared := by
          rintro rfl
          have hsent : h.arms? now k t = some ⟨t.id, e⟩ :=
            arms?_eq_some_iff.2 ⟨hsome, hst, hx, rfl⟩
          rw [hsent] at harms
          cases harms
        simp only [if_neg hne]
        exact hcall.after ((Leaves.refl _).write _) rfl

theorem fireTimer_clears (hq : h.Quiet) (hs : h.ledger.Sound) (now : Int) (k : Nat) :
    h.Clears (h.fireTimer now k) fun j a => if j = k then a.rest else a := by
  unfold fireTimer
  split
  next hnone =>
    refine .of_adjusts ((Adjusts.refl h).congr fun j a ha => ?_)
    split
    next hj =>
      subst hj
      obtain ⟨x, hx, rfl⟩ := Option.map_eq_some_iff.1 ha
      rw [hx] at hnone
      exact (Alarm.rest_of_next?_eq_none (by simpa using hnone)).symm
    · rfl
  next a t alarm hnext =>
    obtain ⟨x, hx, hr⟩ := Option.bind_eq_some_iff.1 hnext
    obtain ⟨r, hr, heq⟩ := Option.map_eq_some_iff.1 hr
    cases heq
    obtain rfl := (Alarm.batch_of_next? hr).2
    have hrest : h.Adjusts (h.modifyAdaptor k fun b => { b with alarm := a.alarm.rest })
        fun j a => if j = k then a.rest else a :=
      .modifyAdaptor h k _ Alarm.rest fun b hb => by
        rw [hx] at hb
        cases hb
        rfl
    have hquiet : (h.modifyAdaptor k fun b => { b with alarm := a.alarm.rest }).Quiet := hq
    have hcall : (h.modifyAdaptor k fun b => { b with alarm := a.alarm.rest }).Clears
        ((h.modifyAdaptor k fun b => { b with alarm := a.alarm.rest }).onLedger
          (·.expire now t.id)).2 fun _ a => a := .call hquiet hs now (.expire t.id) fun _ => rfl
    simp only
    split
    next heq =>
      rw [heq] at hcall
      exact .before hrest (hcall.after ((Leaves.refl _).write _) rfl)
    next heq =>
      rw [heq] at hcall
      exact .before hrest (hcall.after ((Leaves.refl _).write _) rfl)
    next heq =>
      rw [heq] at hcall
      exact .before hrest (hcall.after ((Leaves.refl _).write _) rfl)

theorem drainTimers_adjusts (h : Hub η) (k : Nat) :
    h.Adjusts (h.drainTimers k) fun j a => if j = k then a.finish.drain.2 else a := by
  unfold drainTimers
  split
  next hnone =>
    refine (Adjusts.refl h).congr fun j a ha => ?_
    split
    next hj =>
      subst hj
      rw [alarm?, hnone] at ha
      cases ha
    · rfl
  next x hx =>
    refine .modifyAdaptor h k _ _ fun b hb => ?_
    rw [hx] at hb
    cases hb
    rfl

/-- What each step does to the alarms of the adaptors, unless it opens or removes one. -/
theorem perform_clears (hq : h.Quiet) (hs : h.ledger.Sound) (now : Int) {s : Step η}
    (hopen : ∀ a, s ≠ .openAdaptor a) (hremove : ∀ k, s ≠ .remove k) :
    h.Clears (s.perform now h).2 fun k => s.tend h now (.adaptor k) := by
  cases s with
  | ledger s => exact .onLedger hq hs now s
  | setAnswer name answer => exact .of_adjusts (Leaves.of_eq rfl rfl)
  | openAdaptor account => exact absurd rfl (hopen account)
  | setHandler k handler =>
    exact .of_adjusts ((Leaves.refl h).modifyAdaptor k fun _ => rfl)
  | subscribe k s =>
    refine .of_adjusts ((Leaves.refl h).updateAdaptor k fun a => ?_)
    unfold Adaptor.subscribe
    split <;> rfl
  | connect k => exact connect_clears hq hs k
  | disconnect k => exact .of_adjusts (disconnect_leaves h k)
  | sendMessage k m => exact (sendMessage_relays h now k m).clears hq hs
  | sendTransfer k t => exact sendTransfer_clears hq hs now k t
  | rejectTransfer k t reason => exact (rejectTransfer_relays h now k t reason).clears hq hs
  | fulfillCondition k id f => exact (fulfillCondition_relays h now k id f).clears hq hs
  | passTimers k => exact .of_adjusts (.modifyAdaptor h k _ (·.pass now) fun _ _ => rfl)
  | fireTimer k => exact fireTimer_clears hq hs now k
  | takeEvent k => exact .of_adjusts ((Leaves.refl h).modifyAdaptor k fun _ => rfl)
  | deliverEvent k => exact .of_adjusts ((Leaves.refl h).updateAdaptor k fun _ => rfl)
  | finishEvent k failure => exact .of_adjusts ((Leaves.refl h).updateAdaptor k fun _ => rfl)
  | haltTimers k => exact .of_adjusts (.modifyAdaptor h k _ (·.halt) fun _ _ => rfl)
  | drainTimers k => exact .of_adjusts (drainTimers_adjusts h k)
  | closeCourier k => exact .of_adjusts ((Leaves.refl h).modifyAdaptor k fun _ => rfl)
  | remove k => exact absurd rfl (hremove k)

/-- Only a step of the ledger itself works on the adopted timers. -/
theorem tend_ledger_eq (h : Hub η) (now : Int) (s : Step η) (a : Alarm) :
    s.tend h now .ledger a = (s.call? h).elim a fun c => c.tend now a := by
  cases hc : s.call? h with
  | none =>
    cases s with
    | ledger s => cases hc
    | _ => rfl
  | some c =>
    have hasks := call?_eq_some.1 hc
    cases hasks <;> rfl

/-- What a step can do to the alarm of an owner, when it leaves the ledger with a book. -/
inductive Turn (h : Hub η) (now : Int) (b : Book) :
    Step η → Owner → Option Alarm → Option Alarm → Prop
  | opened (account : Address) (x : Option Alarm) : Turn h now b (.openAdaptor account)
      (.adaptor h.nextKey) x (some (Alarm.make account.text).start)
  | removed (k : Nat) (x : Option Alarm) : Turn h now b (.remove k) (.adaptor k) x none
  | tended {s : Step η} {o : Owner} (x : Option Alarm) {ids : List Bytes}
      (hids : ∀ id ∈ ids, b.IsOver id) :
    Turn h now b s o x (x.map fun a => (s.tend h now o a).without ids)

theorem Turn.same (h : Hub η) (now : Int) (b : Book) {s : Step η} {o : Owner}
    (hs : ∀ a, s.tend h now o a = a) (x : Option Alarm) : Turn h now b s o x x := by
  have ht : Turn h now b s o x _ := .tended x (by simp : ∀ id ∈ [], b.IsOver id)
  simpa only [hs, Alarm.without_nil, Option.map_id'] using ht

/-- An alarm that is there after a step is a new one, or has been worked on. -/
theorem Turn.of_some {b : Book} {s : Step η} {o : Owner} {x : Option Alarm} {a' : Alarm}
    (ht : Turn h now b s o x (some a')) :
    (∃ account : Address, s = .openAdaptor account ∧ o = .adaptor h.nextKey ∧
      a' = (Alarm.make account.text).start) ∨
    ∃ a ids, x = some a ∧ (∀ id ∈ ids, b.IsOver id) ∧ a' = (s.tend h now o a).without ids := by
  generalize hx' : some a' = x' at ht
  cases ht with
  | opened account => exact .inl ⟨account, rfl, rfl, Option.some.inj hx'⟩
  | removed => cases hx'
  | tended x hids =>
    obtain ⟨a, rfl, rfl⟩ := Option.map_eq_some_iff.1 hx'.symm
    exact .inr ⟨a, _, rfl, hids, rfl⟩

theorem turn_perform (hq : h.Quiet) (hs : h.ledger.Sound) (now : Int) (s : Step η) (o : Owner) :
    Turn h now (s.perform now h).2.ledger.book s o (h.alarm? o) ((s.perform now h).2.alarm? o) := by
  cases o with
  | ledger =>
    have hledger := (perform_effect hq now s).ledger_eq
    have htend := tend_ledger_eq h now s
    show Turn h now _ s .ledger (some h.ledger.adopted) (some (s.perform now h).2.ledger.adopted)
    rw [hledger]
    cases hc : s.call? h with
    | none =>
      rw [hc] at htend
      exact .same h now _ htend _
    | some c =>
      rw [hc] at htend
      obtain ⟨ids, hids, ha⟩ := Ledger.adopted_perform hs now c
      have ht : Turn h now (c.perform now h.ledger).2.book s .ledger (some h.ledger.adopted) _ :=
        .tended _ hids
      rw [Option.map_some, htend, Option.elim_some, ← ha] at ht
      exact ht
  | adaptor k =>
    have hclears : (∀ a, s ≠ .openAdaptor a) → (∀ k, s ≠ .remove k) →
        Turn h now (s.perform now h).2.ledger.book s (.adaptor k) (h.alarm? (.adaptor k))
          ((s.perform now h).2.alarm? (.adaptor k)) := by
      intro hopen hremove
      obtain ⟨ids, hids, hf⟩ := perform_clears hq hs now hopen hremove
      rw [hf.alarm]
      exact .tended _ (hids k)
    cases s with
    | openAdaptor account =>
      simp only [Step.perform, openAdaptor, Adaptor.make]
      split
      next hmake =>
        split at hmake
        · cases hmake
        cases hmake
        by_cases hk : k = h.nextKey
        · subst hk
          simp only [alarm?, Table.get?_insert, if_true]
          exact .opened account _
        · simp only [alarm?, Table.get?_insert, if_neg hk]
          exact .same h now _ (fun _ => rfl) _
      · exact .same h now _ (fun _ => rfl) _
    | remove j =>
      simp only [Step.perform, remove, alarm?, Table.get?_erase]
      by_cases hk : k = j
      · subst hk
        rw [if_pos rfl]
        exact .removed k _
      · rw [if_neg hk]
        exact .same h now _ (fun _ => rfl) _
    | _ => exact hclears (by rintro a ⟨⟩) (by rintro j ⟨⟩)

/-! ### Where timers come from -/

/-- All that a step can do to an alarm by working on it. -/
inductive Tended (h : Hub η) (now : Int) (a : Alarm) : Step η → Alarm → Prop
  | left (s : Step η) : Tended h now a s a
  | adopted (tm : Timer) : Tended h now a (.ledger (.adopt tm)) (a.start.schedule tm).2
  | armed {k : Nat} {t : Transfer} {tm : Timer} (harms : h.arms? now k t = some tm) :
    Tended h now a (.sendTransfer k t) (a.schedule tm).2
  | passed (s : Step η) : Tended h now a s (a.pass now)
  | fired (s : Step η) : Tended h now a s a.rest
  | halted (s : Step η) : Tended h now a s a.halt
  | drained (s : Step η) : Tended h now a s a.finish.drain.2

theorem tended (h : Hub η) (now : Int) (s : Step η) (o : Owner) (a : Alarm) :
    h.Tended now a s (s.tend h now o a) := by
  cases o with
  | ledger =>
    cases s with
    | ledger s =>
      cases s with
      | adopt tm => exact .adopted tm
      | passAdopted => exact .passed _
      | fireAdopted => exact .fired _
      | _ => exact .left _
    | _ => exact .left _
  | adaptor k =>
    cases s with
    | sendTransfer j t =>
      simp only [Step.tend]
      split
      · cases harms : h.arms? now j t with
        | none => exact .left _
        | some tm => exact .armed harms
      · exact .left _
    | passTimers j =>
      simp only [Step.tend]
      split
      · exact .passed _
      · exact .left _
    | fireTimer j =>
      simp only [Step.tend]
      split
      · exact .fired _
      · exact .left _
    | haltTimers j =>
      simp only [Step.tend]
      split
      · exact .halted _
      · exact .left _
    | drainTimers j =>
      simp only [Step.tend]
      split
      · exact .drained _
      · exact .left _
    | _ => exact .left _

/-- What is taken out and not called back was so before, or was to come and is due. -/
theorem mem_batch_tend {s : Step η} {o : Owner} {a : Alarm} {tm : Timer}
    (hm : tm ∈ (s.tend h now o a).batch.getD []) :
    tm ∈ a.batch.getD [] ∨ tm ∈ a.timers.list ∧ tm.deadline ≤ now := by
  have ht := tended h now s o a
  generalize s.tend h now o a = a' at ht hm
  cases ht with
  | left => exact .inl hm
  | adopted t =>
    rw [Alarm.batch_schedule] at hm
    exact .inl (Alarm.batch_start _ ▸ hm)
  | armed =>
    rw [Alarm.batch_schedule] at hm
    exact .inl hm
  | passed => exact Alarm.mem_batch_pass hm
  | fired => exact .inl (Alarm.mem_batch_rest hm)
  | halted => exact .inl hm
  | drained => exact .inl (Alarm.batch_finish _ ▸ hm)

/-- What is to come was to come before, unless it was adopted or sent just now. -/
theorem mem_timers_tend {s : Step η} {o : Owner} {a : Alarm} {tm : Timer}
    (hm : tm ∈ (s.tend h now o a).timers.list) : tm ∈ a.timers.list ∨ s = .ledger (.adopt tm) ∨
      ∃ k t, s = .sendTransfer k t ∧ h.arms? now k t = some tm := by
  have ht := tended h now s o a
  generalize s.tend h now o a = a' at ht hm
  cases ht with
  | left => exact .inl hm
  | adopted t =>
    rcases Alarm.mem_timers_schedule hm with rfl | hm
    · exact .inr (.inl rfl)
    · rw [Alarm.timers_start] at hm
      exact .inl hm
  | armed harms =>
    rcases Alarm.mem_timers_schedule hm with rfl | hm
    · exact .inr (.inr ⟨_, _, rfl, harms⟩)
    · exact .inl hm
  | passed => exact .inl (Alarm.mem_timers_pass hm)
  | fired => exact .inl hm
  | halted => exact .inl hm
  | drained => cases hm

end Hub

end Interledger
