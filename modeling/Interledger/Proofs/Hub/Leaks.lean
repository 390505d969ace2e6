import Interledger.Proofs.Hub.Adaptors
import Interledger.Proofs.Hub.Custody
import Interledger.Proofs.Ledger.Commutation

/-! No timer is left behind. A transfer that comes to its end takes its timer along in the same
move: the ledger cancels its own, an adaptor cancels when it hears of the end, and a pass that
lets a transfer expire has taken the timer out itself. Only an adaptor that is not connected may
keep a timer for nothing, until it fires. All others have one timer for each transfer that they
answer for, and no other. -/

namespace Interledger

/-- The timers to come are those of some transfers, one for each. -/
structure Alarm.Tracks (a : Alarm) (ts : List Transfer) : Prop where
  size : a.timers.size = ts.length
  ids : (a.timers.list.map (·.id)).Perm (ts.map (·.id))
  deadlines : ∀ tm ∈ a.timers.list, ∃ t ∈ ts, t.id = tm.id ∧ t.expiresAt = some tm.deadline

namespace Hub

variable {η : Type} {h : Hub η} {now : Int} {k : Nat} {o : Owner} {tm : Timer} {id : Bytes}

theorem keeper_eq_adaptor_iff {j : Nat} :
    h.keeper j = .adaptor k ↔ j = k ∧ h.adaptors.contains k := by
  unfold keeper
  split
  next hc =>
    rw [Owner.adaptor.injEq]
    exact ⟨fun hj => ⟨hj, hj ▸ hc⟩, And.left⟩
  next hc =>
    refine iff_of_false Owner.noConfusion ?_
    rintro ⟨rfl, hk⟩
    exact hc hk

theorem keeper_eq_ledger_iff : h.keeper k = .ledger ↔ h.adaptors.contains k = false := by
  unfold keeper
  split
  next hc => simp [hc]
  next hc => simpa using hc

/-! ### Where the timers after a move come from -/

namespace Move

/-- Who has the timers of an owner after a move. -/
def heir : Move η → Owner → Owner
  | destroy k, o => o.heir k
  | _, o => o

theorem heir_eq_adaptor {m : Move η} (ho : m.heir o = .adaptor k) : o = .adaptor k := by
  cases m with
  | destroy j =>
    change o.heir j = _ at ho
    unfold Owner.heir at ho
    split at ho
    · cases ho
    · exact ho
  | _ => exact ho

theorem heir_eq_ledger {m : Move η} (ho : m.heir o = .ledger) :
    o = .ledger ∨ ∃ k, m = .destroy k ∧ o = .adaptor k := by
  cases m with
  | destroy k =>
    change o.heir k = _ at ho
    unfold Owner.heir at ho
    split at ho
    next hk => exact .inr ⟨k, rfl, hk⟩
    · exact .inl ho
  | _ => exact .inl ho

/-- A move sends one transfer or none. -/
theorem sends_eq (m : Move η) (now : Int) (h : Hub η) :
    m.sends now h = [] ∨ ∃ s, m.sends now h = [s] := by
  unfold sends
  split
  · split
    · exact .inr ⟨_, rfl⟩
    · exact .inl rfl
  · exact .inl rfl

/-- A move arms the timer of a transfer that it sends and leaves prepared. -/
structure Arms (now : Int) (h : Hub η) (m : Move η) (k : Nat) (tm : Timer) : Prop where
  fresh : h.ledger.book.contains tm.id = false
  sent : ∃ t, (k, t) ∈ m.sends now h ∧ t.id = tm.id ∧ t.expiresAt = some tm.deadline
  prepared : (m.perform now h).ledger.book.stateOf? tm.id = some .prepared

theorem arms_of_arming (hq : h.Quiet) (now : Int) {s : Step η} (hc : s.isCall)
    (hn : s.arming h now = some (k, tm)) : (call s hc).Arms now h k tm := by
  cases s with
  | sendTransfer j t =>
    obtain ⟨tm', harms, heq⟩ := Option.map_eq_some_iff.1 hn
    cases heq
    obtain ⟨hcall, hp, hx, hid⟩ := arms?_eq_some_iff.1 harms
    obtain ⟨hfresh, hstate⟩ := Ledger.state_of_prepare hp
    have hledger := (perform_effect hq now (.sendTransfer k t)).ledger_eq
    rw [hcall] at hledger
    refine ⟨hid ▸ hfresh, ⟨t, ?_, hid.symm, hx⟩, ?_⟩
    · rcases sendTransfer_cases h now k t with
        ⟨e, hnone, -⟩ | ⟨-, ⟨e, he, -⟩ | ⟨state, lines, -, heq⟩⟩
      · rw [hnone] at hcall
        cases hcall
      · rw [he] at hp
        cases hp
      · rw [sends, heq]
        exact List.mem_singleton_self _
    · show ((Step.sendTransfer k t).perform now h).2.ledger.book.stateOf? tm.id = _
      rw [hledger, hid]
      exact hstate
  | _ => cases hn

/-- All that a move can do: an adaptor goes, an adaptor comes, or timers come and go. -/
theorem perform_cases (hq : h.Quiet) (hs : h.ledger.Sound) (ht : h.Tidy) (now : Int) (m : Move η) :
    (∃ k, m = .destroy k) ∨ (∀ o, m.heir o = o) ∧ ((∃ name, h.Opens (m.perform now h) name) ∨
      ∃ new, h.Thins (m.perform now h) new ∧ ∀ k tm, new = some (k, tm) → m.Arms now h k tm) := by
  cases m with
  | call s hc =>
    refine .inr ⟨fun _ => rfl, ?_⟩
    by_cases hopen : ∃ a, s = .openAdaptor a
    · obtain ⟨account, rfl⟩ := hopen
      rcases openAdaptor_cases ht account with heq | hx
      · refine .inr ⟨none, ?_, nofun⟩
        show h.Thins (h.openAdaptor account).2 none
        rw [heq]
        exact .refl h
      · exact .inl ⟨_, hx⟩
    · exact .inr ⟨_, thins_call hq hs now hc fun a ha => hopen ⟨a, ha⟩,
        fun k tm hn => arms_of_arming hq now hc hn⟩
  | pass o => exact .inr ⟨fun _ => rfl, .inr ⟨none, thins_pass hq hs ht now o, nofun⟩⟩
  | destroy k => exact .inl ⟨k, rfl⟩

theorem keeper_perform (hq : h.Quiet) (hs : h.ledger.Sound) (ht : h.Tidy) (now : Int) (m : Move η)
    (hk : k < h.nextKey) : (m.perform now h).keeper k = m.heir (h.keeper k) := by
  rcases perform_cases hq hs ht now m with ⟨j, rfl⟩ | ⟨hheir, ⟨name, hx⟩ | ⟨new, hx, -⟩⟩
  · exact keeper_destroy hq ht now j k
  · rw [hheir, hx.keeper hk]
  · rw [hheir, keeper_congr (hx.contains_eq k)]

/-- A timer that is there after a move was there before, or is armed just now. -/
theorem holds_before (hq : h.Quiet) (hs : h.ledger.Sound) (ht : h.Tidy) {m : Move η}
    (hm : (m.perform now h).Holds o tm) :
    (∃ p, m.heir p = o ∧ h.Holds p tm) ∨ ∃ k, o = .adaptor k ∧ m.Arms now h k tm := by
  rcases perform_cases hq hs ht now m with ⟨k, rfl⟩ | ⟨hheir, ⟨name, hx⟩ | ⟨new, hx, hnew⟩⟩
  · exact .inl ((holds_destroy hq ht now).1 hm)
  · exact .inl ⟨o, hheir o, (hx.holds_iff ht).1 hm⟩
  · rcases hx.holds_before ht (fun n hn => (hnew n.1 n.2 hn).fresh) hm with hm | ⟨k, rfl, hn⟩
    · exact .inl ⟨o, hheir o, hm⟩
    · exact .inr ⟨k, rfl, hnew k tm hn⟩

end Move

/-! ### Transfers that come to their end -/

/-- A move takes a transfer out of escrow. -/
def Move.Settles (now : Int) (h : Hub η) (m : Move η) (id : Bytes) : Prop :=
  h.ledger.book.stateOf? id = some .prepared ∧
    (m.perform now h).ledger.book.stateOf? id ≠ some .prepared

instance (now : Int) (h : Hub η) (m : Move η) (id : Bytes) : Decidable (m.Settles now h id) :=
  inferInstanceAs (Decidable (_ ∧ _))

/-- An owner is told of the end of transfers: the ledger, and an adaptor with a session. -/
def IsTold (h : Hub η) (o : Owner) : Prop := ∀ k, o = .adaptor k → h.session k ≠ []

theorem alarm_own (s : Step η) (h : Hub η) (now : Int) (k : Nat) (a : Adaptor η) :
    (s.own h now k a).alarm = s.tend h now (.adaptor k) a.alarm := by
  cases s with
  | subscribe j p =>
    obtain ⟨subs, heq, -⟩ := a.subscribe_eq p
    simp only [Step.own, heq]
    split <;> rfl
  | connect j =>
    simp only [Step.own]
    split
    · split <;> rfl
    · rfl
  | setHandler | disconnect | takeEvent | deliverEvent | finishEvent | closeCourier =>
    simp only [Step.own]
    split <;> rfl
  | _ => rfl

/-- A listener with a session hears of the end of a transfer. -/
theorem mem_received_ended {l : Ledger} (hq : l.notices = []) {w : Listener}
    (hw : l.sessionsOf w ≠ []) (now : Int) (t : Transfer) (e : Ledger.Ending) :
    e.notice t ∈ w.received (l.ended now t e).callbacks := by
  obtain ⟨s, hs⟩ := List.exists_mem_of_ne_nil _ hw
  obtain ⟨hs, hlistener⟩ := List.mem_filter.1 hs
  rw [(Ledger.settles_ended hq now t e).callbacks]
  exact List.mem_map.2 ⟨_, List.mem_filter.2 ⟨List.mem_map_of_mem hs, hlistener⟩, rfl⟩

/-- A step that arms a timer prepares a transfer. -/
theorem call?_of_arming {s : Step η} {n : Nat × Timer} (hn : s.arming h now = some n) :
    ∃ t, s.call? h = some (.prepare t) := by
  cases s with
  | sendTransfer j t =>
    obtain ⟨tm, harms, -⟩ := Option.map_eq_some_iff.1 hn
    exact ⟨t, (arms?_eq_some_iff.1 harms).1⟩
  | _ => cases hn

/-- Whoever hears of the end that a call brings has no timer of the transfer any more. -/
theorem released_call (hq : h.Quiet) (hs : h.ledger.Sound) {s : Step η} (hc : s.isCall)
    (hset : (Move.call s hc).Settles now h tm.id) (ho : h.IsTold o) :
    ¬(s.perform now h).2.Holds o tm := by
  have hledger := (perform_effect hq now s).ledger_eq
  have hafter : (s.perform now h).2.ledger.book.stateOf? tm.id ≠ some .prepared := hset.2
  cases hcall : s.call? h with
  | none =>
    rw [hledger, hcall] at hafter
    exact absurd hset.1 hafter
  | some c =>
  rw [hcall] at hledger
  rw [hledger] at hafter
  have hfire : c ≠ .fireAdopted := by
    rintro rfl
    cases call?_eq_some.1 hcall with
    | ledger => cases hc
  obtain ⟨x, t, e, rfl, hid, hended⟩ := Ledger.ended_of_not_prepared hs now hfire hset.1 hafter
  rw [Option.elim_some, hended] at hledger
  rintro ⟨a', ha', hm⟩
  cases o with
  | ledger =>
    have hadopted : (s.perform now h).2.ledger.adopted = h.ledger.adopted.without [t.id] := by
      rw [hledger]
      exact Ledger.adopted_ended h.ledger now t e
    cases ha'
    rw [hadopted] at hm
    exact (Alarm.mem_without.1 hm).2 (List.mem_singleton.2 hid.symm)
  | adaptor k =>
    obtain ⟨b, hb, rfl⟩ := Option.map_eq_some_iff.1 ha'
    rcases cases_of_get?_perform hq hs hb with ⟨account, rfl, -⟩ | ⟨a, -, rfl⟩
    · cases hcall
    · have harming : s.arming h now = none := by
        rw [Option.eq_none_iff_forall_ne_some]
        intro n hn
        obtain ⟨u, hu⟩ := call?_of_arming hn
        rw [hcall] at hu
        cases x <;> cases hu
      rw [alarm_own, tend_of_isCall hc, harming] at hm
      refine (Alarm.mem_without.1 hm).2 (List.mem_filterMap.2 ⟨e.notice t, ?_, ?_⟩)
      · rw [Step.heard, hcall, Option.elim_some, hended]
        exact mem_received_ended hq.notices_eq (ho k rfl) now t e
      · rw [← hid]
        cases e <;> rfl

/-- A pass that lets a transfer expire has taken out its timer. -/
theorem released_pass (hq : h.Quiet) (hs : h.ledger.Sound) (ht : h.Tidy) {p : Owner}
    (hset : (Move.pass p).Settles now h tm.id) (hm : h.Holds o tm) :
    ¬(h.pass now p).Holds o tm := by
  cases ha : h.alarm? p with
  | none =>
    have hafter := hset.2
    rw [Move.perform, pass_of_none ha] at hafter
    exact absurd hset.1 hafter
  | some a =>
  obtain ⟨hw, hlapses⟩ := works_pass hq hs now ha (ht.ready p a ha)
  have hdue : tm.id ∈ (a.timers.due now).map (·.id) := by
    by_contra hn
    exact hset.2 ((hlapses.kept tm.id fun hid => absurd hid hn).trans hset.1)
  obtain ⟨u, hu, hid⟩ := List.mem_map.1 hdue
  obtain rfl := ht.single o p tm u hm ⟨a, ha, (List.takeWhile_sublist _).subset hu⟩ hid.symm
  rintro ⟨b, hb, hm'⟩
  obtain ⟨ids, -, hown⟩ := hw.own
  rw [hown, ha] at hb
  cases hb
  -- What is left is not due, and no two timers have one id.
  have hlater : tm ∈ (a.timers.later now).list := (Alarm.mem_without.1 hm').1
  have hnodup := (ht.ready o a ha).nodup_ids
  rw [← Timers.due_append_later a.timers now, List.map_append] at hnodup
  exact (List.nodup_append.1 hnodup).2.2 _ hdue _ (List.mem_map_of_mem hlater) rfl

/-- Nothing comes to its end when an adaptor goes. -/
theorem not_settles_destroy (hq : h.Quiet) (ht : h.Tidy) (now : Int) (k : Nat) (id : Bytes) :
    ¬(Move.destroy k).Settles now h id := by
  obtain ⟨-, -, hbook, -⟩ := destroy_spec hq now (ht.idle (.adaptor k))
  rintro ⟨hp, hn⟩
  rw [Move.perform, hbook] at hn
  exact hn hp

/-- A transfer that comes to its end takes its timer along, wherever that is heard. -/
theorem released (hq : h.Quiet) (hs : h.ledger.Sound) (ht : h.Tidy) {m : Move η}
    (hset : m.Settles now h tm.id) (hm : h.Holds o tm) (ho : h.IsTold o) :
    ¬(m.perform now h).Holds (m.heir o) tm := by
  cases m with
  | call s hc => exact released_call hq hs hc hset ho
  | pass p => exact released_pass hq hs ht hset hm
  | destroy k => exact absurd hset (not_settles_destroy hq ht now k tm.id)

/-- All timers of an owner are of transfers that are prepared. -/
def Live (h : Hub η) (o : Owner) : Prop :=
  ∀ tm, h.Holds o tm → h.ledger.book.stateOf? tm.id = some .prepared

/-- That is kept by a move, when whoever leaves timers to an owner hears of what ends. -/
theorem live_perform (hq : h.Quiet) (hs : h.ledger.Sound) (ht : h.Tidy) (m : Move η)
    (hlive : ∀ p, m.heir p = o → h.Live p)
    (ho : ∀ p tm, m.heir p = o → h.Holds p tm → m.Settles now h tm.id → h.IsTold p) :
    (m.perform now h).Live o := by
  intro tm hm
  rcases Move.holds_before hq hs ht hm with ⟨p, rfl, hold⟩ | ⟨k, -, harms⟩
  -- A timer of a transfer that is just over would have been released with it.
  · by_contra hn
    have hset : m.Settles now h tm.id := ⟨hlive p rfl tm hold, hn⟩
    exact released hq hs ht hset hold (ho p tm rfl hold hset) hm
  · exact harms.prepared

/-! ### Runs -/

/-- Whether an adaptor is connected, if it is there. -/
def Listens (h : Hub η) (k : Nat) : Bool := (h.adaptors.get? k).all (·.connected)

def Move.sparesAdaptors : Move η → Bool
  | call s _ => s.sparesAdaptors
  | _ => true

theorem Move.sparesAdaptors_steps {m : Move η} (hm : m.sparesAdaptors) (now : Int) (h : Hub η) :
    ∀ s ∈ m.steps now h, s.2.sparesAdaptors := by
  intro s hs
  cases m with
  | call s' hc =>
    obtain rfl := List.mem_singleton.1 hs
    exact hm
  | pass o =>
    rcases List.mem_cons.1 hs with rfl | hs
    · cases o <;> rfl
    · obtain ⟨_, -, rfl⟩ := List.mem_map.1 hs
      cases o <;> rfl
  | destroy k =>
    simp only [steps, retireSteps, List.mem_append, List.mem_map, List.mem_cons,
      List.not_mem_nil, or_false] at hs
    rcases hs with ((((((rfl | rfl) | ⟨_, -, rfl⟩) | rfl) | ⟨_, -, rfl⟩) | rfl) | rfl) <;> rfl

namespace Watch

variable {w : Watch η} {info : LedgerInfo} {l : Ledger} {moves : List (Int × Move η)}

/-- A run of moves that spare the adaptors is a run of steps that do. -/
theorem exists_run_of_sparesAdaptors (hl : Ledger.make info = .ok l)
    (hs : ∀ m ∈ moves, m.2.sparesAdaptors) :
    ∃ steps, (∀ s ∈ steps, s.2.sparesAdaptors) ∧ (run l moves).hub = Hub.run l steps := by
  induction moves using List.reverseRecOn with
  | nil => exact ⟨[], List.forall_mem_nil _, rfl⟩
  | append_singleton moves m ih =>
    obtain ⟨steps, hsteps, hhub⟩ := ih fun m hm => hs m (List.mem_append_left _ hm)
    have hlast : m.2.sparesAdaptors := hs m (List.mem_append_right _ (List.mem_singleton_self m))
    refine ⟨_, fun s hm => ?_, hub_concat hl hhub m⟩
    rcases List.mem_append.1 hm with hm | hm
    · exact hsteps s hm
    · exact Move.sparesAdaptors_steps hlast m.1 (Hub.run l steps) s hm

/-- A connected adaptor has a session. -/
theorem session_ne_nil (hl : Ledger.make info = .ok l) (hs : ∀ m ∈ moves, m.2.sparesAdaptors)
    {a : Adaptor η} (ha : (run l moves).hub.adaptors.get? k = some a) (hc : a.connected) :
    (run l moves).hub.session k ≠ [] := by
  obtain ⟨steps, hsteps, hhub⟩ := exists_run_of_sparesAdaptors hl hs
  rw [hhub] at ha ⊢
  have hsession := (linked_run hl hsteps k).session a.link (link?_of_get? ha)
  rw [hsession, show a.link.connected = true from hc]
  exact List.cons_ne_nil _ _

/-- Each timer goes back to a transfer that was sent, and its owner answers for the adaptor. No
two transfers that were sent have one id. -/
structure Sourced (w : Watch η) : Prop where
  nodup_ids : (w.sent.map (·.2.id)).Nodup
  source : ∀ o tm, w.hub.Holds o tm → ∃ k t, (k, t) ∈ w.sent ∧ w.hub.keeper k = o ∧
    t.id = tm.id ∧ t.expiresAt = some tm.deadline

theorem Sourced.next (hx : w.Sourced) (hg : w.Guarded) (hq : w.hub.Quiet)
    (hs : w.hub.ledger.Sound) (now : Int) (m : Move η) : (w.next now m).Sourced where
  nodup_ids := by
    rcases m.sends_eq now w.hub with hnil | ⟨⟨k, t⟩, hone⟩
    · rw [Watch.next, hnil, List.append_nil]
      exact hx.nodup_ids
    · have hmem : (k, t) ∈ m.sends now w.hub := hone ▸ List.mem_singleton_self _
      obtain ⟨-, -, st, -, hp⟩ := Move.sends_cases hmem
      rw [Watch.next, hone, List.map_append]
      refine List.nodup_append.2 ⟨hx.nodup_ids, List.nodup_singleton _, fun id hid j hj heq => ?_⟩
      obtain ⟨⟨k', t'⟩, hm, rfl⟩ := List.mem_map.1 hid
      have hknown := (hg.guards k' t' hm).known
      rw [heq, List.mem_singleton.1 hj, (Ledger.state_of_prepare hp).1] at hknown
      cases hknown
  source o tm hm := by
    rcases Move.holds_before hq hs hg.tidy hm with ⟨p, rfl, hold⟩ | ⟨k, rfl, harms⟩
    · obtain ⟨k, t, ht, hk, hid⟩ := hx.source p tm hold
      refine ⟨k, t, List.mem_append_left _ ht, ?_, hid⟩
      exact (Move.keeper_perform hq hs hg.tidy now m (hg.guards k t ht).lt_nextKey).trans
        (congrArg m.heir hk)
    · obtain ⟨t, ht, hid⟩ := harms.sent
      refine ⟨k, t, List.mem_append_right _ ht, ?_, hid⟩
      obtain ⟨a, ha, -⟩ := hm
      exact if_pos (contains_adaptor_iff.2 ⟨a, ha⟩)

/-- What was sent through some adaptors, has an expiry and is prepared. -/
def outstanding (w : Watch η) (p : Nat → Bool) : List Transfer :=
  (w.sent.filter fun s => p s.1 && s.2.expiresAt.isSome &&
    w.hub.ledger.book.stateOf? s.2.id = some .prepared).map (·.2)

theorem mem_outstanding_iff {p : Nat → Bool} {t : Transfer} : t ∈ w.outstanding p ↔
    ∃ k, (k, t) ∈ w.sent ∧ p k ∧ t.expiresAt.isSome ∧
      w.hub.ledger.book.stateOf? t.id = some .prepared := by
  simp [outstanding, and_assoc]

/-- An owner without timers for nothing has one for each transfer that it answers for. -/
theorem Guarded.tracks (hg : w.Guarded) (hx : w.Sourced) (hlive : w.hub.Live o) {a : Alarm}
    (ha : w.hub.alarm? o = some a) {p : Nat → Bool} (hp : ∀ k, p k ↔ w.hub.keeper k = o) :
    a.Tracks (w.outstanding p) := by
  have hsource : ∀ tm ∈ a.timers.list, ∃ t ∈ w.outstanding p, t.id = tm.id ∧
      t.expiresAt = some tm.deadline := by
    intro tm hm
    obtain ⟨k, t, ht, hk, hid, hexp⟩ := hx.source o tm ⟨a, ha, hm⟩
    refine ⟨t, mem_outstanding_iff.2 ⟨k, ht, (hp k).2 hk, hexp ▸ rfl, ?_⟩, hid, hexp⟩
    rw [hid]
    exact hlive tm ⟨a, ha, hm⟩
  have hids : (a.timers.list.map (·.id)).Perm ((w.outstanding p).map (·.id)) := by
    have hnodup : ((w.outstanding p).map (·.id)).Nodup := by
      rw [outstanding, List.map_map]
      exact hx.nodup_ids.sublist (List.filter_sublist.map _)
    -- No id is there twice on either side, so that both have to have the same ids.
    refine (List.perm_ext_iff_of_nodup (hg.tidy.ready o a ha).nodup_ids hnodup).2 fun id => ?_
    constructor
    · intro hid
      obtain ⟨tm, hm, rfl⟩ := List.mem_map.1 hid
      obtain ⟨t, ht, hid, -⟩ := hsource tm hm
      exact hid ▸ List.mem_map_of_mem ht
    · intro hid
      obtain ⟨t, ht, rfl⟩ := List.mem_map.1 hid
      obtain ⟨k, hsent, hk, hexp, hprep⟩ := mem_outstanding_iff.1 ht
      obtain ⟨e, he⟩ := Option.isSome_iff_exists.1 hexp
      obtain ⟨b, hb, hm⟩ := (hg.guards k t hsent).held e he hprep
      rw [(hp k).1 hk, ha] at hb
      cases hb
      exact List.mem_map.2 ⟨_, hm, rfl⟩
  exact ⟨by simpa [Timers.size] using hids.length_eq, hids, hsource⟩

theorem sourced_run (hl : Ledger.make info = .ok l) (moves : List (Int × Move η)) :
    (run l moves).Sourced := by
  induction moves using List.reverseRecOn with
  | nil =>
    refine ⟨List.nodup_nil, fun o tm hm => ?_⟩
    have hknown := (guarded_run hl ([] : List (Int × Move η))).tidy.known o tm hm
    rw [Ledger.make_eq_ok hl] at hknown
    cases hknown
  | append_singleton moves m ih =>
    rw [run_concat]
    exact ih.next (guarded_run hl moves) (quiet_run hl moves) (sound_run hl moves) m.1 m.2

/-! ### What holds at every move -/

/-- Every move of a run is made where something holds. -/
def Throughout (l : Ledger) (moves : List (Int × Move η)) (P : Watch η → Int → Move η → Prop) :
    Prop :=
  ∀ i now m, moves[i]? = some (now, m) → P (run l (moves.take i)) now m

theorem throughout_concat {P : Watch η → Int → Move η → Prop} {m : Int × Move η}
    (h : Throughout l (moves ++ [m]) P) : Throughout l moves P ∧ P (run l moves) m.1 m.2 := by
  constructor
  · intro i now m' hi
    have hlt : i < moves.length := (List.getElem?_eq_some_iff.1 hi).1
    have hm := h i now m' (by rw [List.getElem?_append_left hlt, hi])
    rwa [List.take_append_of_le_length (Nat.le_of_lt hlt)] at hm
  · have hm := h moves.length m.1 m.2 List.getElem?_concat_length
    rwa [List.take_left] at hm

/-- What was sent through an adaptor comes to its end only where the adaptor is connected. -/
def Attended (l : Ledger) (moves : List (Int × Move η)) (k : Nat) : Prop :=
  Throughout l moves fun w now m =>
    ∀ s ∈ w.sent, s.1 = k → m.Settles now w.hub s.2.id → w.hub.Listens k

/-- Each adaptor that goes leaves just the timers of what was sent through it. -/
def LeftInOrder (l : Ledger) (moves : List (Int × Move η)) : Prop :=
  Throughout l moves fun w _ m => ∀ k, m = .destroy k → ∀ a, w.hub.adaptors.get? k = some a →
    a.alarm.Tracks (w.outstanding (· = k))

/-- Whoever answers for a connected adaptor, or for one that is gone, hears of all ends. -/
theorem isTold_keeper (hl : Ledger.make info = .ok l) (hs : ∀ m ∈ moves, m.2.sparesAdaptors)
    (hk : (run l moves).hub.Listens k) :
    (run l moves).hub.IsTold ((run l moves).hub.keeper k) := by
  intro j hj
  obtain ⟨rfl, hcontains⟩ := keeper_eq_adaptor_iff.1 hj
  obtain ⟨a, ha⟩ := Table.contains_iff_exists.1 hcontains
  rw [Listens, ha] at hk
  exact session_ne_nil hl hs ha hk

theorem live_of_attended (hl : Ledger.make info = .ok l) (hs : ∀ m ∈ moves, m.2.sparesAdaptors)
    (hatt : Attended l moves k) : (run l moves).hub.Live (.adaptor k) := by
  induction moves using List.reverseRecOn with
  | nil =>
    rintro tm ⟨a, ha, -⟩
    cases ha
  | append_singleton moves m ih =>
    have hs' : ∀ m ∈ moves, m.2.sparesAdaptors := fun m hm => hs m (List.mem_append_left _ hm)
    obtain ⟨hatt', hlast⟩ := throughout_concat hatt
    rw [run_concat]
    refine live_perform (quiet_run hl moves) (sound_run hl moves) (guarded_run hl moves).tidy m.2
      (fun p hp => Move.heir_eq_adaptor hp ▸ ih hs' hatt') ?_
    intro p tm hp hm hset
    obtain rfl := Move.heir_eq_adaptor hp
    obtain ⟨j, t, ht, hkeeper, hid, -⟩ := (sourced_run hl moves).source _ tm hm
    obtain rfl := (keeper_eq_adaptor_iff.1 hkeeper).1
    rw [← hid] at hset
    rw [← hkeeper]
    exact isTold_keeper hl hs' (hlast (j, t) ht rfl hset)

theorem live_adopted (hl : Ledger.make info = .ok l) (hs : ∀ m ∈ moves, m.2.sparesAdaptors)
    (hleft : LeftInOrder l moves) : (run l moves).hub.Live .ledger := by
  induction moves using List.reverseRecOn with
  | nil =>
    intro tm hm
    obtain ⟨k, t, ht, -⟩ := (sourced_run hl ([] : List (Int × Move η))).source _ tm hm
    cases ht
  | append_singleton moves m ih =>
    have hs' : ∀ m ∈ moves, m.2.sparesAdaptors := fun m hm => hs m (List.mem_append_left _ hm)
    obtain ⟨hleft', hlast⟩ := throughout_concat hleft
    have hq := quiet_run hl moves
    have ht := (guarded_run hl moves).tidy
    rw [run_concat]
    refine live_perform hq (sound_run hl moves) ht m.2 (fun p hp => ?_) ?_
    · rcases Move.heir_eq_ledger hp with rfl | ⟨k, hk, rfl⟩
      · exact ih hs' hleft'
      -- The adaptor that goes may have missed an end before, but then it was not left in order.
      · rintro tm ⟨a, ha, hm⟩
        obtain ⟨x, hx, rfl⟩ := Option.map_eq_some_iff.1 ha
        obtain ⟨t, ht, hid, -⟩ := (hlast k hk x hx).deadlines tm hm
        obtain ⟨-, -, -, -, hp⟩ := mem_outstanding_iff.1 ht
        exact hid ▸ hp
    · intro p tm hp hm hset
      rcases Move.heir_eq_ledger hp with rfl | ⟨k, hk, rfl⟩
      · exact nofun
      · rw [hk] at hset
        exact absurd hset (not_settles_destroy hq ht m.1 k tm.id)

/-- A transfer that comes to its end leaves no timer anywhere, when the adaptor that it was sent
through is connected or gone. -/
theorem unarmed_of_settles (hl : Ledger.make info = .ok l)
    (hs : ∀ m ∈ moves, m.2.sparesAdaptors) (now : Int) (m : Move η) {t : Transfer}
    (ht : (k, t) ∈ (run l moves).sent) (hset : m.Settles now (run l moves).hub t.id)
    (hk : (run l moves).hub.Listens k) :
    (m.perform now (run l moves).hub).armed.filter (·.2.id = t.id) = [] := by
  have hq := quiet_run hl moves
  have hsound := sound_run hl moves
  have hg := guarded_run hl moves
  have hx := sourced_run hl moves
  rw [List.filter_eq_nil_iff]
  rintro ⟨o, tm⟩ hm hid
  rw [decide_eq_true_iff] at hid
  have hafter := (mem_armed_iff (hg.next hq hsound now m).tidy).1 hm
  rcases Move.holds_before hq hsound hg.tidy hafter with ⟨p, rfl, hold⟩ | ⟨j, -, harms⟩
  · obtain ⟨j, u, hu, hkeeper, hid', -⟩ := hx.source p tm hold
    have hsame := List.inj_on_of_nodup_map hx.nodup_ids hu ht (hid'.trans hid)
    cases hsame
    rw [← hid] at hset
    exact released hq hsound hg.tidy hset hold (hkeeper ▸ isTold_keeper hl hs hk) hafter
  · exact hset.2 (hid ▸ harms.prepared)

/-- After every run of moves in which adaptors alone attach and detach themselves:

An adaptor that has been connected whenever a transfer that was sent through it came to its end
has just the timers of those that are prepared and have an expiry. If each adaptor that is gone
had just these when it went, the ledger has adopted just the timers of what was sent through
adaptors that are gone. And whatever move brings a transfer to its end, from whichever side,
leaves no timer of it in any alarm, unless the adaptor that it was sent through is there and not
connected. -/
theorem no_timer_leaks (hl : Ledger.make info = .ok l) (moves : List (Int × Move η))
    (hs : ∀ m ∈ moves, m.2.sparesAdaptors) :
    let w := run l moves
    (∀ k a, w.hub.adaptors.get? k = some a → Attended l moves k →
      a.alarm.Tracks (w.outstanding (· = k))) ∧
    (LeftInOrder l moves →
      w.hub.ledger.adopted.Tracks (w.outstanding fun k => !w.hub.adaptors.contains k)) ∧
    ∀ now (m : Move η) k t, (k, t) ∈ w.sent → m.Settles now w.hub t.id → w.hub.Listens k →
      (m.perform now w.hub).armed.filter (·.2.id = t.id) = [] := by
  intro w
  have hg := guarded_run hl moves
  have hx := sourced_run hl moves
  refine ⟨fun k a ha hatt => ?_, fun hleft => ?_,
    fun now m k t ht hset hk => unarmed_of_settles hl hs now m ht hset hk⟩
  · have hcontains : w.hub.adaptors.contains k := Table.contains_iff_exists.2 ⟨a, ha⟩
    refine hg.tracks hx (live_of_attended hl hs hatt) (by rw [alarm?, ha]; rfl) fun j => ?_
    rw [keeper_eq_adaptor_iff, decide_eq_true_iff, and_iff_left hcontains]
  · refine hg.tracks hx (live_adopted hl hs hleft) rfl fun j => ?_
    rw [keeper_eq_ledger_iff, Bool.not_eq_true']

/-- One adaptor has sent two transfers, and the other one has fulfilled the first of them. -/
def sampleServed : List (Int × Move Unit) := sampleLeft.take 5 ++ [
  (2, .call (.sendTransfer 0 (Ledger.Sample.locked 'q')) rfl),
  (2, .call (.openAdaptor Ledger.Sample.bob) rfl), (2, .call (.connect 1) rfl),
  (3, .call (.fulfillCondition 1 "p" Ledger.Sample.preimage) rfl)]

/-- The sender is left with one timer, and so is the ledger when the sender has gone. -/
theorem no_timer_leaks_served :
    let l := Ledger.Sample.ledger
    let gone := sampleServed ++ [(4, .destroy 0)]
    Ledger.make l.info = .ok l ∧ (∀ m ∈ gone, m.2.sparesAdaptors) ∧ Attended l sampleServed 0 ∧
    LeftInOrder l gone ∧
    (∃ a, (run l sampleServed).hub.adaptors.get? 0 = some a ∧
      a.alarm.Tracks [Ledger.Sample.locked 'q']) ∧
    (run l gone).hub.ledger.adopted.Tracks [Ledger.Sample.locked 'q'] := by
  dsimp only
  have hl : Ledger.make Ledger.Sample.ledger.info = .ok Ledger.Sample.ledger := rfl
  have hs : ∀ m ∈ sampleServed, m.2.sparesAdaptors := by decide
  have hs' : ∀ m ∈ sampleServed ++ [(4, .destroy 0)], m.2.sparesAdaptors := by decide
  have hatt : Attended Ledger.Sample.ledger sampleServed 0 := by
    intro i now m hi
    have hlt : i < 9 := (List.getElem?_eq_some_iff.1 hi).1
    interval_cases i <;> cases hi <;> decide +kernel
  obtain ⟨htracks, -, -⟩ := no_timer_leaks hl sampleServed hs
  have hleft : LeftInOrder Ledger.Sample.ledger (sampleServed ++ [(4, .destroy 0)]) := by
    intro i now m hi k hk a ha
    have hlt : i < 10 := (List.getElem?_eq_some_iff.1 hi).1
    interval_cases i <;> cases hi <;> cases hk
    exact htracks 0 a ha hatt
  obtain ⟨-, hadopted, -⟩ := no_timer_leaks hl (sampleServed ++ [(4, .destroy 0)]) hs'
  obtain ⟨a, ha⟩ : ∃ a, (run Ledger.Sample.ledger sampleServed).hub.adaptors.get? 0 = some a :=
    Option.isSome_iff_exists.1 (by decide +kernel)
  refine ⟨hl, hs', hatt, hleft, ⟨a, ha, ?_⟩, ?_⟩
  · have houtstanding : (run Ledger.Sample.ledger sampleServed).outstanding (· = 0) =
        [Ledger.Sample.locked 'q'] := by decide +kernel
    exact houtstanding ▸ htracks 0 a ha hatt
  · have houtstanding : (run Ledger.Sample.ledger (sampleServed ++ [(4, .destroy 0)])).outstanding
        (fun k => !(run Ledger.Sample.ledger
          (sampleServed ++ [(4, .destroy 0)])).hub.adaptors.contains k) =
        [Ledger.Sample.locked 'q'] := by decide +kernel
    exact houtstanding ▸ hadopted hleft

end Watch

end Hub

end Interledger
