import Interledger.Proofs.Hub.Sessions

/-! What a step does to each adaptor, in full.

An adaptor first hears what its session brings from the ledger, and is then worked on when it
is the one that the step is about. Of the events that it raises, those that are no news are
about its own connection. -/

namespace Interledger

namespace Adaptor

variable {η : Type}

/-- Hearing a notice cancels a timer and raises an event, if there is one for it. -/
theorem hear_eq (a : Adaptor η) (n : Notice) : (a.hear n).2 = { a with
    alarm := a.alarm.without n.over?.toList
    courier := (a.news n).elim a.courier a.courier.raise } := by
  have hreport : ∀ (a : Adaptor η) (t : Transfer) (event : Direction → Event),
      let e := if a.concerns t then some (event (.of a.account t)) else none
      a.report t event = { a with courier := e.elim a.courier a.courier.raise } := by
    intro a t event
    dsimp only
    unfold report
    split <;> rfl
  cases n with
  | prepared t =>
    show a.report t _ = { a with alarm := a.alarm.without [], courier := _ }
    rw [hreport, Alarm.without_nil]
    rfl
  | executed t f =>
    show (a.release t.id).2.report t (.executed t · f) = _
    rw [hreport, release_eq, Alarm.cancel_eq]
    rfl
  | rejected t reason =>
    show (a.release t.id).2.report t (.rejected t · reason) = _
    rw [hreport, release_eq, Alarm.cancel_eq]
    rfl
  | message m =>
    show (if a.accepts m then _ else a) = { a with
      alarm := a.alarm.without [], courier := Option.elim (if a.accepts m then _ else _) _ _ }
    rw [Alarm.without_nil]
    split <;> rfl

/-- An adaptor once it has heard some notices. -/
def hears (a : Adaptor η) (ns : List Notice) : Adaptor η := { a with
  alarm := a.alarm.without (ns.filterMap (·.over?))
  courier := (ns.filterMap a.news).foldl Courier.raise a.courier }

theorem foldl_hear_eq (ns : List Notice) (a : Adaptor η) :
    ns.foldl (fun a n => (a.hear n).2) a = a.hears ns := by
  induction ns generalizing a with
  | nil => exact congrArg (fun alarm => { a with alarm }) a.alarm.without_nil.symm
  | cons n ns ih =>
    have hnews : ((a.hear n).2).news = a.news := a.news_hear n
    rw [List.foldl_cons, ih, hears, hnews, hear_eq, hears, Alarm.without_without,
      List.filterMap_cons, List.filterMap_cons]
    cases n.over? <;> cases a.news n <;> rfl

theorem link_hears (a : Adaptor η) (ns : List Notice) :
    (a.hears ns).link = a.link.raise (ns.filterMap a.news) := by
  rw [← foldl_hear_eq]
  exact link_foldl_hear ns a

@[simp] theorem hears_nil (a : Adaptor η) : a.hears [] = a := (foldl_hear_eq [] a).symm

/-- Subscribing adds to the subscriptions and does nothing else. -/
theorem subscribe_eq (a : Adaptor η) (s : Address) : ∃ subscriptions,
    (a.subscribe s).2 = { a with subscriptions } ∧
      ∀ p, p ∈ subscriptions ↔ p ∈ a.subscriptions ∨ p = s := by
  unfold subscribe
  split
  next hs =>
    refine ⟨a.subscriptions, rfl, fun p => ⟨.inl, ?_⟩⟩
    rintro (hp | rfl)
    · exact hp
    · exact hs
  · exact ⟨_, rfl, fun p => Address.mem_insert.trans or_comm⟩

end Adaptor

namespace Hub

variable {η : Type} {h h' h'' : Hub η} {now : Int} {k : Nat}

/-! ### Changes of adaptors -/

/-- Each adaptor of a hub has changed as told, and nothing else that steps go by but the
ledger. -/
structure Alters (h h' : Hub η) (f : Nat → Adaptor η → Adaptor η) : Prop where
  nextKey : h'.nextKey = h.nextKey
  answers : h'.answers = h.answers
  adaptor : ∀ k, h'.adaptors.get? k = (h.adaptors.get? k).map (f k)

namespace Alters

variable {f g : Nat → Adaptor η → Adaptor η}

theorem of_eq (hn : h'.nextKey = h.nextKey) (ha : h'.answers = h.answers)
    (hx : h'.adaptors = h.adaptors) : h.Alters h' fun _ a => a :=
  ⟨hn, ha, fun k => by rw [hx]; exact Option.map_id'.symm⟩

theorem refl (h : Hub η) : h.Alters h fun _ a => a := .of_eq rfl rfl rfl

theorem trans (hf : h.Alters h' f) (hg : h'.Alters h'' g) :
    h.Alters h'' fun k a => g k (f k a) where
  nextKey := hg.nextKey.trans hf.nextKey
  answers := hg.answers.trans hf.answers
  adaptor k := by
    rw [hg.adaptor, hf.adaptor, Option.map_map]
    rfl

theorem congr (hf : h.Alters h' f) (hfg : ∀ k a, h.adaptors.get? k = some a → f k a = g k a) :
    h.Alters h' g where
  nextKey := hf.nextKey
  answers := hf.answers
  adaptor k := by
    rw [hf.adaptor]
    exact Option.map_congr fun a ha => hfg k a ha

theorem write (hf : h.Alters h' f) (lines : List Log.Line) : h.Alters (h'.write lines) f :=
  ⟨hf.nextKey, hf.answers, hf.adaptor⟩

theorem modifyAdaptor (h : Hub η) (j : Nat) (f : Adaptor η → Adaptor η) :
    h.Alters (h.modifyAdaptor j f) fun k a => if k = j then f a else a where
  nextKey := rfl
  answers := rfl
  adaptor k := by
    refine (Table.get?_modify ..).trans ?_
    split
    · rfl
    · exact Option.map_id'.symm

theorem updateAdaptor (h : Hub η) (j : Nat) (f : Adaptor η → List Log.Line × Adaptor η) :
    h.Alters (h.updateAdaptor j f) fun k a => if k = j then (f a).2 else a where
  nextKey := by
    unfold Hub.updateAdaptor
    split <;> rfl
  answers := by
    unfold Hub.updateAdaptor
    split <;> rfl
  adaptor k := by
    rw [get?_updateAdaptor]
    split
    · rfl
    · exact Option.map_id'.symm

theorem modifyAlarm (h : Hub η) (j : Nat) (f : Alarm → Alarm) :
    h.Alters (h.modifyAdaptor j fun a => { a with alarm := f a.alarm }) fun k a =>
      { a with alarm := if k = j then f a.alarm else a.alarm } := by
  refine (modifyAdaptor ..).congr fun k a _ => ?_
  split <;> rfl

theorem publish (h : Hub η) : h.Alters h.publish fun k a =>
    a.hears ((Listener.adaptor k).received h.ledger.callbacks) where
  nextKey := (keys_publish h).2
  answers := by
    have hfold : ∀ (calls : List (Listener × Notice)) (g : Hub η),
        (calls.foldl bring g).answers = g.answers := by
      intro calls
      induction calls with
      | nil => exact fun _ => rfl
      | cons c calls ih =>
        intro g
        rw [List.foldl_cons, ih]
        unfold bring
        split
        · exact (updateAdaptor g ..).answers
        · rfl
    rw [publish_eq]
    exact hfold _ _
  adaptor k := by
    rw [get?_adaptors_publish]
    exact Option.map_congr fun a _ => Adaptor.foldl_hear_eq _ a

/-- What a call on the ledger does to the adaptors. -/
theorem onLedger {α : Type} (h : Hub η) (call : Ledger → Outcome Ledger α) :
    h.Alters (h.onLedger call).2 fun k a =>
      a.hears ((Listener.adaptor k).received (call h.ledger).2.callbacks) :=
  let hp := publish { h with ledger := (call h.ledger).2 }
  ⟨hp.nextKey, hp.answers, hp.adaptor⟩

end Alters

/-! ### What an adaptor hears -/

/-- What a step brings to an adaptor from the ledger. -/
def Step.heard (h : Hub η) (now : Int) (k : Nat) (s : Step η) : List Notice :=
  (s.call? h).elim [] fun c => (Listener.adaptor k).received (c.perform now h.ledger).2.callbacks

/-- A hub after what a step asks of the ledger. -/
def Step.called (h : Hub η) (now : Int) (s : Step η) : Hub η :=
  (s.call? h).elim h fun c => (h.onLedger fun l => c.perform now l).2

theorem alters_called (h : Hub η) (now : Int) (s : Step η) :
    h.Alters (s.called h now) fun k a => a.hears (s.heard h now k) := by
  unfold Step.called Step.heard
  cases s.call? h with
  | none => exact (Alters.refl h).congr fun _ a _ => a.hears_nil.symm
  | some c => exact .onLedger h _

/-- Who opens or closes a session hears nothing of it. -/
theorem heard_of_seated (hq : h.Quiet) (hs : h.ledger.Sound) {s : Step η}
    (hc : ∀ c, s.call? h = some c → ∃ w, c.seated? = some w) : s.heard h now k = [] := by
  unfold Step.heard
  cases hcall : s.call? h with
  | none => rfl
  | some c =>
    obtain ⟨w, hw⟩ := hc c hcall
    rw [Option.elim_some, Ledger.callbacks, notices_of_seated hq hs now hw]
    rfl

/-! ### What a step does to the adaptor that it is about -/

/-- What a step does to an adaptor that has heard what it brings from the ledger. -/
def Step.own (h : Hub η) (now : Int) (k : Nat) : Step η → Adaptor η → Adaptor η
  | setHandler j handler, a => if k = j then a.setHandler handler else a
  | subscribe j s, a => if k = j then (a.subscribe s).2 else a
  | connect j, a =>
    if k = j ∧ a.connected = false then
      if h.ledger.hasAccount a.account then
        { a with connected := true }.raise (.connect h.ledger.info)
      else a.raise (.disconnect (Error.accountNotFound a.account.text).message)
    else a
  | disconnect j, a =>
    if k = j ∧ a.connected then
      { a with connected := false }.raise (.disconnect "disconnect requested")
    else a
  | takeEvent j, a => if k = j then { a with courier := a.courier.take } else a
  | deliverEvent j, a => if k = j then { a with courier := a.courier.deliver.2 } else a
  | finishEvent j failure, a =>
    if k = j then { a with courier := (a.courier.finish failure).2 } else a
  | closeCourier j, a => if k = j then { a with courier := a.courier.close } else a
  | s, a => { a with alarm := s.tend h now (.adaptor k) a.alarm }

/-- What a step makes of the adaptor of a number. -/
def Step.turn (h : Hub η) (now : Int) (k : Nat) (x : Option (Adaptor η)) :
    Step η → Option (Adaptor η)
  | openAdaptor account => if k = h.nextKey then (Adaptor.make account).toOption.or x else x
  | remove j => if k = j then none else x
  | s => x.map fun a => s.own h now k (a.hears (s.heard h now k))

section
variable {j : Nat}

theorem connect_alters (hq : h.Quiet) (hs : h.ledger.Sound) (now : Int) (j : Nat) :
    h.Alters (h.connect j) fun k a =>
      (Step.connect j).own h now k (a.hears ((Step.connect j).heard h now k)) := by
  have hheard : ∀ k, (Step.connect j).heard h now k = [] := by
    intro k
    refine heard_of_seated hq hs fun c hc => ⟨.adaptor j, ?_⟩
    cases call?_eq_some.1 hc
    rfl
  simp only [hheard, Adaptor.hears_nil]
  cases ha : h.adaptors.get? j with
  | none =>
    have heq : h.connect j = h := by rw [connect, ha]
    rw [heq]
    refine (Alters.refl h).congr fun k b hb => (if_neg ?_).symm
    rintro ⟨rfl, -⟩
    rw [ha] at hb
    cases hb
  | some a =>
  -- The adaptor that connects is the one that is known by its number.
  have hone : ∀ {k b}, h.adaptors.get? k = some b → k = j → b = a := by
    rintro k b hb rfl
    exact Option.some.inj (hb.symm.trans ha)
  cases hc : a.connected with
  | true =>
    rw [connect_of_connected ha hc]
    refine (Alters.refl h).congr fun k b hb => (if_neg ?_).symm
    rintro ⟨hk, hoff⟩
    rw [hone hb hk, hc] at hoff
    cases hoff
  | false =>
    cases hn : h.ledger.hasAccount a.account with
    | true =>
      have hseat : h.Alters (h.seat a.account j) fun _ a => a := .of_eq rfl rfl rfl
      rw [connect_of_known hq ha hc hn]
      refine ((hseat.trans (.modifyAdaptor ..)).write _).congr fun k b hb => ?_
      by_cases hk : k = j
      · simp [Step.own, hk, hone hb hk, hc, hn]
      · simp [Step.own, hk]
    | false =>
      rw [connect_of_unknown hq ha hc hn]
      refine ((Alters.modifyAdaptor ..).write _).congr fun k b hb => ?_
      by_cases hk : k = j
      · simp [Step.own, hk, hone hb hk, hc, hn]
      · simp [Step.own, hk]

theorem disconnect_alters (hq : h.Quiet) (hs : h.ledger.Sound) (now : Int) (j : Nat) :
    h.Alters (h.disconnect j) fun k a =>
      (Step.disconnect j).own h now k (a.hears ((Step.disconnect j).heard h now k)) := by
  have hheard : ∀ k, (Step.disconnect j).heard h now k = [] := by
    intro k
    refine heard_of_seated hq hs fun c hc => ⟨.adaptor j, ?_⟩
    cases call?_eq_some.1 hc
    rfl
  simp only [hheard, Adaptor.hears_nil]
  cases ha : h.adaptors.get? j with
  | none =>
    have heq : h.disconnect j = h := by rw [disconnect, ha]
    rw [heq]
    refine (Alters.refl h).congr fun k b hb => (if_neg ?_).symm
    rintro ⟨rfl, -⟩
    rw [ha] at hb
    cases hb
  | some a =>
  have hone : ∀ {k b}, h.adaptors.get? k = some b → k = j → b = a := by
    rintro k b hb rfl
    exact Option.some.inj (hb.symm.trans ha)
  cases hc : a.connected with
  | true =>
    have hdetach : h.Alters { h with ledger := h.ledger.detach (.adaptor j) } fun _ a => a :=
      .of_eq rfl rfl rfl
    rw [disconnect_of_connected ha hc]
    refine ((hdetach.trans (.modifyAdaptor ..)).write _).congr fun k b hb => ?_
    by_cases hk : k = j
    · simp [Step.own, hk, hone hb hk, hc]
    · simp [Step.own, hk]
  | false =>
    rw [disconnect_of_not_connected ha hc]
    refine (Alters.refl h).congr fun k b hb => (if_neg ?_).symm
    rintro ⟨hk, hon⟩
    rw [hone hb hk, hc] at hon
    cases hon

theorem write_nil (h : Hub η) : h.write [] = h :=
  congrArg (fun log => { h with log }) (List.append_nil _)

/-- A call of an adaptor that goes on to the ledger does nothing else but log. -/
theorem sendMessage_called (h : Hub η) (now : Int) (j : Nat) (m : Message) :
    ∃ lines, (h.sendMessage j m).2 = ((Step.sendMessage j m).called h now).write lines := by
  rw [Step.called, Step.call?, sendMessage]
  rcases connected_eq h j .sendMessage with ⟨a, ha, hc⟩ | ⟨e, ha, hc⟩
  · rw [ha, hc]
    by_cases hm : m.sender = a.account
    · simp only [Option.bind_some, hm, if_true, ne_eq, not_true_eq_false, if_false]
      exact ⟨_, rfl⟩
    · simp only [Option.bind_some, hm, if_false, ne_eq, not_false_eq_true, if_true]
      exact ⟨[], h.write_nil.symm⟩
  · rw [ha, hc]
    exact ⟨[], h.write_nil.symm⟩

theorem rejectTransfer_called (h : Hub η) (now : Int) (j : Nat) (t : Transfer) (reason : Reason) :
    ∃ lines, (h.rejectTransfer now j t reason).2 =
      ((Step.rejectTransfer j t reason).called h now).write lines := by
  rw [Step.called, Step.call?, rejectTransfer]
  rcases connected_eq h j .rejectTransfer with ⟨a, ha, hc⟩ | ⟨e, ha, hc⟩
  · rw [ha, hc]
    by_cases ht : t.receiver = a.account
    · simp only [Option.bind_some, ht, if_true, ne_eq, not_true_eq_false, if_false]
      rcases onLedger_cases h (·.reject now t.id a.account reason) with ⟨e, -, ho⟩ | ⟨u, -, ho⟩
      · rw [ho]
        exact ⟨[], (write_nil _).symm⟩
      · rw [ho]
        exact ⟨_, rfl⟩
    · simp only [Option.bind_some, ht, if_false, ne_eq, not_false_eq_true, if_true]
      exact ⟨[], h.write_nil.symm⟩
  · rw [ha, hc]
    exact ⟨[], h.write_nil.symm⟩

theorem fulfillCondition_called (h : Hub η) (now : Int) (j : Nat) (id : Bytes) (f : Fulfillment) :
    ∃ lines, (h.fulfillCondition now j id f).2 =
      ((Step.fulfillCondition j id f).called h now).write lines := by
  rw [Step.called, Step.call?, fulfillCondition]
  rcases connected_eq h j .fulfillCondition with ⟨a, ha, hc⟩ | ⟨e, ha, hc⟩
  · rw [ha, hc]
    simp only [Option.map_some]
    rcases onLedger_cases h (·.fulfill now id a.account f) with ⟨e, -, ho⟩ | ⟨u, -, ho⟩
    · rw [ho]
      exact ⟨[], (write_nil _).symm⟩
    · rw [ho]
      exact ⟨_, rfl⟩
  · rw [ha, hc]
    exact ⟨[], h.write_nil.symm⟩

theorem armExpiry_alters (h : Hub η) (j : Nat) (t : Transfer) (state : TransferState) :
    h.Alters (h.armExpiry j t state) fun k a => if k = j then { a with
      alarm := (if state = .prepared then t.expiresAt else none).elim a.alarm
        fun deadline => (a.alarm.schedule ⟨t.id, deadline⟩).2 } else a := by
  unfold armExpiry
  cases hx : t.expiresAt with
  | none => simpa using Alters.refl h
  | some deadline =>
    by_cases hp : state = .prepared
    · simp only [if_pos hp, Option.elim_some]
      refine (Alters.updateAdaptor ..).congr fun k a _ => ?_
      rcases a.alarm.schedule ⟨t.id, deadline⟩ with ⟨_ | _, alarm⟩ <;> rfl
    · simpa [hp] using Alters.refl h

theorem sendTransfer_alters (h : Hub η) (now : Int) (j : Nat) (t : Transfer) :
    h.Alters (h.sendTransfer now j t).2 fun k a =>
      (Step.sendTransfer j t).own h now k (a.hears ((Step.sendTransfer j t).heard h now k)) := by
  have hcalled := alters_called h now (Step.sendTransfer j t)
  rcases sendTransfer_cases h now j t with
    ⟨e, hcall, heq⟩ | ⟨hcall, ⟨e, he, heq⟩ | ⟨state, lines, hst, heq⟩⟩
  · have harms : h.arms? now j t = none := by rw [arms?, hcall]; rfl
    rw [Step.called, hcall] at hcalled
    rw [heq]
    refine hcalled.congr fun k a _ => ?_
    simp only [Step.own, Step.tend, harms, Option.elim_none, ite_self]
  · have harms : h.arms? now j t = none := by rw [arms?, hcall, Option.bind_some, he]
    rw [Step.called, hcall] at hcalled
    rw [heq]
    refine hcalled.congr fun k a _ => ?_
    simp only [Step.own, Step.tend, harms, Option.elim_none, ite_self]
  · have harms : h.arms? now j t =
        (if state = .prepared then t.expiresAt else none).map fun e => ⟨t.id, e⟩ := by
      rw [arms?, hcall, Option.bind_some, hst]
      by_cases hp : state = .prepared
      · rw [hp]
        rfl
      · rw [if_neg hp]
        cases state with
        | prepared => exact absurd rfl hp
        | _ => rfl
    rw [Step.called, hcall] at hcalled
    rw [heq]
    refine ((hcalled.trans (armExpiry_alters _ j t state)).write lines).congr fun k a _ => ?_
    simp only [Step.own, Step.tend, harms, Option.elim_map]
    split <;> rfl

/-- The alarm is worked on before the callback, which comes to the same. -/
theorem fireTimer_alters (h : Hub η) (now : Int) (j : Nat) :
    h.Alters (h.fireTimer now j) fun k a =>
      (Step.fireTimer j).own h now k (a.hears ((Step.fireTimer j).heard h now k)) := by
  cases hnext : (h.adaptors.get? j).bind fun a => a.alarm.next?.map fun r => (a, r) with
  | none =>
    have hcall : (Step.fireTimer j).call? h = none := by
      rw [Step.call?]
      cases hx : h.adaptors.get? j with
      | none => rfl
      | some a =>
        rw [hx] at hnext
        simpa using hnext
    simp only [fireTimer, hnext, Step.heard, hcall, Option.elim_none, Adaptor.hears_nil]
    refine (Alters.refl h).congr fun k a ha => ?_
    simp only [Step.own, Step.tend]
    split
    next hk =>
      rw [← hk, ha] at hnext
      rw [Alarm.rest_of_next?_eq_none (by simpa using hnext)]
    · rfl
  | some r =>
    obtain ⟨a, t, alarm⟩ := r
    obtain ⟨x, hx, hr⟩ := Option.bind_eq_some_iff.1 hnext
    obtain ⟨r, hr, heq⟩ := Option.map_eq_some_iff.1 hr
    cases heq
    obtain rfl := (Alarm.batch_of_next? hr).2
    have hcall : (Step.fireTimer j).call? h = some (.expire t.id) := by
      rw [Step.call?, hx, Option.bind_some, hr]
      rfl
    have hfired : ∃ lines, h.fireTimer now j =
        ((h.modifyAdaptor j fun b => { b with alarm := a.alarm.rest }).onLedger
          (·.expire now t.id)).2.write lines := by
      simp only [fireTimer, hnext]
      split
      next heq => exact ⟨_, by rw [heq]⟩
      next heq => exact ⟨_, by rw [heq]⟩
      next heq => exact ⟨_, by rw [heq]⟩
    obtain ⟨lines, hfired⟩ := hfired
    rw [hfired]
    refine (((Alters.modifyAdaptor ..).trans (.onLedger ..)).write lines).congr fun k b hb => ?_
    simp only [Step.own, Step.tend, Step.heard, hcall, Option.elim_some]
    by_cases hk : k = j
    · obtain rfl : b = a := by
        rw [hk, hx] at hb
        exact (Option.some.inj hb).symm
      simp only [if_pos hk]
      rfl
    · simp only [if_neg hk]
      rfl

theorem drainTimers_alters (h : Hub η) (now : Int) (j : Nat) :
    h.Alters (h.drainTimers j) fun k a => (Step.drainTimers j).own h now k a := by
  unfold drainTimers
  split
  next hnone =>
    refine (Alters.refl h).congr fun k a ha => ?_
    simp only [Step.own, Step.tend]
    split
    next hk =>
      rw [hk, hnone] at ha
      cases ha
    · rfl
  next x hx =>
    refine (Alters.modifyAdaptor ..).congr fun k a ha => ?_
    simp only [Step.own, Step.tend]
    by_cases hk : k = j
    · rw [hk, hx] at ha
      cases ha
      simp only [if_pos hk]
    · simp only [if_neg hk]

end

/-- Whether a step goes to the ledger or to adaptors that are there, and lets them stay. -/
def Step.isWork : Step η → Bool
  | setAnswer .. | openAdaptor _ | remove _ => false
  | _ => true

theorem perform_alters (hq : h.Quiet) (hs : h.ledger.Sound) (now : Int) {s : Step η}
    (hw : s.isWork) :
    h.Alters (s.perform now h).2 fun k a => s.own h now k (a.hears (s.heard h now k)) := by
  have hcalled := alters_called h now s
  have hplain : s.call? h = none → ∀ {h' : Hub η}, h.Alters h' (fun k a => s.own h now k a) →
      h.Alters h' fun k a => s.own h now k (a.hears (s.heard h now k)) := by
    intro hcall h' ha
    simpa only [Step.heard, hcall, Option.elim_none, Adaptor.hears_nil] using ha
  cases s with
  | ledger s => exact hcalled
  | setAnswer | openAdaptor | remove => cases hw
  | setHandler j handler => exact hplain rfl (.modifyAdaptor h j (·.setHandler handler))
  | subscribe j s => exact hplain rfl (.updateAdaptor h j (·.subscribe s))
  | connect j => exact connect_alters hq hs now j
  | disconnect j => exact disconnect_alters hq hs now j
  | sendMessage j m =>
    obtain ⟨lines, heq⟩ := sendMessage_called h now j m
    simp only [Step.perform, heq]
    exact hcalled.write lines
  | sendTransfer j t => exact sendTransfer_alters h now j t
  | rejectTransfer j t reason =>
    obtain ⟨lines, heq⟩ := rejectTransfer_called h now j t reason
    simp only [Step.perform, heq]
    exact hcalled.write lines
  | fulfillCondition j id f =>
    obtain ⟨lines, heq⟩ := fulfillCondition_called h now j id f
    simp only [Step.perform, heq]
    exact hcalled.write lines
  | passTimers j => exact hplain rfl (.modifyAlarm h j (·.pass now))
  | fireTimer j => exact fireTimer_alters h now j
  | takeEvent j => exact hplain rfl (.modifyAdaptor h j _)
  | deliverEvent j => exact hplain rfl (.updateAdaptor h j _)
  | finishEvent j failure => exact hplain rfl (.updateAdaptor h j _)
  | haltTimers j => exact hplain rfl (.modifyAlarm h j (·.halt))
  | drainTimers j => exact hplain rfl (drainTimers_alters h now j)
  | closeCourier j => exact hplain rfl (.modifyAdaptor h j _)

theorem turn_eq {s : Step η} (hw : s.isWork) (x : Option (Adaptor η)) :
    s.turn h now k x = x.map fun a => s.own h now k (a.hears (s.heard h now k)) := by
  cases s with
  | setAnswer | openAdaptor | remove => cases hw
  | _ => rfl

theorem make_eq_ok {account : Address} {a : Adaptor η} (ha : Adaptor.make account = .ok a) :
    account.isPrefix = false ∧ a =
      ⟨account, false, [], (Courier.make account.text).start, (Alarm.make account.text).start⟩ := by
  unfold Adaptor.make at ha
  split at ha
  · cases ha
  next hleaf => exact ⟨by simpa using hleaf, (Except.ok.inj ha).symm⟩

/-- How many numbers a step takes. -/
def Step.opened : Step η → Nat
  | openAdaptor account => if account.isPrefix then 0 else 1
  | _ => 0

/-- The answers of listeners that are no adaptors, after a step. -/
def Step.answered (answers : Table Bytes Bool) : Step η → Table Bytes Bool
  | setAnswer name b => answers.insert name b
  | _ => answers

theorem nextKey_eq (hq : h.Quiet) (hs : h.ledger.Sound) (now : Int) (s : Step η) :
    (s.perform now h).2.nextKey = h.nextKey + s.opened := by
  cases s with
  | openAdaptor account =>
    show (h.openAdaptor account).2.nextKey = h.nextKey + if account.isPrefix then 0 else 1
    unfold openAdaptor Adaptor.make
    by_cases hp : account.isPrefix
    · rw [if_pos hp, if_pos hp]
      rfl
    · rw [if_neg hp, if_neg hp]
  | setAnswer | remove => rfl
  | _ => exact (perform_alters hq hs now rfl).nextKey

theorem answers_eq (hq : h.Quiet) (hs : h.ledger.Sound) (now : Int) (s : Step η) :
    (s.perform now h).2.answers = s.answered h.answers := by
  cases s with
  | openAdaptor account =>
    show (h.openAdaptor account).2.answers = h.answers
    unfold openAdaptor
    split <;> rfl
  | setAnswer | remove => rfl
  | _ => exact (perform_alters hq hs now rfl).answers

/-- The adaptor of a number after a step. -/
theorem get?_perform (hq : h.Quiet) (hs : h.ledger.Sound) (now : Int) (s : Step η) (k : Nat) :
    (s.perform now h).2.adaptors.get? k = s.turn h now k (h.adaptors.get? k) := by
  cases s with
  | setAnswer name b =>
    show h.adaptors.get? k = (h.adaptors.get? k).map fun a => a.hears []
    simp only [Adaptor.hears_nil, Option.map_id']
  | openAdaptor account =>
    show (h.openAdaptor account).2.adaptors.get? k =
      if k = h.nextKey then (Adaptor.make account).toOption.or (h.adaptors.get? k)
      else h.adaptors.get? k
    unfold openAdaptor
    cases Adaptor.make account with
    | ok a => exact Table.get?_insert ..
    | error e => exact (ite_self _).symm
  | remove j => exact Table.get?_erase ..
  | _ => exact (perform_alters hq hs now rfl).adaptor k

/-- An adaptor that is there after a step is a new one, or was there before. -/
theorem cases_of_get?_perform (hq : h.Quiet) (hs : h.ledger.Sound) {s : Step η} {b : Adaptor η}
    (hb : (s.perform now h).2.adaptors.get? k = some b) :
    (∃ account, s = .openAdaptor account ∧ k = h.nextKey ∧ Adaptor.make account = .ok b) ∨
    ∃ a, h.adaptors.get? k = some a ∧ b = s.own h now k (a.hears (s.heard h now k)) := by
  rw [get?_perform hq hs] at hb
  cases s with
  | openAdaptor account =>
    have hsame : ∀ a, h.adaptors.get? k = some a → a = b →
        ∃ a, h.adaptors.get? k = some a ∧ b = (Step.openAdaptor account).own h now k
          (a.hears ((Step.openAdaptor account).heard h now k)) := by
      rintro a ha rfl
      exact ⟨a, ha, a.hears_nil.symm⟩
    rw [Step.turn] at hb
    split at hb
    next hk =>
      cases hm : Adaptor.make account with
      | ok a =>
        rw [hm] at hb
        exact .inl ⟨account, rfl, hk, hm.trans (congrArg _ (Option.some.inj hb))⟩
      | error e =>
        rw [hm] at hb
        exact .inr (hsame b hb rfl)
    · exact .inr (hsame b hb rfl)
  | remove j =>
    rw [Step.turn] at hb
    split at hb
    · cases hb
    · exact .inr ⟨b, hb, b.hears_nil.symm⟩
  | _ =>
    obtain ⟨a, ha, rfl⟩ := Option.map_eq_some_iff.1 hb
    exact .inr ⟨a, ha, rfl⟩

/-! ### What is left as it was -/

theorem account_own (s : Step η) (a : Adaptor η) : (s.own h now k a).account = a.account := by
  cases s with
  | subscribe j s =>
    obtain ⟨subs, heq, -⟩ := a.subscribe_eq s
    simp only [Step.own, heq]
    split <;> rfl
  | connect j =>
    simp only [Step.own]
    split
    · split <;> rfl
    · rfl
  | setHandler | disconnect | takeEvent | deliverEvent | finishEvent | closeCourier =>
    simp only [Step.own]
    split <;> rfl
  | _ => rfl

theorem mem_subscriptions_own (s : Step η) (a : Adaptor η) {p : Address} :
    p ∈ (s.own h now k a).subscriptions ↔ p ∈ a.subscriptions ∨ s = .subscribe k p := by
  cases s with
  | subscribe j s =>
    obtain ⟨subs, heq, hsubs⟩ := a.subscribe_eq s
    simp only [Step.own, heq]
    by_cases hk : k = j
    · rw [if_pos hk, hsubs, hk]
      simp [eq_comm]
    · simp [if_neg hk, Ne.symm hk]
  | connect j =>
    simp only [Step.own]
    split
    · split <;> simp [Adaptor.raise]
    · simp
  | setHandler | disconnect | takeEvent | deliverEvent | finishEvent | closeCourier =>
    simp only [Step.own]
    split <;> simp [Adaptor.setHandler, Adaptor.raise]
  | _ => simp [Step.own]

/-! ### What is raised -/

theorem events_own (h : Hub η) (now : Int) {s : Step η} (hs : s ≠ .takeEvent k) (a : Adaptor η) :
    ∃ es : List Event, (∀ e ∈ es, e.isLink) ∧
      (s.own h now k a).courier.queue.events = a.courier.queue.events ++ es := by
  have hsame : (s.own h now k a).courier.queue.events = a.courier.queue.events →
      ∃ es : List Event, (∀ e ∈ es, e.isLink) ∧
        (s.own h now k a).courier.queue.events = a.courier.queue.events ++ es :=
    fun heq => ⟨[], by simp, heq.trans (List.append_nil _).symm⟩
  cases s with
  | connect j =>
    simp only [Step.own]
    split
    · split
      · exact ⟨[_], by simp [Event.isLink], rfl⟩
      · exact ⟨[_], by simp [Event.isLink], rfl⟩
    · exact ⟨[], by simp, (List.append_nil _).symm⟩
  | disconnect j =>
    simp only [Step.own]
    split
    · exact ⟨[_], by simp [Event.isLink], rfl⟩
    · exact ⟨[], by simp, (List.append_nil _).symm⟩
  | takeEvent j =>
    have hk : k ≠ j := fun hk => hs (by rw [hk])
    exact hsame (by rw [Step.own, if_neg hk])
  | deliverEvent j | finishEvent j f =>
    apply hsame
    simp only [Step.own]
    split
    · simp only [Courier.queue_deliver, Courier.queue_finish]
    · rfl
  | subscribe j s =>
    obtain ⟨subs, heq, -⟩ := a.subscribe_eq s
    apply hsame
    simp only [Step.own, heq]
    split <;> rfl
  | setHandler | closeCourier =>
    apply hsame
    simp only [Step.own]
    split <;> rfl
  | _ => exact hsame rfl

theorem raised_openAdaptor (hq : h.Quiet) (hs : h.ledger.Sound) (now : Int) (account : Address)
    (k : Nat) : (Step.openAdaptor account).raised now h k = [] := by
  rw [Step.raised, waiting, waiting, get?_perform hq hs, Step.turn]
  split
  · cases hm : Adaptor.make account with
    | ok a =>
      have hqueue : a.courier.queue.events = [] := congrArg Link.queue (link_of_make hm)
      simp [Except.toOption, hqueue]
    | error e => exact List.drop_length
  · exact List.drop_length

theorem raised_remove (hq : h.Quiet) (hs : h.ledger.Sound) (now : Int) (j k : Nat) :
    (Step.remove j).raised now h k = [] := by
  rw [Step.raised, waiting, waiting, get?_perform hq hs, Step.turn]
  split
  · exact List.drop_nil
  · exact List.drop_length

theorem raised_takeEvent (hq : h.Quiet) (hs : h.ledger.Sound) (now : Int) (k : Nat) :
    (Step.takeEvent k).raised now h k = [] := by
  rw [Step.raised, waiting, waiting, get?_perform hq hs, turn_eq (s := .takeEvent k) rfl]
  cases h.adaptors.get? k with
  | none => rfl
  | some a =>
    simp only [Step.heard, Step.call?, Option.elim_none, Adaptor.hears_nil, Step.own, if_true,
      Option.map_some, Option.elim_some]
    rcases a.courier.events_take with heq | ⟨e, heq⟩
    · rw [heq]
      exact List.drop_length
    · rw [heq]
      exact List.drop_eq_nil_of_le (by simp)

/-- An adaptor raises the news of what it hears, and then perhaps an event about its own
connection. -/
theorem raised_eq (hq : h.Quiet) (hs : h.ledger.Sound) (now : Int) (s : Step η) (k : Nat) :
    ∃ es : List Event, (∀ e ∈ es, e.isLink) ∧ s.raised now h k =
      (h.adaptors.get? k).elim [] (fun a => (s.heard h now k).filterMap a.news) ++ es := by
  by_cases hidle : s.isWork = false ∨ s = .takeEvent k
  · have hnone : s.heard h now k = [] ∧ s.raised now h k = [] := by
      rcases hidle with hw | rfl
      · cases s with
        | setAnswer => exact ⟨rfl, List.drop_length⟩
        | openAdaptor account => exact ⟨rfl, raised_openAdaptor hq hs now account k⟩
        | remove j => exact ⟨rfl, raised_remove hq hs now j k⟩
        | _ => cases hw
      · exact ⟨rfl, raised_takeEvent hq hs now k⟩
    refine ⟨[], by simp, ?_⟩
    rw [hnone.1, hnone.2]
    cases h.adaptors.get? k <;> rfl
  · obtain ⟨hw, htake⟩ := not_or.1 hidle
    rw [Step.raised, waiting, waiting, get?_perform hq hs, turn_eq (Bool.of_not_eq_false hw)]
    cases h.adaptors.get? k with
    | none => exact ⟨[], by simp, rfl⟩
    | some a =>
      obtain ⟨es, hes, hevents⟩ := events_own h now htake (a.hears (s.heard h now k))
      have hheard : (a.hears (s.heard h now k)).courier.queue.events =
          a.courier.queue.events ++ (s.heard h now k).filterMap a.news :=
        congrArg Link.queue (a.link_hears _)
      refine ⟨es, hes, ?_⟩
      simp only [Option.map_some, Option.elim_some, hevents, hheard, List.append_assoc,
        List.drop_left]

end Hub

end Interledger
