import Interledger.Hub.Calls
import Interledger.Proofs.Hub.Notices

/-! The steps of a hub and the one thing that each asks of the ledger.

A step is a call on the ledger or on an adaptor, or a move of a worker. Each makes at most
one step of the ledger, `call?`, and besides changes adaptors only. Taking an adaptor out of
service is a sequence of steps, so that others can come between them. -/

namespace Interledger.Hub

variable {η : Type}

inductive Step (η : Type) where
  | ledger (s : Ledger.Step)
  | setAnswer (name : Bytes) (answer : Bool)
  | openAdaptor (account : Address)
  | setHandler (k : Nat) (handler : Option η)
  | subscribe (k : Nat) (s : Address)
  | connect (k : Nat)
  | disconnect (k : Nat)
  | sendMessage (k : Nat) (m : Message)
  | sendTransfer (k : Nat) (t : Transfer)
  | rejectTransfer (k : Nat) (t : Transfer) (reason : Reason)
  | fulfillCondition (k : Nat) (id : Bytes) (f : Fulfillment)
  | passTimers (k : Nat)
  | fireTimer (k : Nat)
  | takeEvent (k : Nat)
  | deliverEvent (k : Nat)
  | finishEvent (k : Nat) (failure : Option Bytes)
  | haltTimers (k : Nat)
  | drainTimers (k : Nat)
  | closeCourier (k : Nat)
  | remove (k : Nat)

/-- Takes out all timers of an adaptor, for the ledger to adopt. -/
def drainTimers (h : Hub η) (k : Nat) : Hub η :=
  match h.adaptors.get? k with
  | none => h
  | some a => h.modifyAdaptor k fun b => { b with alarm := a.alarm.finish.drain.2 }

def closeCourier (h : Hub η) (k : Nat) : Hub η :=
  h.modifyAdaptor k fun a => { a with courier := a.courier.close }

/-- One step at a reading of the clock. -/
def Step.perform (now : Int) (h : Hub η) : Step η → Outcome (Hub η) Ledger.Answer
  | ledger s => h.onLedger fun l => s.perform now l
  | setAnswer name answer => (.ok .done, { h with answers := h.answers.insert name answer })
  | openAdaptor account => ((h.openAdaptor account).1.map .count, (h.openAdaptor account).2)
  | setHandler k handler => (.ok .done, h.modifyAdaptor k (·.setHandler handler))
  | subscribe k s => (.ok .done, h.subscribe k s)
  | connect k => (.ok .done, h.connect k)
  | disconnect k => (.ok .done, h.disconnect k)
  | sendMessage k m => ((h.sendMessage k m).1.map fun _ => .done, (h.sendMessage k m).2)
  | sendTransfer k t => ((h.sendTransfer now k t).1.map fun _ => .done, (h.sendTransfer now k t).2)
  | rejectTransfer k t reason => ((h.rejectTransfer now k t reason).1.map fun _ => .done,
      (h.rejectTransfer now k t reason).2)
  | fulfillCondition k id f => ((h.fulfillCondition now k id f).1.map fun _ => .done,
      (h.fulfillCondition now k id f).2)
  | passTimers k => (.ok .done, h.passTimers now k)
  | fireTimer k => (.ok .done, h.fireTimer now k)
  | takeEvent k => (.ok .done, h.takeEvent k)
  | deliverEvent k => (.ok .done, h.deliverEvent k)
  | finishEvent k failure => (.ok .done, h.finishEvent k failure)
  | haltTimers k => (.ok .done, h.haltTimers k)
  | drainTimers k => (.ok .done, h.drainTimers k)
  | closeCourier k => (.ok .done, h.closeCourier k)
  | remove k => (.ok .done, h.remove k)

/-- The adaptor of a number, when it is connected. -/
def acting? (h : Hub η) (k : Nat) : Option (Adaptor η) := (h.adaptors.get? k).filter (·.connected)

/-- What a step asks of the ledger. -/
def Step.call? (h : Hub η) : Step η → Option Ledger.Step
  | ledger s => some s
  | connect k => (h.adaptors.get? k).bind fun a =>
      if a.connected then none else some (.attach a.account (.adaptor k))
  | disconnect k => (h.acting? k).map fun _ => .detach (.adaptor k)
  | sendMessage k m => (h.acting? k).bind fun a =>
      if m.sender = a.account then some (.deliver m (h.takes m)) else none
  | sendTransfer k t => (h.acting? k).bind fun a =>
      if t.sender = a.account then some (.prepare t) else none
  | rejectTransfer k t reason => (h.acting? k).bind fun a =>
      if t.receiver = a.account then some (.reject t.id a.account reason) else none
  | fulfillCondition k id f => (h.acting? k).map fun a => .fulfill id a.account f
  | fireTimer k => ((h.adaptors.get? k).bind (·.alarm.next?)).map fun r => .expire r.1.id
  | _ => none

theorem acting?_eq_some {h : Hub η} {k : Nat} {a : Adaptor η} :
    h.acting? k = some a ↔ h.adaptors.get? k = some a ∧ a.connected :=
  Option.filter_eq_some_iff

/-- What a step asks of the ledger, and who is there to ask it. -/
inductive Asks (h : Hub η) : Step η → Ledger.Step → Prop
  | ledger (c : Ledger.Step) : Asks h (.ledger c) c
  | connect {k : Nat} {a : Adaptor η} (ha : h.adaptors.get? k = some a)
      (hc : a.connected = false) : Asks h (.connect k) (.attach a.account (.adaptor k))
  | disconnect {k : Nat} {a : Adaptor η} (ha : h.acting? k = some a) :
    Asks h (.disconnect k) (.detach (.adaptor k))
  | sendMessage {k : Nat} {a : Adaptor η} {m : Message} (ha : h.acting? k = some a)
      (hm : m.sender = a.account) : Asks h (.sendMessage k m) (.deliver m (h.takes m))
  | sendTransfer {k : Nat} {a : Adaptor η} {t : Transfer} (ha : h.acting? k = some a)
      (ht : t.sender = a.account) : Asks h (.sendTransfer k t) (.prepare t)
  | rejectTransfer {k : Nat} {a : Adaptor η} {t : Transfer} {reason : Reason}
      (ha : h.acting? k = some a) (ht : t.receiver = a.account) :
    Asks h (.rejectTransfer k t reason) (.reject t.id a.account reason)
  | fulfillCondition {k : Nat} {a : Adaptor η} {id : Bytes} {f : Fulfillment}
      (ha : h.acting? k = some a) : Asks h (.fulfillCondition k id f) (.fulfill id a.account f)
  | fireTimer {k : Nat} {a : Adaptor η} {tm : Timer} {alarm : Alarm}
      (ha : h.adaptors.get? k = some a) (hn : a.alarm.next? = some (tm, alarm)) :
    Asks h (.fireTimer k) (.expire tm.id)

theorem call?_eq_some {h : Hub η} {s : Step η} {c : Ledger.Step} :
    s.call? h = some c ↔ h.Asks s c := by
  constructor
  · intro hc
    cases s with
    | ledger s =>
      cases hc
      exact .ledger c
    | connect k =>
      obtain ⟨a, ha, hc⟩ := Option.bind_eq_some_iff.1 hc
      obtain ⟨hoff, hc⟩ := Option.ite_none_left_eq_some.1 hc
      cases hc
      exact .connect ha (Bool.eq_false_iff.2 hoff)
    | disconnect k =>
      obtain ⟨a, ha, rfl⟩ := Option.map_eq_some_iff.1 hc
      exact .disconnect ha
    | sendMessage k m =>
      obtain ⟨a, ha, hc⟩ := Option.bind_eq_some_iff.1 hc
      obtain ⟨hm, hc⟩ := Option.ite_none_right_eq_some.1 hc
      cases hc
      exact .sendMessage ha hm
    | sendTransfer k t =>
      obtain ⟨a, ha, hc⟩ := Option.bind_eq_some_iff.1 hc
      obtain ⟨ht, hc⟩ := Option.ite_none_right_eq_some.1 hc
      cases hc
      exact .sendTransfer ha ht
    | rejectTransfer k t reason =>
      obtain ⟨a, ha, hc⟩ := Option.bind_eq_some_iff.1 hc
      obtain ⟨ht, hc⟩ := Option.ite_none_right_eq_some.1 hc
      cases hc
      exact .rejectTransfer ha ht
    | fulfillCondition k id f =>
      obtain ⟨a, ha, rfl⟩ := Option.map_eq_some_iff.1 hc
      exact .fulfillCondition ha
    | fireTimer k =>
      obtain ⟨r, hr, rfl⟩ := Option.map_eq_some_iff.1 hc
      obtain ⟨a, ha, hn⟩ := Option.bind_eq_some_iff.1 hr
      exact .fireTimer ha hn
    | _ => cases hc
  · intro hasks
    cases hasks with
    | ledger c => rfl
    | connect ha hc => rw [Step.call?, ha, Option.bind_some, hc]; rfl
    | disconnect ha => rw [Step.call?, ha]; rfl
    | sendMessage ha hm => rw [Step.call?, ha, Option.bind_some, if_pos hm]
    | sendTransfer ha ht => rw [Step.call?, ha, Option.bind_some, if_pos ht]
    | rejectTransfer ha ht => rw [Step.call?, ha, Option.bind_some, if_pos ht]
    | fulfillCondition ha => rw [Step.call?, ha]; rfl
    | fireTimer ha hn => rw [Step.call?, ha, Option.bind_some, hn]; rfl

theorem connected_eq (h : Hub η) (k : Nat) (call : AdaptorCall) :
    (∃ a, h.acting? k = some a ∧ h.connected k call = .ok a) ∨
    ∃ e, h.acting? k = none ∧ h.connected k call = .error e := by
  unfold connected acting?
  cases h.adaptors.get? k with
  | none => exact .inr ⟨_, rfl, rfl⟩
  | some a =>
    by_cases hc : a.connected
    · exact .inl ⟨a, by simp [hc], by simp [hc]⟩
    · exact .inr ⟨_, by simp [hc], by simp only [hc]; rfl⟩

/-! ### Calls that go on to the ledger -/

/-- What a call of an adaptor can come to: a refusal, or a call on the ledger, and lines in the
log. -/
inductive Relays (h : Hub η) (now : Int) : Hub η → Prop
  | refused : Relays h now h
  | called (c : Ledger.Step) : Relays h now (h.onLedger fun l => c.perform now l).2
  | logged {h' : Hub η} (hr : Relays h now h') (lines : List Log.Line) :
    Relays h now (h'.write lines)

theorem sendMessage_relays (h : Hub η) (now : Int) (k : Nat) (m : Message) :
    h.Relays now (h.sendMessage k m).2 := by
  unfold sendMessage
  split
  · exact .refused
  split
  · exact .refused
  · exact (Relays.called (.deliver m (h.takes m))).logged _

theorem rejectTransfer_relays (h : Hub η) (now : Int) (k : Nat) (t : Transfer) (reason : Reason) :
    h.Relays now (h.rejectTransfer now k t reason).2 := by
  unfold rejectTransfer
  split
  · exact .refused
  next a _ =>
  split
  · exact .refused
  have hcall : h.Relays now (h.onLedger (·.reject now t.id a.account reason)).2 :=
    .called (.reject t.id a.account reason)
  split
  next heq =>
    rw [heq] at hcall
    exact hcall
  next heq =>
    rw [heq] at hcall
    exact hcall.logged _

theorem fulfillCondition_relays (h : Hub η) (now : Int) (k : Nat) (id : Bytes) (f : Fulfillment) :
    h.Relays now (h.fulfillCondition now k id f).2 := by
  unfold fulfillCondition
  split
  · exact .refused
  next a _ =>
  have hcall : h.Relays now (h.onLedger (·.fulfill now id a.account f)).2 :=
    .called (.fulfill id a.account f)
  split
  next heq =>
    rw [heq] at hcall
    exact hcall
  next heq =>
    rw [heq] at hcall
    exact hcall.logged _

/-! ### All outcomes of a step -/

/-- Nothing has happened to the ledger, and nobody was told anything. -/
structure Aside (h h' : Hub η) : Prop where
  ledger : h'.ledger = h.ledger
  told : h'.told = h.told

/-- What a step can do that asks something of the ledger, or nothing. -/
inductive Effect (h : Hub η) (now : Int) :
    Option Ledger.Step → Except Error Ledger.Answer → Hub η → Prop
  | refused (e : Error) : Effect h now none (.error e) h
  | aside {h' : Hub η} (answer : Ledger.Answer) (ha : h.Aside h') :
    Effect h now none (.ok answer) h'
  | failed {c : Ledger.Step} {e : Error} (hc : (c.perform now h.ledger).1 = .error e) :
    Effect h now (some c) (.error e) (h.onLedger fun l => c.perform now l).2
  | passed {c : Ledger.Step} {h₁ h₂ : Hub η} (answer : Ledger.Answer) (ha : h.Aside h₁)
      (hb : (h₁.onLedger fun l => c.perform now l).2.Aside h₂) :
    Effect h now (some c) (.ok answer) h₂

namespace Aside

variable {h h' h'' : Hub η}

theorem refl (h : Hub η) : h.Aside h := ⟨rfl, rfl⟩

theorem trans (ha : h.Aside h') (hb : h'.Aside h'') : h.Aside h'' :=
  ⟨hb.ledger.trans ha.ledger, hb.told.trans ha.told⟩

theorem modifyAdaptor (h : Hub η) (k : Nat) (f : Adaptor η → Adaptor η) :
    h.Aside (h.modifyAdaptor k f) := ⟨rfl, rfl⟩

theorem updateAdaptor (h : Hub η) (k : Nat) (f : Adaptor η → List Log.Line × Adaptor η) :
    h.Aside (h.updateAdaptor k f) := ⟨ledger_updateAdaptor h k f, told_updateAdaptor h k f⟩

theorem drainTimers (h : Hub η) (k : Nat) : h.Aside (h.drainTimers k) := by
  unfold Hub.drainTimers
  split
  · exact .refl h
  · exact .modifyAdaptor ..

theorem write (h : Hub η) (lines : List Log.Line) : h.Aside (h.write lines) := ⟨rfl, rfl⟩

theorem armExpiry (h : Hub η) (k : Nat) (t : Transfer) (s : TransferState) :
    h.Aside (h.armExpiry k t s) := by
  unfold Hub.armExpiry
  split
  · exact .refl h
  · split
    · exact .updateAdaptor ..
    · exact .refl h

theorem openAdaptor (h : Hub η) (account : Address) :
    (∃ e, h.openAdaptor account = (.error e, h)) ∨
    ∃ k h', h.openAdaptor account = (.ok k, h') ∧ h.Aside h' := by
  unfold Hub.openAdaptor
  split
  · exact .inr ⟨_, _, rfl, rfl, rfl⟩
  · exact .inl ⟨_, rfl⟩

end Aside

section
variable {h : Hub η} {now : Int} {k : Nat}

theorem onLedger_cases {α : Type} (h : Hub η) (call : Ledger → Outcome Ledger α) :
    (∃ e, (call h.ledger).1 = .error e ∧
      h.onLedger call = (.error e, { h with ledger := (call h.ledger).2 }.publish)) ∨
    ∃ a, (call h.ledger).1 = .ok a ∧
      h.onLedger call = (.ok a, { h with ledger := (call h.ledger).2 }.publish) := by
  unfold onLedger
  cases (call h.ledger).1 with
  | error e => exact .inl ⟨e, rfl, rfl⟩
  | ok a => exact .inr ⟨a, rfl, rfl⟩

/-- An adaptor's call that goes on to the ledger fails with it, or changes no more than
adaptors afterwards. -/
theorem relayed {α : Type} (h : Hub η) (call : Ledger → Outcome Ledger α) {c : Ledger.Step}
    {f : α → Ledger.Answer} (hc : ∀ l, c.perform now l = ((call l).1.map f, (call l).2)) :
    (∃ e h', h.onLedger call = (.error e, h') ∧ h.Effect now (some c) (.error e) h') ∨
    ∃ a h', h.onLedger call = (.ok a, h') ∧
      ∀ h'', h'.Aside h'' → h.Effect now (some c) (.ok .done) h'' := by
  have hstep : (h.onLedger fun l => c.perform now l).2 = (h.onLedger call).2 := by
    simp only [onLedger, hc]
  rcases onLedger_cases h call with ⟨e, he, ho⟩ | ⟨a, -, ho⟩
  · have hfail : (c.perform now h.ledger).1 = .error e := by
      rw [hc, he]
      rfl
    have hfailed : h.Effect now (some c) (.error e) (h.onLedger fun l => c.perform now l).2 :=
      .failed hfail
    rw [hstep, ho] at hfailed
    exact .inl ⟨e, _, ho, hfailed⟩
  · refine .inr ⟨a, _, ho, fun h'' ha => .passed _ (.refl h) ?_⟩
    rw [hstep, ho]
    exact ha

theorem connect_effect (h : Hub η) (now : Int) (k : Nat) :
    h.Effect now ((Step.connect k).call? h) (.ok .done) (h.connect k) := by
  rw [Step.call?, connect]
  cases h.adaptors.get? k with
  | none => exact .aside _ (.refl h)
  | some a =>
    by_cases hc : a.connected
    · simp only [Option.bind_some, hc, if_true]
      exact .aside _ (.refl h)
    · simp only [Option.bind_some, hc]
      rcases onLedger_cases h (·.attach a.account (.adaptor k)) with ⟨e, -, ho⟩ | ⟨u, -, ho⟩
      · rw [ho]
        exact .passed _ (.refl h) ((Aside.modifyAdaptor ..).trans (.write ..))
      · rw [ho]
        exact .passed _ (.refl h) ((Aside.modifyAdaptor ..).trans (.write ..))

theorem disconnect_effect (hq : h.Quiet) (now : Int) (k : Nat) :
    h.Effect now ((Step.disconnect k).call? h) (.ok .done) (h.disconnect k) := by
  rw [Step.call?, disconnect, acting?]
  cases h.adaptors.get? k with
  | none => exact .aside _ (.refl h)
  | some a =>
    by_cases hc : a.connected
    · have hquiet : (h.ledger.detach (.adaptor k)).quiet = h.ledger.detach (.adaptor k) :=
        congrArg (·.detach (.adaptor k)) hq
      have hd : (h.onLedger fun l => Ledger.Step.perform now l (.detach (.adaptor k))).2 =
          { h with ledger := h.ledger.detach (.adaptor k) } := publish_of_quiet hquiet
      simp only [Option.filter_some, hc, if_true]
      refine .passed _ (.refl h) ?_
      rw [hd]
      exact (Aside.modifyAdaptor ..).trans (.write ..)
    · simp only [Option.filter_some, hc]
      exact .aside _ (.refl h)

theorem sendMessage_effect (h : Hub η) (now : Int) (k : Nat) (m : Message) :
    h.Effect now ((Step.sendMessage k m).call? h) ((h.sendMessage k m).1.map fun _ => .done)
      (h.sendMessage k m).2 := by
  rw [Step.call?, sendMessage]
  rcases connected_eq h k .sendMessage with ⟨a, ha, hc⟩ | ⟨e, ha, hc⟩
  · rw [ha, hc]
    by_cases hm : m.sender = a.account
    · simp only [Option.bind_some, hm, if_true, ne_eq, not_true_eq_false, if_false]
      exact .passed (c := .deliver m (h.takes m)) _ (.refl h) (.write ..)
    · simp only [Option.bind_some, hm, if_false, ne_eq, not_false_eq_true, if_true]
      exact .refused _
  · rw [ha, hc]
    exact .refused e

theorem sendTransfer_effect (h : Hub η) (now : Int) (k : Nat) (t : Transfer) :
    h.Effect now ((Step.sendTransfer k t).call? h) ((h.sendTransfer now k t).1.map fun _ => .done)
      (h.sendTransfer now k t).2 := by
  rw [Step.call?, sendTransfer]
  rcases connected_eq h k .sendTransfer with ⟨a, ha, hc⟩ | ⟨e, ha, hc⟩
  · rw [ha, hc]
    by_cases ht : t.sender = a.account
    · simp only [Option.bind_some, ht, if_true, ne_eq, not_true_eq_false, if_false]
      rcases relayed h (·.prepare now t) (c := .prepare t) fun _ => rfl with
        ⟨e, h', ho, he⟩ | ⟨s, h', ho, he⟩
      · rw [ho]
        exact he
      · rw [ho]
        exact he _ ((Aside.armExpiry ..).trans (.write ..))
    · simp only [Option.bind_some, ht, if_false, ne_eq, not_false_eq_true, if_true]
      exact .refused _
  · rw [ha, hc]
    exact .refused e

theorem rejectTransfer_effect (h : Hub η) (now : Int) (k : Nat) (t : Transfer) (reason : Reason) :
    h.Effect now ((Step.rejectTransfer k t reason).call? h)
      ((h.rejectTransfer now k t reason).1.map fun _ => .done)
      (h.rejectTransfer now k t reason).2 := by
  rw [Step.call?, rejectTransfer]
  rcases connected_eq h k .rejectTransfer with ⟨a, ha, hc⟩ | ⟨e, ha, hc⟩
  · rw [ha, hc]
    by_cases ht : t.receiver = a.account
    · simp only [Option.bind_some, ht, if_true, ne_eq, not_true_eq_false, if_false]
      rcases relayed h (·.reject now t.id a.account reason)
        (c := .reject t.id a.account reason) fun _ => rfl with ⟨e, h', ho, he⟩ | ⟨u, h', ho, he⟩
      · rw [ho]
        exact he
      · rw [ho]
        exact he _ (.write ..)
    · simp only [Option.bind_some, ht, if_false, ne_eq, not_false_eq_true, if_true]
      exact .refused _
  · rw [ha, hc]
    exact .refused e

theorem fulfillCondition_effect (h : Hub η) (now : Int) (k : Nat) (id : Bytes) (f : Fulfillment) :
    h.Effect now ((Step.fulfillCondition k id f).call? h)
      ((h.fulfillCondition now k id f).1.map fun _ => .done)
      (h.fulfillCondition now k id f).2 := by
  rw [Step.call?, fulfillCondition]
  rcases connected_eq h k .fulfillCondition with ⟨a, ha, hc⟩ | ⟨e, ha, hc⟩
  · rw [ha, hc]
    simp only [Option.map_some]
    rcases relayed h (·.fulfill now id a.account f) (c := .fulfill id a.account f)
      fun _ => rfl with ⟨e, h', ho, he⟩ | ⟨u, h', ho, he⟩
    · rw [ho]
      exact he
    · rw [ho]
      exact he _ (.write ..)
  · rw [ha, hc]
    exact .refused e

theorem fireTimer_effect (h : Hub η) (now : Int) (k : Nat) :
    h.Effect now ((Step.fireTimer k).call? h) (.ok .done) (h.fireTimer now k) := by
  rw [Step.call?, fireTimer]
  cases h.adaptors.get? k with
  | none => exact .aside _ (.refl h)
  | some a =>
    simp only [Option.bind_some]
    cases a.alarm.next? with
    | none => exact .aside _ (.refl h)
    | some r =>
      obtain ⟨t, alarm⟩ := r
      refine .passed (c := .expire t.id) _ (.modifyAdaptor h k fun a => { a with alarm }) ?_
      simp only [Option.map_some]
      rcases onLedger_cases (h.modifyAdaptor k fun a => { a with alarm }) (·.expire now t.id) with
        ⟨e, -, ho⟩ | ⟨b, -, ho⟩
      · rw [ho]
        exact .write ..
      · rw [ho]
        cases b
        · exact .write ..
        · exact .write ..

end

/-- The list of outcomes is complete, when nothing is left to be told. -/
theorem perform_effect {h : Hub η} (hq : h.Quiet) (now : Int) (s : Step η) :
    h.Effect now (s.call? h) (s.perform now h).1 (s.perform now h).2 := by
  cases s with
  | ledger s =>
    simp only [Step.perform, Step.call?]
    rcases onLedger_cases h (fun l => s.perform now l) with ⟨e, he, ho⟩ | ⟨answer, -, ho⟩
    · rw [ho]
      exact .failed he
    · rw [ho]
      exact .passed _ (.refl h) (.refl _)
  | setAnswer name answer => exact .aside _ ⟨rfl, rfl⟩
  | openAdaptor account =>
    simp only [Step.perform]
    rcases Aside.openAdaptor h account with ⟨e, ho⟩ | ⟨k, h', ho, ha⟩
    · rw [ho]
      exact .refused e
    · rw [ho]
      exact .aside _ ha
  | setHandler k handler => exact .aside _ (.modifyAdaptor ..)
  | subscribe k s => exact .aside _ (.updateAdaptor ..)
  | connect k => exact connect_effect h now k
  | disconnect k => exact disconnect_effect hq now k
  | sendMessage k m => exact sendMessage_effect h now k m
  | sendTransfer k t => exact sendTransfer_effect h now k t
  | rejectTransfer k t reason => exact rejectTransfer_effect h now k t reason
  | fulfillCondition k id f => exact fulfillCondition_effect h now k id f
  | passTimers k => exact .aside _ (.modifyAdaptor ..)
  | fireTimer k => exact fireTimer_effect h now k
  | takeEvent k => exact .aside _ (.modifyAdaptor ..)
  | deliverEvent k => exact .aside _ (.updateAdaptor ..)
  | finishEvent k failure => exact .aside _ (.updateAdaptor ..)
  | haltTimers k => exact .aside _ (.modifyAdaptor ..)
  | drainTimers k => exact .aside _ (.drainTimers ..)
  | closeCourier k => exact .aside _ (.modifyAdaptor ..)
  | remove k => exact .aside _ ⟨rfl, rfl⟩

end Interledger.Hub
