import Interledger.Proofs.Hub.Sightings

/-! Messages between adaptors.

The adaptor that sends a message looks at its sender only, and those that hear of it look at its
recipient only. As long as nobody else has a session or speaks to the ledger, the two checks make
one rule: a message goes from an adaptor of its sender to every connected adaptor of its
recipient, and to no other. -/

namespace Interledger

def Event.message? : Event → Option Message
  | .message m => some m
  | .connect _ | .disconnect _ | .prepared .. | .executed .. | .rejected .. => none

namespace Ledger

/-- Only a delivery tells of a message. -/
theorem Effect.eq_deliver {l l' : Ledger} {now : Int} {s : Step} {answer : Except Error Answer}
    (h : l.Effect now s answer l') (hq : l.notices = []) {m : Message}
    (hm : .message m ∈ l'.notices) : ∃ takes, s = .deliver m takes := by
  cases h with
  | calm h =>
    cases h with
    | @told m' takes b log =>
      have heq : m = m' := by simpa [hq] using hm
      exact ⟨takes, by rw [heq]⟩
    | detached => simp [detach, hq] at hm
    | _ => simp [hq] at hm
  | opened => simp [hq] at hm
  | declined => simp [Ledger.declined, notify, hq] at hm
  | funded => simp [hq] at hm
  | executed => simp [Ending.notice, hq] at hm
  | @ended s answer t u e adopted log => cases e <;> simp [Ending.notice, hq] at hm

/-- What a message to nobody leaves in the log. -/
def dropped (l : Ledger) (m : Message) : Log.Line :=
  ⟨.debug, "ledger message dropped, no listener for recipient",
    [⟨"ledger", l.info.address.text⟩, ⟨"to", m.recipient.text⟩]⟩

theorem deliver_eq (l : Ledger) (m : Message) (takes : Listener → Bool) :
    (l.deliver m takes).2 = { l with
      notices := l.notices ++ [.message m]
      log := l.log ++ if (l.deliver m takes).1 then [] else [l.dropped m] } := by
  unfold deliver
  dsimp only
  split
  · exact congrArg (fun log => { l.notify (.message m) with log }) (List.append_nil _).symm
  · rfl

end Ledger

/-- Who hears of a message raises it if it is the recipient's. -/
theorem Adaptor.hears_message {η : Type} (a : Adaptor η) (m : Message) :
    a.hears [.message m] = if a.accepts m then a.raise (.message m) else a :=
  (a.foldl_hear_eq [.message m]).symm

namespace Hub

variable {η : Type} {h : Hub η} {now : Int} {k : Nat}

/-! ### Who sends and who receives -/

/-- The adaptor of a number is connected, for an account. -/
def serves (h : Hub η) (k : Nat) (account : Address) : Bool :=
  (h.acting? k).any (·.account = account)

theorem serves_iff {account : Address} : h.serves k account ↔
    ∃ a, h.adaptors.get? k = some a ∧ a.connected ∧ a.account = account := by
  simp only [serves, Option.any_eq_true, acting?_eq_some, decide_eq_true_eq, and_assoc]

/-- Whether a step leaves the sessions and the messages of the ledger to the adaptors. -/
def Step.viaAdaptors : Step η → Bool
  | .ledger (.attach ..) | .ledger (.detach _) | .ledger (.deliver ..) => false
  | _ => true

theorem sparesAdaptors_of_viaAdaptors {s : Step η} (hs : s.viaAdaptors) : s.sparesAdaptors := by
  cases s with
  | ledger c =>
    cases c with
    | attach | detach => cases hs
    | _ => rfl
  | _ => rfl

/-- What such a step asks of the ledger opens and closes no session of others, and a message is
that of an adaptor, in the name of its own account. -/
theorem call?_of_viaAdaptors {s : Step η} (hs : s.viaAdaptors) {c : Ledger.Step}
    (hc : s.call? h = some c) : (∀ name, c.seated? ≠ some (.outside name)) ∧
      ∀ m takes, c = .deliver m takes → ∃ j, s = .sendMessage j m ∧ h.serves j m.sender := by
  have hasks := call?_eq_some.1 hc
  cases hasks with
  | ledger =>
    cases c with
    | attach | detach | deliver => cases hs
    | _ => exact ⟨nofun, nofun⟩
  | @sendMessage j a m ha hm =>
    refine ⟨nofun, ?_⟩
    rintro m' takes heq
    cases heq
    have ⟨hget, hcon⟩ := acting?_eq_some.1 ha
    exact ⟨j, rfl, serves_iff.2 ⟨a, hget, hcon, hm.symm⟩⟩
  | _ => exact ⟨nofun, nofun⟩

/-- What a step posts to an adaptor: the message of a connected adaptor in the name of its own
account, if it is to the account of the other, which is connected too. -/
def Step.posted (h : Hub η) (k : Nat) : Step η → List Message
  | .sendMessage j m => if h.serves j m.sender && h.serves k m.recipient then [m] else []
  | _ => []

def posted (h : Hub η) (k : Nat) : List (Int × Step η) → List Message
  | [] => []
  | s :: ss => s.2.posted h k ++ posted (s.2.perform s.1 h).2 k ss

theorem posted_concat (h : Hub η) (k : Nat) (steps : List (Int × Step η)) (s : Int × Step η) :
    h.posted k (steps ++ [s]) = h.posted k steps ++ s.2.posted (h.after steps) k := by
  induction steps generalizing h with
  | nil => exact List.append_nil _
  | cons r steps ih =>
    rw [List.cons_append, posted, ih, posted, List.append_assoc]
    rfl

/-- What is posted was sent at some moment, and both adaptors were connected then. -/
theorem mem_posted {l : Ledger} {steps : List (Int × Step η)} {m : Message}
    (hm : m ∈ (make l).posted k steps) : ∃ pre now j post,
      steps = pre ++ (now, .sendMessage j m) :: post ∧
        (run l pre).serves j m.sender ∧ (run l pre).serves k m.recipient := by
  induction steps using List.reverseRecOn with
  | nil => cases hm
  | append_singleton steps s ih =>
    rw [posted_concat] at hm
    rcases List.mem_append.1 hm with hm | hm
    · obtain ⟨pre, now, j, post, rfl, hserves⟩ := ih hm
      exact ⟨pre, now, j, post ++ [s], by simp, hserves⟩
    · obtain ⟨now, s⟩ := s
      cases s with
      | sendMessage j m' =>
        obtain ⟨hserves, hm⟩ := List.mem_ite_nil_right.1 hm
        obtain rfl := List.mem_singleton.1 hm
        exact ⟨steps, now, j, [], rfl, (Bool.and_eq_true ..).mp hserves⟩
      | _ => cases hm

/-! ### Sessions of the adaptors -/

/-- All sessions are the adaptors' own, and an adaptor has one just while it is connected. -/
structure Staffed (h : Hub η) : Prop where
  session : ∀ {k a}, h.adaptors.get? k = some a →
    h.session k = if a.connected then [⟨a.account, .adaptor k⟩] else []
  outside : ∀ name, h.ledger.sessionsOf (.outside name) = []

theorem staffed_run {info : LedgerInfo} {l : Ledger} (hl : Ledger.make info = .ok l)
    {steps : List (Int × Step η)} (hs : ∀ s ∈ steps, s.2.viaAdaptors) :
    (run l steps).Staffed := by
  refine ⟨fun {k a} ha => ?_, fun name => ?_⟩
  · have hspare : ∀ s ∈ steps, s.2.sparesAdaptors := fun s hm =>
      sparesAdaptors_of_viaAdaptors (hs s hm)
    exact (linked_run hl hspare k).session a.link (link?_of_get? ha)
  · induction steps using List.reverseRecOn with
    | nil =>
      rw [Ledger.make_eq_ok hl]
      rfl
    | append_singleton steps s ih =>
      have hold := ih fun s hm => hs s (List.mem_append_left _ hm)
      rw [run_concat, (perform_effect (quiet_run hl steps) s.1 s.2).ledger_eq]
      cases hcall : s.2.call? (run l steps) with
      | none => exact hold
      | some c =>
        have hseated := (call?_of_viaAdaptors (hs s (by simp)) hcall).1 name
        have he := Ledger.perform_effect (sound_run hl steps) s.1 c
        exact (he.sessionsOf_eq hseated).trans hold

/-- A message is taken if a connected adaptor acts for its recipient. -/
theorem Staffed.taken_iff (hh : h.Staffed) (m : Message) :
    (h.deliver m).1 ↔ ∃ k, h.serves k m.recipient := by
  show (h.ledger.sessions.any fun s => h.takes m s.listener) ↔ _
  rw [List.any_eq_true]
  constructor
  · rintro ⟨⟨account, w⟩, hmem, htakes⟩
    cases w with
    | adaptor k =>
      obtain ⟨a, ha, haccepts⟩ := (Option.any_eq_true ..).1 htakes
      have hsession := hh.session ha
      cases hc : a.connected with
      | true => exact ⟨k, serves_iff.2 ⟨a, ha, hc, (of_decide_eq_true haccepts).symm⟩⟩
      | false =>
        have hmem : (⟨account, .adaptor k⟩ : Session) ∈ h.session k :=
          List.mem_filter.2 ⟨hmem, by simp⟩
        rw [hsession, hc] at hmem
        cases hmem
    | outside name =>
      have hmem : (⟨account, .outside name⟩ : Session) ∈ h.ledger.sessionsOf (.outside name) :=
        List.mem_filter.2 ⟨hmem, by simp⟩
      rw [hh.outside] at hmem
      cases hmem
  · rintro ⟨k, hk⟩
    obtain ⟨a, ha, hc, hrecipient⟩ := serves_iff.1 hk
    have hsession := hh.session ha
    rw [if_pos hc] at hsession
    have hmem : (⟨a.account, .adaptor k⟩ : Session) ∈ h.session k := by simp [hsession]
    refine ⟨_, (List.mem_filter.1 hmem).1, ?_⟩
    exact (Option.any_eq_true ..).2 ⟨a, ha, decide_eq_true hrecipient.symm⟩

/-! ### What a message does -/

/-- What a message leaves in the log. -/
def mailLines (h : Hub η) (m : Message) : List Log.Line :=
  (if (h.deliver m).1 then [] else [h.ledger.dropped m]) ++ [⟨.debug, "ledger message sent",
    [⟨"from", m.sender.text⟩, ⟨"to", m.recipient.text⟩, .bool "delivered" (h.deliver m).1]⟩]

/-- A message is raised once by each connected adaptor of its recipient, and besides it is only
logged. -/
structure Mails (h h' : Hub η) (m : Message) : Prop where
  adaptor : ∀ k, h'.adaptors.get? k = (h.adaptors.get? k).map fun a =>
    if h.serves k m.recipient then a.raise (.message m) else a
  ledger : h'.ledger = h.ledger
  nextKey : h'.nextKey = h.nextKey
  answers : h'.answers = h.answers
  told : h'.told = h.told
  log : h'.log = h.log ++ h.mailLines m

/-- Messages that are brought to listeners are not logged. -/
theorem log_publish_message (h : Hub η) {m : Message} (hn : h.ledger.notices = [.message m]) :
    h.publish.log = h.log ++ h.ledger.log := by
  have hbring : ∀ (g : Hub η) (w : Listener), (g.bring (w, .message m)).log = g.log := by
    intro g w
    cases w with
    | outside name => rfl
    | adaptor k =>
      show (g.updateAdaptor k (·.hear (.message m))).log = g.log
      unfold updateAdaptor
      split
      · exact List.append_nil _
      · rfl
  have hfold : ∀ (ws : List Listener) (g : Hub η),
      ((ws.map fun w => (w, .message m)).foldl bring g).log = g.log := by
    intro ws
    induction ws with
    | nil => exact fun _ => rfl
    | cons w ws ih => exact fun g => (ih _).trans (hbring g w)
  have hcallbacks : h.ledger.callbacks =
      (h.ledger.sessions.map (·.listener)).map fun w => (w, .message m) := by
    rw [Ledger.callbacks, hn, List.map_map]
    exact List.append_nil _
  rw [publish_eq, hcallbacks]
  exact congrArg (· ++ h.ledger.log) (hfold ..)

theorem log_deliver (hq : h.Quiet) (m : Message) : (h.deliver m).2.log =
    h.log ++ if (h.deliver m).1 then [] else [h.ledger.dropped m] := by
  have hdelivered := Ledger.deliver_eq h.ledger m (h.takes m)
  rw [hq.notices_eq, hq.log_eq] at hdelivered
  have hpublished := log_publish_message
    { h with ledger := (h.ledger.deliver m (h.takes m)).2 } (congrArg Ledger.notices hdelivered)
  exact hpublished.trans (congrArg (h.log ++ ·) (congrArg Ledger.log hdelivered))

theorem call?_sendMessage {j : Nat} {m : Message} (hj : h.serves j m.sender) :
    (Step.sendMessage j m).call? h = some (.deliver m (h.takes m)) := by
  obtain ⟨a, ha, hc, haccount⟩ := serves_iff.1 hj
  exact call?_eq_some.2 (.sendMessage (acting?_eq_some.2 ⟨ha, hc⟩) haccount.symm)

theorem outsideCalls_eq_nil {l : Ledger} (hl : ∀ name, l.sessionsOf (.outside name) = []) :
    outsideCalls l.callbacks = [] := by
  rw [List.eq_nil_iff_forall_not_mem]
  rintro ⟨name, n⟩ hmem
  have hnone := (received_outsideCalls name l.callbacks).trans (Ledger.received_eq_nil (hl name))
  rw [List.map_eq_nil_iff, List.filter_eq_nil_iff] at hnone
  exact hnone _ hmem (by simp)

/-- The adaptors of the recipient are those that have a session and take the message. -/
theorem get?_sendMessage (hq : h.Quiet) (hs : h.ledger.Sound) (hh : h.Staffed) (now : Int)
    {j : Nat} {m : Message} (hj : h.serves j m.sender) (k : Nat) :
    ((Step.sendMessage j m).perform now h).2.adaptors.get? k = (h.adaptors.get? k).map fun a =>
      if h.serves k m.recipient then a.raise (.message m) else a := by
  have htells : (Step.sendMessage j m).tells h now = [.message m] := by
    rw [Step.tells, call?_sendMessage hj]
    show (h.ledger.deliver m (h.takes m)).2.notices = _
    rw [Ledger.deliver_eq, hq.notices_eq]
    rfl
  rw [get?_perform hq hs]
  refine Option.map_congr fun a ha => ?_
  show a.hears _ = _
  rw [heard_eq hq hs, htells, hh.session ha, serves, acting?, ha]
  cases hc : a.connected with
  | true =>
    simp only [Option.filter_some, hc, if_true, List.cons_ne_nil, if_false, Option.any_some]
    rw [a.hears_message, Adaptor.accepts]
    exact if_congr (by simp [eq_comm]) rfl rfl
  | false =>
    simp [hc]

theorem sendMessage_mails (hq : h.Quiet) (hs : h.ledger.Sound) (hh : h.Staffed) (now : Int)
    {j : Nat} {m : Message} (hj : h.serves j m.sender) :
    h.Mails ((Step.sendMessage j m).perform now h).2 m := by
  have hcall := call?_sendMessage hj
  have heffect := perform_effect hq now (.sendMessage j m)
  refine ⟨get?_sendMessage hq hs hh now hj, ?_, nextKey_eq hq hs now (.sendMessage j m),
    answers_eq hq hs now (.sendMessage j m), ?_, ?_⟩
  · rw [heffect.ledger_eq, hcall, Option.elim_some]
    show (h.ledger.deliver m (h.takes m)).2.quiet = h.ledger
    rw [Ledger.deliver_eq]
    exact hq
  · rw [heffect.told_eq, hcall, Option.elim_some]
    show _ ++ outsideCalls (h.ledger.deliver m (h.takes m)).2.callbacks = _
    rw [outsideCalls_eq_nil, List.append_nil]
    intro name
    rw [Ledger.deliver_eq]
    exact hh.outside name
  · obtain ⟨a, ha, hc, haccount⟩ := serves_iff.1 hj
    have hconnected : h.connected j .sendMessage = .ok a := by
      simp only [connected, ha, hc, if_true]
    show (h.sendMessage j m).2.log = _
    simp only [sendMessage, hconnected, haccount, ne_eq, not_true_eq_false, if_false]
    show (h.deliver m).2.log ++ [⟨_, _, [⟨_, a.name⟩, _, _]⟩] = _
    rw [log_deliver hq, List.append_assoc, Adaptor.name, haccount]
    rfl

/-- Only a connected adaptor of the sender can send. -/
theorem sendMessage_isOk {j : Nat} {m : Message} :
    (∃ answer, ((Step.sendMessage j m).perform now h).1 = .ok answer) ↔ h.serves j m.sender := by
  show (∃ answer, (h.sendMessage j m).1.map _ = .ok answer) ↔ _
  rw [sendMessage, serves]
  rcases connected_eq h j .sendMessage with ⟨a, ha, hc⟩ | ⟨e, ha, hc⟩
  · rw [ha, hc]
    by_cases hm : m.sender = a.account
    · simp [hm, Except.map]
    · simp [hm, Ne.symm hm, Except.map]
  · rw [ha, hc]
    simp [Except.map]

/-! ### The messages of a run -/

theorem raised_sendMessage (hq : h.Quiet) (hs : h.ledger.Sound) (hh : h.Staffed) (now : Int)
    {j : Nat} {m : Message} (hj : h.serves j m.sender) (k : Nat) :
    (Step.sendMessage j m).raised now h k =
      if h.serves k m.recipient then [.message m] else [] := by
  rw [Step.raised, waiting, waiting, get?_sendMessage hq hs hh now hj]
  cases ha : h.adaptors.get? k with
  | none =>
    have hserves : h.serves k m.recipient = false := by simp [serves, acting?, ha]
    rw [hserves]
    rfl
  | some a =>
    simp only [Option.map_some, Option.elim_some]
    split
    · exact List.drop_left
    · exact List.drop_length

/-- A message that is raised was sent, by an adaptor of its sender. -/
theorem sent_of_mem_raised (hq : h.Quiet) (hs : h.ledger.Sound) {s : Step η}
    (hvia : s.viaAdaptors) {m : Message} (hm : .message m ∈ s.raised now h k) :
    ∃ j, s = .sendMessage j m ∧ h.serves j m.sender := by
  obtain ⟨es, hes, heq⟩ := raised_eq hq hs now s k
  rw [heq] at hm
  rcases List.mem_append.1 hm with hm | hm
  · cases ha : h.adaptors.get? k with
    | none =>
      rw [ha] at hm
      cases hm
    | some a =>
      rw [ha, Option.elim_some] at hm
      obtain ⟨n, hn, hnews⟩ := List.mem_filterMap.1 hm
      obtain rfl : n = .message m := by
        cases n <;> obtain ⟨-, heq⟩ := Option.ite_none_right_eq_some.1 hnews <;> cases heq
        rfl
      unfold Step.heard at hn
      cases hcall : s.call? h with
      | none =>
        rw [hcall] at hn
        cases hn
      | some c =>
        rw [hcall] at hn
        have htold := Ledger.Chronicle.received_subset _ _ hn
        obtain ⟨takes, rfl⟩ := (Ledger.perform_effect hs now c).eq_deliver hq.notices_eq htold
        exact (call?_of_viaAdaptors hvia hcall).2 m takes rfl
  · cases hes _ hm

theorem message?_raised (hq : h.Quiet) (hs : h.ledger.Sound) (hh : h.Staffed) (now : Int)
    {s : Step η} (hvia : s.viaAdaptors) (k : Nat) :
    (s.raised now h k).filterMap Event.message? = s.posted h k := by
  by_cases hsend : ∃ j m, s = .sendMessage j m ∧ h.serves j m.sender
  · obtain ⟨j, m, rfl, hj⟩ := hsend
    rw [raised_sendMessage hq hs hh now hj, Step.posted, hj, Bool.true_and]
    split <;> rfl
  · have hposted : s.posted h k = [] := by
      cases s with
      | sendMessage j m =>
        have hj : h.serves j m.sender = false := by
          rw [Bool.eq_false_iff]
          exact fun hj => hsend ⟨j, m, rfl, hj⟩
        rw [Step.posted, hj]
        rfl
      | _ => rfl
    rw [hposted, List.filterMap_eq_nil_iff]
    intro e he
    cases e with
    | message m =>
      obtain ⟨j, rfl, hj⟩ := sent_of_mem_raised hq hs hvia he
      exact absurd ⟨j, m, rfl, hj⟩ hsend
    | _ => rfl

theorem message?_raised_run {info : LedgerInfo} {l : Ledger} (hl : Ledger.make info = .ok l)
    {steps : List (Int × Step η)} (hs : ∀ s ∈ steps, s.2.viaAdaptors) (k : Nat) :
    ((make l).raised k steps).filterMap Event.message? = (make l).posted k steps := by
  induction steps using List.reverseRecOn with
  | nil => rfl
  | append_singleton steps s ih =>
    have hbefore : ∀ s ∈ steps, s.2.viaAdaptors := fun s hm => hs s (List.mem_append_left _ hm)
    rw [raised_concat, posted_concat, List.filterMap_append, ih hbefore]
    exact congrArg _ (message?_raised (quiet_run hl steps) (sound_run hl steps)
      (staffed_run hl hbefore) s.1 (hs s (by simp)) k)

/-- In a run in which only adaptors have sessions and send, the messages that an adaptor raises are
those that were posted to it, in their order. Each was sent as it is by an adaptor connected for
its sender, to an adaptor connected for its recipient. A connected adaptor sends in the name of its
own account and in no other; what it sends is raised once by each adaptor connected for the
recipient, and changes nothing else. It is logged as delivered if it was raised. -/
theorem messages_reach_recipients {info : LedgerInfo} {l : Ledger} (hl : Ledger.make info = .ok l)
    {steps : List (Int × Step η)} (hs : ∀ s ∈ steps, s.2.viaAdaptors) :
    let h := run l steps
    (∀ k, ((make l).raised k steps).filterMap Event.message? = (make l).posted k steps) ∧
    (∀ k m, .message m ∈ (make l).raised k steps → ∃ pre now j post,
      steps = pre ++ (now, .sendMessage j m) :: post ∧
        (run l pre).serves j m.sender ∧ (run l pre).serves k m.recipient) ∧
    ∀ now j m,
      let s : Step η := .sendMessage j m
      let h' := (s.perform now h).2
      ((∃ answer, (s.perform now h).1 = .ok answer) ↔ h.serves j m.sender) ∧
      (h.serves j m.sender = false → h' = h) ∧
      (h.serves j m.sender → h.Mails h' m ∧
        (∀ k, s.raised now h k = if h.serves k m.recipient then [.message m] else []) ∧
        ((h.deliver m).1 ↔ ∃ k, s.raised now h k ≠ [])) := by
  intro h
  have hq := quiet_run hl steps
  have hsound := sound_run hl steps
  have hh := staffed_run hl hs
  have hposted := message?_raised_run hl hs
  refine ⟨hposted, fun k m hm => ?_, fun now j m => ⟨sendMessage_isOk, fun hj => ?_, fun hj => ?_⟩⟩
  · have hmem : m ∈ ((make l).raised k steps).filterMap Event.message? :=
      List.mem_filterMap.2 ⟨_, hm, rfl⟩
    rw [hposted] at hmem
    exact mem_posted hmem
  · cases hanswer : ((Step.sendMessage j m).perform now h).1 with
    | ok answer =>
      rw [sendMessage_isOk.1 ⟨answer, hanswer⟩] at hj
      cases hj
    | error e =>
      have he := perform_effect hq now (.sendMessage j m)
      rw [hanswer] at he
      exact he.eq_of_error hq hsound
  · have hraised := raised_sendMessage hq hsound hh now hj
    refine ⟨sendMessage_mails hq hsound hh now hj, hraised, (hh.taken_iff m).trans ?_⟩
    refine exists_congr fun k => ?_
    rw [hraised]
    split <;> simp [*]

/-- Two adaptors for one account and one for another, all connected. -/
def sampleShared : List (Int × Step Unit) :=
  Ledger.Sample.setUp.map (fun s => (s.1, .ledger s.2)) ++
    [(1, .openAdaptor Ledger.Sample.alice), (1, .openAdaptor Ledger.Sample.bob),
      (1, .openAdaptor Ledger.Sample.alice), (1, .connect 0), (1, .connect 1), (1, .connect 2)]

/-- A message to the sender itself is raised by both adaptors of the account and by no other, and
the other adaptor cannot send it. -/
theorem messages_reach_recipients_shared :
    let l := Ledger.Sample.ledger
    let h := run l sampleShared
    let m : Message := ⟨Ledger.Sample.alice, Ledger.Sample.alice, "note"⟩
    Ledger.make l.info = .ok l ∧ (∀ s ∈ sampleShared, s.2.viaAdaptors) ∧
      (Step.sendMessage 0 m).raised 2 h 0 = [.message m] ∧
      (Step.sendMessage 0 m).raised 2 h 1 = [] ∧
      (Step.sendMessage 0 m).raised 2 h 2 = [.message m] ∧
      (h.deliver m).1 ∧ ((Step.sendMessage 1 m).perform 2 h).2 = h := by
  intro l h m
  have hl : Ledger.make l.info = .ok l := rfl
  have hvia : ∀ s ∈ sampleShared, s.2.viaAdaptors := by decide +kernel
  obtain ⟨-, -, hsend⟩ := messages_reach_recipients hl hvia
  obtain ⟨-, -, hsent⟩ := hsend 2 0 m
  obtain ⟨-, hraised, htaken⟩ := hsent (by decide +kernel)
  obtain ⟨-, hrefused, -⟩ := hsend 2 1 m
  have hzero : (Step.sendMessage 0 m).raised 2 h 0 = [.message m] :=
    (hraised 0).trans (if_pos (by decide +kernel))
  refine ⟨hl, hvia, hzero, (hraised 1).trans (if_neg (by decide +kernel)),
    (hraised 2).trans (if_pos (by decide +kernel)), htaken.2 ⟨0, ?_⟩,
    hrefused (by decide +kernel)⟩
  rw [hzero]
  exact List.cons_ne_nil _ _

end Hub

end Interledger
