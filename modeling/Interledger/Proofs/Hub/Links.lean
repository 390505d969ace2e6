import Interledger.Proofs.Hub.Alarms

/-! The connection of an adaptor, and what one step does to it.

Three things tell of a connection: the mark of the adaptor, the sessions of the ledger and the
events that the adaptor raises. A step that connects or disconnects changes all three at once.
Any other step raises at most what a session of the adaptor has brought, and that is news of
transfers and messages. -/

namespace Interledger

/-- Whether an event tells of the connection itself, and not of a transfer or a message. -/
def Event.isLink : Event → Bool
  | .connect _ | .disconnect _ => true
  | .prepared .. | .executed .. | .rejected .. | .message _ => false

/-- What an adaptor shows of its connection, with the events that wait for its handler. -/
structure Link where
  account : Address
  connected : Bool
  queue : List Event

namespace Link

def raise (x : Link) (es : List Event) : Link := { x with queue := x.queue ++ es }

@[simp] theorem raise_nil (x : Link) : x.raise [] = x := by
  rw [raise, List.append_nil]

@[simp] theorem raise_raise (x : Link) (es es' : List Event) :
    (x.raise es).raise es' = x.raise (es ++ es') := by
  simp only [raise, List.append_assoc]

end Link

namespace Courier

variable {η : Type}

/-- Taking leaves the queue as it is, or without its first event. -/
theorem events_take (c : Courier η) :
    c.take.queue.events = c.queue.events ∨ ∃ e, c.queue.events = e :: c.take.queue.events := by
  have hqueue : ∀ (q : EventQueue) e rest, q.take = .event e rest → q.events = e :: rest.events := by
    rintro ⟨_ | ⟨e, es⟩, closed⟩ e' rest heq
    · cases closed <;> cases heq
    · cases heq
      rfl
  unfold take
  split
  · split
    next e rest heq => exact .inr ⟨e, hqueue _ e rest heq⟩
    all_goals exact .inl rfl
  all_goals exact .inl rfl

theorem queue_deliver (c : Courier η) : c.deliver.2.queue = c.queue := by
  unfold deliver
  split
  · split <;> rfl
  all_goals rfl

theorem queue_finish (c : Courier η) (failure : Option Bytes) :
    (c.finish failure).2.queue = c.queue := by
  unfold finish
  split <;> rfl

end Courier

namespace Adaptor

variable {η : Type}

def link (a : Adaptor η) : Link := ⟨a.account, a.connected, a.courier.queue.events⟩

/-- The event that an adaptor raises on a notice, if the notice concerns it. -/
def news (a : Adaptor η) : Notice → Option Event
  | .prepared t => if a.concerns t then some (.prepared t (.of a.account t)) else none
  | .executed t f => if a.concerns t then some (.executed t (.of a.account t) f) else none
  | .rejected t reason =>
    if a.concerns t then some (.rejected t (.of a.account t) reason) else none
  | .message m => if a.accepts m then some (.message m) else none

theorem isLink_of_news {a : Adaptor η} {n : Notice} {e : Event} (h : a.news n = some e) :
    e.isLink = false := by
  cases n <;> (obtain ⟨-, h⟩ := Option.ite_none_right_eq_some.1 h; cases h; rfl)

theorem link_report (a : Adaptor η) (t : Transfer) (event : Direction → Event) :
    (a.report t event).link =
      a.link.raise (if a.concerns t then some (event (.of a.account t)) else none).toList := by
  unfold report
  split
  · rfl
  · exact a.link.raise_nil.symm

theorem release_eq (a : Adaptor η) (id : Bytes) :
    (a.release id).2 = { a with alarm := (a.alarm.cancel id).2 } := by
  unfold release
  rcases a.alarm.cancel id with ⟨_ | _, alarm⟩ <;> rfl

theorem link_hear (a : Adaptor η) (n : Notice) :
    (a.hear n).2.link = a.link.raise (a.news n).toList := by
  cases n with
  | prepared t => exact link_report ..
  | executed t f =>
    show ((a.release t.id).2.report t _).link = _
    rw [link_report, release_eq]
    rfl
  | rejected t reason =>
    show ((a.release t.id).2.report t _).link = _
    rw [link_report, release_eq]
    rfl
  | message m =>
    simp only [hear, news]
    split
    · rfl
    · exact a.link.raise_nil.symm

/-- What concerns an adaptor does not depend on what it has heard. -/
theorem news_hear (a : Adaptor η) (n : Notice) : (a.hear n).2.news = a.news := by
  have hreport : ∀ (a : Adaptor η) (t : Transfer) (event : Direction → Event),
      (a.report t event).news = a.news := by
    intro a t event
    unfold report
    split <;> rfl
  cases n with
  | prepared t => exact hreport ..
  | executed t f =>
    show ((a.release t.id).2.report t _).news = _
    rw [hreport, release_eq]
    rfl
  | rejected t reason =>
    show ((a.release t.id).2.report t _).news = _
    rw [hreport, release_eq]
    rfl
  | message m =>
    simp only [hear]
    split <;> rfl

theorem link_foldl_hear (ns : List Notice) (a : Adaptor η) :
    (ns.foldl (fun a n => (a.hear n).2) a).link = a.link.raise (ns.filterMap a.news) := by
  induction ns generalizing a with
  | nil => exact a.link.raise_nil.symm
  | cons n ns ih =>
    rw [List.foldl_cons, ih, link_hear, news_hear, Link.raise_raise, List.filterMap_cons]
    cases a.news n <;> rfl

end Adaptor

/-! ### The sessions of a listener -/

namespace Ledger

def sessionsOf (l : Ledger) (w : Listener) : List Session := l.sessions.filter (·.listener = w)

/-- Whose session a step opens or closes. -/
def Step.seated? : Step → Option Listener
  | .attach _ w | .detach w => some w
  | _ => none

variable {l l' : Ledger} {w : Listener} {a : Address} {now : Int}

theorem sessionsOf_seats_self (h : l.sessionsOf w = []) :
    (l.seats a w).filter (·.listener = w) = [⟨a, w⟩] := by
  have hnone : ∀ s ∈ l.sessions, s.listener ≠ w := by
    simpa [sessionsOf, List.filter_eq_nil_iff] using h
  have hany : l.sessions.any (·.listener = w) = false := by simpa using hnone
  rw [seats, if_neg (by simp [hany]), List.filter_append]
  show l.sessionsOf w ++ _ = _
  rw [h]
  simp

theorem sessionsOf_seats_of_ne {w' : Listener} (hw : w' ≠ w) :
    (l.seats a w').filter (·.listener = w) = l.sessionsOf w := by
  unfold seats
  split
  · have hsame : ((fun s : Session => decide (s.listener = w)) ∘ fun s =>
        if s.listener = w' then { s with account := a } else s) = fun s => decide (s.listener = w) := by
      funext s
      simp only [Function.comp]
      split <;> rfl
    rw [List.filter_map, hsame, sessionsOf]
    refine (List.map_congr_left fun s hs => ?_).trans (List.map_id' _)
    have hs : s.listener = w := by simpa using List.of_mem_filter hs
    exact if_neg (hs ▸ Ne.symm hw)
  · rw [List.filter_append]
    simp [sessionsOf, hw]

theorem sessionsOf_detach_self : (l.detach w).sessionsOf w = [] := by
  simp [sessionsOf, detach, List.filter_filter]

theorem sessionsOf_detach_of_ne {w' : Listener} (hw : w' ≠ w) :
    (l.detach w').sessionsOf w = l.sessionsOf w := by
  rw [sessionsOf, detach, List.filter_filter]
  refine List.filter_congr fun s _ => ?_
  by_cases hs : s.listener = w
  · simp [hs, Ne.symm hw]
  · simp [hs]

/-- Only who attaches or detaches a listener changes its sessions. -/
theorem Effect.sessionsOf_eq {s : Step} {answer : Except Error Answer}
    (h : l.Effect now s answer l') (hs : s.seated? ≠ some w) : l'.sessionsOf w = l.sessionsOf w := by
  cases h with
  | calm h =>
    cases h with
    | attached ha => exact sessionsOf_seats_of_ne fun hw => hs (congrArg some hw)
    | detached => exact sessionsOf_detach_of_ne fun hw => hs (congrArg some hw)
    | _ => rfl
  | _ => rfl

/-- Attaching and detaching is told to nobody. -/
theorem Effect.notices_eq {s : Step} {answer : Except Error Answer}
    (h : l.Effect now s answer l') (hs : s.seated? = some w) : l'.notices = l.notices := by
  cases h with
  | calm h =>
    cases h with
    | told => cases hs
    | _ => rfl
  | opened => rfl
  | ended _ _ _ he => cases he <;> cases hs
  | _ => cases hs

theorem received_eq_nil (h : l.sessionsOf w = []) : w.received l.callbacks = [] := by
  rw [Listener.received, List.map_eq_nil_iff, List.filter_eq_nil_iff]
  rintro c hc hw
  obtain ⟨n, -, hc⟩ := List.mem_flatMap.1 hc
  obtain ⟨s, hs, rfl⟩ := List.mem_map.1 hc
  have hmem : s ∈ l.sessionsOf w := List.mem_filter.2 ⟨hs, hw⟩
  rw [h] at hmem
  cases hmem

end Ledger

namespace Hub

variable {η : Type} {h h' h'' : Hub η} {now : Int} {k : Nat} {a : Adaptor η}

def link? (h : Hub η) (k : Nat) : Option Link := (h.adaptors.get? k).map (·.link)

/-- The sessions of an adaptor. -/
def session (h : Hub η) (k : Nat) : List Session := h.ledger.sessionsOf (.adaptor k)

theorem link?_modifyAdaptor (h : Hub η) (j k : Nat) (f : Adaptor η → Adaptor η) :
    (h.modifyAdaptor j f).link? k =
      if k = j then (h.adaptors.get? k).map fun a => (f a).link else h.link? k := by
  show ((h.adaptors.modify j f).get? k).map _ = _
  rw [Table.get?_modify]
  split
  · exact Option.map_map ..
  · rfl

theorem link?_modifyAdaptor_of_same (h : Hub η) {j k : Nat} {f : Adaptor η → Adaptor η}
    (hf : k = j → ∀ a, (f a).link = a.link) : (h.modifyAdaptor j f).link? k = h.link? k := by
  rw [link?_modifyAdaptor]
  split
  next hk => exact Option.map_congr fun a _ => hf hk a
  · rfl

theorem link?_updateAdaptor_of_same (h : Hub η) (j k : Nat)
    {f : Adaptor η → List Log.Line × Adaptor η} (hf : ∀ a, (f a).2.link = a.link) :
    (h.updateAdaptor j f).link? k = h.link? k := by
  show ((h.updateAdaptor j f).adaptors.get? k).map _ = _
  rw [get?_updateAdaptor]
  split
  · rw [Option.map_map]
    exact Option.map_congr fun a _ => hf a
  · rfl

/-! ### Connecting and disconnecting -/

theorem connect_of_connected (ha : h.adaptors.get? k = some a) (hc : a.connected) :
    h.connect k = h := by
  rw [connect, ha]
  exact if_pos hc

theorem disconnect_of_not_connected (ha : h.adaptors.get? k = some a) (hc : a.connected = false) :
    h.disconnect k = h := by
  rw [disconnect, ha]
  exact if_neg (by simp [hc])

theorem disconnect_of_connected (ha : h.adaptors.get? k = some a) (hc : a.connected) :
    h.disconnect k = (({ h with ledger := h.ledger.detach (.adaptor k) } : Hub η).modifyAdaptor k
      fun a => { a with connected := false }.raise (.disconnect "disconnect requested")).write
        [⟨.info, "ledger disconnected", [⟨"account", a.name⟩]⟩] := by
  rw [disconnect, ha]
  exact if_pos hc

/-- Connecting for an account that the ledger does not know tells the adaptor so, and does
nothing else but log it. -/
theorem connect_of_unknown (hq : h.Quiet) (ha : h.adaptors.get? k = some a)
    (hc : a.connected = false) (hn : h.ledger.hasAccount a.account = false) :
    let reason := (Error.accountNotFound a.account.text).message
    h.connect k = (h.modifyAdaptor k (·.raise (.disconnect reason))).write
      [⟨.warning, "ledger connect failed", [⟨"account", a.name⟩, ⟨"error", reason⟩]⟩] := by
  have hattach : h.onLedger (·.attach a.account (.adaptor k)) =
      (.error (.accountNotFound a.account.text), h) := by
    have hn : h.ledger.accounts.contains a.account = false := hn
    rw [onLedger, Ledger.attach_eq, if_neg (by simp [hn]), publish_of_quiet hq]
  simp only [connect, ha, hc, hattach]
  rfl

/-- A hub with a session for an adaptor. -/
def seat (h : Hub η) (account : Address) (k : Nat) : Hub η :=
  { h with ledger := { h.ledger with sessions := h.ledger.seats account (.adaptor k) } }

theorem quiet_seat (hq : h.Quiet) (account : Address) (k : Nat) : (h.seat account k).Quiet := by
  have hl : h.ledger.quiet = h.ledger := hq
  exact congrArg (fun l => { l with sessions := h.ledger.seats account (.adaptor k) }) hl

theorem connect_of_known (hq : h.Quiet) (ha : h.adaptors.get? k = some a)
    (hc : a.connected = false) (hn : h.ledger.hasAccount a.account) :
    h.connect k = ((h.seat a.account k).modifyAdaptor k fun a =>
      { a with connected := true }.raise (.connect h.ledger.info)).write
        [⟨.info, "ledger connected",
          [⟨"account", a.name⟩, ⟨"ledger", h.ledger.info.address.text⟩]⟩] := by
  have hattach : h.onLedger (·.attach a.account (.adaptor k)) = (.ok (), h.seat a.account k) := by
    have hn : h.ledger.accounts.contains a.account := hn
    rw [onLedger, Ledger.attach_eq, if_pos hn]
    exact congrArg _ (publish_of_quiet (quiet_seat hq a.account k))
  simp only [connect, ha, hc, hattach]
  rfl

theorem link?_of_get? (ha : h.adaptors.get? k = some a) : h.link? k = some a.link := by
  rw [link?, ha]
  rfl

theorem link?_disconnect (ha : h.adaptors.get? k = some a) (hc : a.connected) :
    (h.disconnect k).link? k =
      some ({ a.link with connected := false }.raise [.disconnect "disconnect requested"]) := by
  rw [disconnect_of_connected ha hc]
  show (modifyAdaptor _ k _).link? k = _
  rw [link?_modifyAdaptor, if_pos rfl]
  exact congrArg (Option.map _) ha

theorem link?_connect_of_unknown (hq : h.Quiet) (ha : h.adaptors.get? k = some a)
    (hc : a.connected = false) (hn : h.ledger.hasAccount a.account = false) :
    (h.connect k).link? k =
      some (a.link.raise [.disconnect (Error.accountNotFound a.account.text).message]) := by
  rw [connect_of_unknown hq ha hc hn]
  show (modifyAdaptor _ k _).link? k = _
  rw [link?_modifyAdaptor, if_pos rfl]
  exact congrArg (Option.map _) ha

theorem link?_connect_of_known (hq : h.Quiet) (ha : h.adaptors.get? k = some a)
    (hc : a.connected = false) (hn : h.ledger.hasAccount a.account) :
    (h.connect k).link? k =
      some ({ a.link with connected := true }.raise [.connect h.ledger.info]) := by
  rw [connect_of_known hq ha hc hn]
  show (modifyAdaptor _ k _).link? k = _
  rw [link?_modifyAdaptor, if_pos rfl]
  exact congrArg (Option.map _) ha

/-! ### News -/

/-- The ledger has nothing to tell when somebody attaches or detaches. -/
theorem notices_of_seated (hq : h.Quiet) (hs : h.ledger.Sound) (now : Int) {c : Ledger.Step}
    {w : Listener} (hw : c.seated? = some w) : (c.perform now h.ledger).2.notices = [] :=
  ((Ledger.perform_effect hs now c).notices_eq hw).trans hq.notices_eq

/-- Between two hubs an adaptor has raised nothing but news, and none without a session. -/
def Heard (h h' : Hub η) (k : Nat) : Prop :=
  ∃ es : List Event, h'.link? k = (h.link? k).map (·.raise es) ∧ (∀ e ∈ es, e.isLink = false) ∧
    (h.session k = [] → es = [])

namespace Heard

theorem of_same (hx : h'.link? k = h.link? k) : h.Heard h' k :=
  ⟨[], by simp [hx], by simp, fun _ => rfl⟩

theorem after (hh : h.Heard h' k) (hx : h''.link? k = h'.link? k) : h.Heard h'' k := by
  obtain ⟨es, hes, hnews⟩ := hh
  exact ⟨es, hx.trans hes, hnews⟩

theorem before (hx : h'.link? k = h.link? k) (hs : h'.session k = h.session k)
    (hh : h'.Heard h'' k) : h.Heard h'' k := by
  obtain ⟨es, hes, hnews, hnil⟩ := hh
  exact ⟨es, hx ▸ hes, hnews, fun h => hnil (hs.trans h)⟩

/-- A step of the ledger brings an adaptor news through its session. -/
theorem onLedger (hq : h.Quiet) (hs : h.ledger.Sound) (now : Int) (c : Ledger.Step) (k : Nat) :
    h.Heard (h.onLedger fun l => c.perform now l).2 k := by
  have he := Ledger.perform_effect hs now c
  refine ⟨(h.adaptors.get? k).elim [] fun a =>
    ((Listener.adaptor k).received (c.perform now h.ledger).2.callbacks).filterMap a.news, ?_, ?_, ?_⟩
  · show (publish _ |>.adaptors.get? k).map _ = ((h.adaptors.get? k).map _).map _
    rw [get?_adaptors_publish]
    cases h.adaptors.get? k with
    | none => rfl
    | some a => exact congrArg some (a.link_foldl_hear _)
  · cases h.adaptors.get? k with
    | none => simp
    | some a =>
      intro e hn
      obtain ⟨n, -, hn⟩ := List.mem_filterMap.1 hn
      exact Adaptor.isLink_of_news hn
  · intro hnone
    have hnil : (Listener.adaptor k).received (c.perform now h.ledger).2.callbacks = [] := by
      by_cases hc : c.seated? = some (.adaptor k)
      · rw [Ledger.callbacks, notices_of_seated hq hs now hc]
        rfl
      · exact Ledger.received_eq_nil ((he.sessionsOf_eq hc).trans hnone)
    rw [hnil]
    cases h.adaptors.get? k <;> rfl

end Heard

theorem connect_heard (hq : h.Quiet) (hs : h.ledger.Sound) {j : Nat} (hj : k ≠ j) :
    h.Heard (h.connect j) k := by
  unfold connect
  split
  · exact .of_same rfl
  next a _ =>
  split
  · exact .of_same rfl
  have hcall : h.Heard (h.onLedger (·.attach a.account (.adaptor j))).2 k :=
    .onLedger hq hs 0 (.attach a.account (.adaptor j)) k
  split
  next heq =>
    rw [heq] at hcall
    exact hcall.after (link?_modifyAdaptor_of_same _ fun hk => absurd hk hj)
  next heq =>
    rw [heq] at hcall
    exact hcall.after (link?_modifyAdaptor_of_same _ fun hk => absurd hk hj)

theorem disconnect_heard {j : Nat} (hj : k ≠ j) : h.Heard (h.disconnect j) k := by
  unfold disconnect
  split
  · exact .of_same rfl
  split
  · exact .of_same (link?_modifyAdaptor_of_same _ fun hk => absurd hk hj)
  · exact .of_same rfl

theorem Relays.heard (hr : h.Relays now h') (hq : h.Quiet) (hs : h.ledger.Sound) (k : Nat) :
    h.Heard h' k := by
  induction hr with
  | refused => exact .of_same rfl
  | called c => exact .onLedger hq hs now c k
  | logged hr lines ih => exact ih.after rfl

theorem link?_armExpiry (h : Hub η) (j : Nat) (t : Transfer) (state : TransferState) (k : Nat) :
    (h.armExpiry j t state).link? k = h.link? k := by
  unfold armExpiry
  split
  · rfl
  split
  · refine link?_updateAdaptor_of_same _ _ _ fun a => ?_
    split <;> rfl
  · rfl

theorem sendTransfer_heard (hq : h.Quiet) (hs : h.ledger.Sound) (now : Int) (j : Nat) (t : Transfer)
    (k : Nat) : h.Heard (h.sendTransfer now j t).2 k := by
  have hcall : h.Heard (h.onLedger (·.prepare now t)).2 k :=
    .onLedger hq hs now (.prepare t) k
  rcases sendTransfer_cases h now j t with ⟨e, -, heq⟩ | ⟨-, ⟨e, -, heq⟩ | ⟨state, lines, -, heq⟩⟩
  · rw [heq]
    exact .of_same rfl
  · rw [heq]
    exact hcall
  · rw [heq]
    exact hcall.after (link?_armExpiry ..)

theorem fireTimer_heard (hq : h.Quiet) (hs : h.ledger.Sound) (now : Int) (j k : Nat) :
    h.Heard (h.fireTimer now j) k := by
  unfold fireTimer
  split
  · exact .of_same rfl
  next a t alarm _ =>
  have hquiet : (h.modifyAdaptor j fun a => { a with alarm }).Quiet := hq
  have hcall : (h.modifyAdaptor j fun a => { a with alarm }).Heard
      ((h.modifyAdaptor j fun a => { a with alarm }).onLedger (·.expire now t.id)).2 k :=
    .onLedger hquiet hs now (.expire t.id) k
  have hlink : (h.modifyAdaptor j fun a => { a with alarm }).link? k = h.link? k :=
    link?_modifyAdaptor_of_same h fun _ _ => rfl
  have hcall := Heard.before hlink rfl hcall
  simp only
  split
  next heq =>
    rw [heq] at hcall
    exact hcall.after rfl
  next heq =>
    rw [heq] at hcall
    exact hcall.after rfl
  next heq =>
    rw [heq] at hcall
    exact hcall.after rfl

/-! ### Steps -/

/-- Whether a step leaves it to the adaptors to attach and to detach themselves: an adaptor shows
itself as a listener to its ledger only, so nobody else can. -/
def Step.sparesAdaptors : Step η → Bool
  | .ledger (.attach _ (.adaptor _)) | .ledger (.detach (.adaptor _)) => false
  | _ => true

/-- All that a step can do to the connection of an adaptor. -/
inductive Contact (h h' : Hub η) (k : Nat) : Step η → Prop
  | heard {s : Step η} (hh : h.Heard h' k) (hs : h'.session k = h.session k) : Contact h h' k s
  | opened {account : Address} (hk : k = h.nextKey) (hn : k < h'.nextKey)
      (hx : h'.link? k = some ⟨account, false, []⟩) (hs : h'.session k = h.session k) :
    Contact h h' k (.openAdaptor account)
  | removed (hx : h'.link? k = none) (hs : h'.session k = h.session k) : Contact h h' k (.remove k)
  | took {x : Link} {e : Event} {es : List Event} (hx : h.link? k = some x) (he : x.queue = e :: es)
      (hx' : h'.link? k = some { x with queue := es }) (hs : h'.session k = h.session k) :
    Contact h h' k (.takeEvent k)
  | connected {x : Link} (hx : h.link? k = some x) (hc : x.connected = false)
      (hx' : h'.link? k = some ({ x with connected := true }.raise [.connect h.ledger.info]))
      (hs : h.session k = [] → h'.session k = [⟨x.account, .adaptor k⟩]) :
    Contact h h' k (.connect k)
  | refused {x : Link} (hx : h.link? k = some x) (hc : x.connected = false)
      (hx' : h'.link? k =
        some (x.raise [.disconnect (Error.accountNotFound x.account.text).message]))
      (hs : h'.session k = h.session k) : Contact h h' k (.connect k)
  | disconnected {x : Link} (hx : h.link? k = some x) (hc : x.connected)
      (hx' : h'.link? k =
        some ({ x with connected := false }.raise [.disconnect "disconnect requested"]))
      (hs : h'.session k = []) : Contact h h' k (.disconnect k)

/-- An adaptor alone opens and closes its session. -/
theorem seated_call? {s : Step η} (hs : s.sparesAdaptors) {c : Ledger.Step}
    (hc : s.call? h = some c) (hk : c.seated? = some (.adaptor k)) :
    s = .connect k ∨ s = .disconnect k := by
  have hasks := call?_eq_some.1 hc
  cases hasks with
  | ledger => cases c <;> cases hk <;> cases hs
  | connect =>
    cases hk
    exact .inl rfl
  | disconnect =>
    cases hk
    exact .inr rfl
  | _ => cases hk

theorem session_perform (hq : h.Quiet) (hs : h.ledger.Sound) (now : Int) {s : Step η}
    (hc : ∀ c, s.call? h = some c → c.seated? ≠ some (.adaptor k)) :
    (s.perform now h).2.session k = h.session k := by
  rw [session, (perform_effect hq now s).ledger_eq]
  cases hcall : s.call? h with
  | none => rfl
  | some c => exact (Ledger.perform_effect hs now c).sessionsOf_eq (hc c hcall)

theorem nextKey_perform (hq : h.Quiet) (hs : h.ledger.Sound) (now : Int) (s : Step η) :
    h.nextKey ≤ (s.perform now h).2.nextKey := by
  by_cases hopen : ∃ account, s = .openAdaptor account
  · obtain ⟨account, rfl⟩ := hopen
    show h.nextKey ≤ (h.openAdaptor account).2.nextKey
    unfold openAdaptor
    split
    · exact Nat.le_succ _
    · exact le_rfl
  by_cases hremove : ∃ k, s = .remove k
  · obtain ⟨k, rfl⟩ := hremove
    exact le_rfl
  · obtain ⟨ids, -, hadjust⟩ := perform_clears hq hs now (s := s)
      (fun account hs => hopen ⟨account, hs⟩) (fun k hs => hremove ⟨k, hs⟩)
    exact hadjust.nextKey.ge

theorem link_of_make {account : Address} (ha : Adaptor.make account = .ok a) :
    a.link = ⟨account, false, []⟩ := by
  unfold Adaptor.make at ha
  split at ha
  · cases ha
  · cases ha
    rfl

theorem contact_connect (hq : h.Quiet) (hs : h.ledger.Sound) (j k : Nat)
    (hsame : j ≠ k → (h.connect j).session k = h.session k) :
    h.Contact (h.connect j) k (.connect j) := by
  by_cases hj : j = k
  · subst hj
    cases ha : h.adaptors.get? j with
    | none =>
      have heq : h.connect j = h := by rw [connect, ha]
      rw [heq]
      exact .heard (.of_same rfl) rfl
    | some a =>
      have hx := link?_of_get? ha
      cases hc : a.connected with
      | true =>
        rw [connect_of_connected ha hc]
        exact .heard (.of_same rfl) rfl
      | false =>
        cases hn : h.ledger.hasAccount a.account with
        | true =>
          refine .connected hx hc (link?_connect_of_known hq ha hc hn) fun hnil => ?_
          rw [connect_of_known hq ha hc hn]
          exact Ledger.sessionsOf_seats_self hnil
        | false =>
          refine .refused hx hc (link?_connect_of_unknown hq ha hc hn) ?_
          rw [connect_of_unknown hq ha hc hn]
          rfl
  · exact .heard (connect_heard hq hs (Ne.symm hj)) (hsame hj)

theorem contact_disconnect (j k : Nat)
    (hsame : j ≠ k → (h.disconnect j).session k = h.session k) :
    h.Contact (h.disconnect j) k (.disconnect j) := by
  by_cases hj : j = k
  · subst hj
    cases ha : h.adaptors.get? j with
    | none =>
      have heq : h.disconnect j = h := by rw [disconnect, ha]
      rw [heq]
      exact .heard (.of_same rfl) rfl
    | some a =>
      cases hc : a.connected with
      | true =>
        refine .disconnected (link?_of_get? ha) hc (link?_disconnect ha hc) ?_
        rw [disconnect_of_connected ha hc]
        exact Ledger.sessionsOf_detach_self
      | false =>
        rw [disconnect_of_not_connected ha hc]
        exact .heard (.of_same rfl) rfl
  · exact .heard (disconnect_heard (Ne.symm hj)) (hsame hj)

theorem contact_openAdaptor (account : Address) (k : Nat) :
    h.Contact (h.openAdaptor account).2 k (.openAdaptor account) := by
  unfold openAdaptor
  split
  next a ha =>
    have hx : ∀ j, (h.adaptors.insert h.nextKey a).get? j =
        if j = h.nextKey then some a else h.adaptors.get? j := fun j => Table.get?_insert ..
    by_cases hk : k = h.nextKey
    · refine .opened hk (hk ▸ Nat.lt_succ_self _) ?_ rfl
      show ((h.adaptors.insert h.nextKey a).get? k).map _ = _
      rw [hx, if_pos hk]
      exact congrArg some (link_of_make ha)
    · refine .heard (.of_same ?_) rfl
      show ((h.adaptors.insert h.nextKey a).get? k).map _ = _
      rw [hx, if_neg hk]
      rfl
  · exact .heard (.of_same rfl) rfl

theorem contact_remove (j k : Nat) : h.Contact (h.remove j) k (.remove j) := by
  have hx : (h.remove j).link? k = if k = j then none else h.link? k := by
    show ((h.adaptors.erase j).get? k).map _ = _
    rw [Table.get?_erase]
    split <;> rfl
  by_cases hk : k = j
  · subst hk
    exact .removed (hx.trans (if_pos rfl)) rfl
  · exact .heard (.of_same (hx.trans (if_neg hk))) rfl

theorem contact_takeEvent (j k : Nat) : h.Contact (h.takeEvent j) k (.takeEvent j) := by
  by_cases hk : k = j
  · subst hk
    have hx : (h.takeEvent k).link? k =
        (h.adaptors.get? k).map fun a => ({ a with courier := a.courier.take } : Adaptor η).link :=
      (link?_modifyAdaptor ..).trans (if_pos rfl)
    cases ha : h.adaptors.get? k with
    | none =>
      refine .heard (.of_same ?_) rfl
      rw [hx, link?, ha]
      rfl
    | some a =>
      rw [ha] at hx
      have hlink := link?_of_get? ha
      rcases a.courier.events_take with heq | ⟨e, heq⟩
      · refine .heard (.of_same (hx.trans (Eq.trans ?_ hlink.symm))) rfl
        rw [Option.map_some, Adaptor.link, heq]
        rfl
      · exact .took hlink heq hx rfl
  · exact .heard (.of_same (link?_modifyAdaptor_of_same _ fun h => absurd h hk)) rfl

/-- The list of what a step can do to a connection is complete. -/
theorem contact_perform (hq : h.Quiet) (hs : h.ledger.Sound) (now : Int) {s : Step η}
    (hspare : s.sparesAdaptors) (k : Nat) : h.Contact (s.perform now h).2 k s := by
  have hsame : s ≠ .connect k → s ≠ .disconnect k → (s.perform now h).2.session k = h.session k :=
    fun hc hd => session_perform hq hs now fun c hcall hk =>
      (seated_call? hspare hcall hk).elim hc hd
  cases s with
  | ledger s => exact .heard (.onLedger hq hs now s k) (hsame nofun nofun)
  | setAnswer name answer => exact .heard (.of_same rfl) rfl
  | openAdaptor account => exact contact_openAdaptor account k
  | setHandler j handler =>
    exact .heard (.of_same (link?_modifyAdaptor_of_same _ fun _ _ => rfl)) rfl
  | subscribe j s =>
    refine .heard (.of_same (link?_updateAdaptor_of_same _ _ _ fun a => ?_)) (hsame nofun nofun)
    unfold Adaptor.subscribe
    split <;> rfl
  | connect j => exact contact_connect hq hs j k fun hj => hsame (by simpa using hj) nofun
  | disconnect j => exact contact_disconnect j k fun hj => hsame nofun (by simpa using hj)
  | sendMessage j m => exact .heard ((sendMessage_relays h now j m).heard hq hs k) (hsame nofun nofun)
  | sendTransfer j t => exact .heard (sendTransfer_heard hq hs now j t k) (hsame nofun nofun)
  | rejectTransfer j t reason =>
    exact .heard ((rejectTransfer_relays h now j t reason).heard hq hs k) (hsame nofun nofun)
  | fulfillCondition j id f =>
    exact .heard ((fulfillCondition_relays h now j id f).heard hq hs k) (hsame nofun nofun)
  | passTimers j => exact .heard (.of_same (link?_modifyAdaptor_of_same _ fun _ _ => rfl)) rfl
  | fireTimer j => exact .heard (fireTimer_heard hq hs now j k) (hsame nofun nofun)
  | takeEvent j => exact contact_takeEvent j k
  | deliverEvent j =>
    refine .heard (.of_same (link?_updateAdaptor_of_same _ _ _ fun a => ?_)) (hsame nofun nofun)
    simp only [Adaptor.link, Courier.queue_deliver]
  | finishEvent j failure =>
    refine .heard (.of_same (link?_updateAdaptor_of_same _ _ _ fun a => ?_)) (hsame nofun nofun)
    simp only [Adaptor.link, Courier.queue_finish]
  | haltTimers j => exact .heard (.of_same (link?_modifyAdaptor_of_same _ fun _ _ => rfl)) rfl
  | drainTimers j =>
    refine .heard (.of_same ?_) (hsame nofun nofun)
    show (h.drainTimers j).link? k = _
    unfold drainTimers
    split
    · rfl
    · exact link?_modifyAdaptor_of_same _ fun _ _ => rfl
  | closeCourier j => exact .heard (.of_same (link?_modifyAdaptor_of_same _ fun _ _ => rfl)) rfl
  | remove j => exact contact_remove j k

end Hub

end Interledger
