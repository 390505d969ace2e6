import Interledger.Proofs.Hub.Links

/-! Connections along a run. The events that an adaptor raises tell a tale: it connects, has
news, and disconnects before it connects again. The mark of the adaptor and the sessions of the
ledger say the same as the tale. -/

namespace Interledger

/-- The events of an adaptor, and whether it is connected after them. A connection may fail,
which is told by one more disconnect event. -/
inductive Tale : List Event → Bool → Prop
  | nil : Tale [] false
  | connect {es : List Event} (info : LedgerInfo) (h : Tale es false) :
    Tale (es ++ [.connect info]) true
  | disconnect {es : List Event} {b : Bool} (reason : Bytes) (h : Tale es b) :
    Tale (es ++ [.disconnect reason]) false
  | news {es : List Event} {e : Event} (he : e.isLink = false) (h : Tale es true) :
    Tale (es ++ [e]) true

namespace Tale

variable {es es' : List Event} {b : Bool}

theorem append (h : Tale es true) (hn : ∀ e ∈ es', e.isLink = false) : Tale (es ++ es') true := by
  induction es' using List.reverseRecOn with
  | nil => exact (List.append_nil es).symm ▸ h
  | append_singleton es' e ih =>
    rw [← List.append_assoc]
    exact .news (hn e (by simp)) (ih fun e he => hn e (List.mem_append_left _ he))

/-- How a tale ends. -/
theorem of_concat {e : Event} (h : Tale (es ++ [e]) b) :
    (∃ b', Tale es b') ∧ (e.isLink = false → Tale es true) ∧
      ∀ info, e = .connect info → Tale es false := by
  generalize hall : es ++ [e] = all at h
  cases h with
  | nil => simp at hall
  | connect info h =>
    obtain ⟨rfl, heq⟩ := List.append_inj' hall rfl
    cases heq
    exact ⟨⟨_, h⟩, nofun, fun _ _ => h⟩
  | disconnect reason h =>
    obtain ⟨rfl, heq⟩ := List.append_inj' hall rfl
    cases heq
    exact ⟨⟨_, h⟩, nofun, nofun⟩
  | news he h =>
    obtain ⟨rfl, heq⟩ := List.append_inj' hall rfl
    cases heq
    refine ⟨⟨_, h⟩, fun _ => h, ?_⟩
    rintro info rfl
    cases he

/-- What was raised up to some moment is a tale too. -/
theorem exists_of_append (h : Tale (es ++ es') b) : ∃ b', Tale es b' := by
  induction es' using List.reverseRecOn generalizing b with
  | nil => exact ⟨b, List.append_nil es ▸ h⟩
  | append_singleton es' e ih =>
    rw [← List.append_assoc] at h
    obtain ⟨b', h⟩ := h.of_concat.1
    exact ih h

/-- What an event finds that is raised somewhere in a tale. -/
theorem before {pre post : List Event} {e : Event} (h : Tale (pre ++ e :: post) b) :
    (e.isLink = false → Tale pre true) ∧ ∀ info, e = .connect info → Tale pre false := by
  rw [List.append_cons] at h
  obtain ⟨b', h⟩ := h.exists_of_append
  exact h.of_concat.2

/-- An adaptor is connected when the last event about its connection is that it connects. -/
theorem connected_iff (h : Tale es b) :
    b = true ↔ ∃ info, (es.filter Event.isLink).getLast? = some (.connect info) := by
  induction h with
  | nil => simp
  | connect info h ih => simp [Event.isLink]
  | disconnect reason h ih => simp [Event.isLink]
  | news he h ih => simpa [he] using ih

theorem no_adjacent (h : Tale es b) (pre : List Event) (i j : LedgerInfo) (post : List Event) :
    es.filter Event.isLink ≠ pre ++ .connect i :: .connect j :: post := by
  intro heq
  rw [List.append_cons] at heq
  obtain ⟨p, q, rfl, hp, hq⟩ := List.filter_eq_append_iff.1 heq
  obtain ⟨n, r, rfl, hn, -, -⟩ := List.filter_eq_cons_iff.1 hq
  rw [← List.append_assoc] at h
  have hoff : Tale (p ++ n) false := h.before.2 j rfl
  have hlast : ((p ++ n).filter Event.isLink).getLast? = some (.connect i) := by
    have hnone : n.filter Event.isLink = [] := List.filter_eq_nil_iff.2 hn
    rw [List.filter_append, hnone, List.append_nil, hp, List.getLast?_concat]
  cases hoff.connected_iff.2 ⟨i, hlast⟩

theorem exists_connect (h : Tale es true) :
    ∃ pre info post, es = pre ++ .connect info :: post ∧ ∀ e ∈ post, e.isLink = false := by
  generalize hb : true = b at h
  induction h with
  | nil => cases hb
  | @connect es info h => exact ⟨es, info, [], rfl, by simp⟩
  | disconnect => cases hb
  | @news es e he h ih =>
    obtain ⟨pre, info, post, rfl, hpost⟩ := ih hb
    refine ⟨pre, info, post ++ [e], by simp, fun e' he' => ?_⟩
    rcases List.mem_append.1 he' with he' | he'
    · exact hpost e' he'
    · exact List.mem_singleton.1 he' ▸ he

end Tale

namespace Hub

variable {η : Type} {h h' : Hub η} {now : Int} {k : Nat}

/-- The events of an adaptor that wait for its handler. -/
def waiting (h : Hub η) (k : Nat) : List Event :=
  (h.adaptors.get? k).elim [] (·.courier.queue.events)

/-- What a step puts behind the events of an adaptor. -/
def Step.raised (now : Int) (h : Hub η) (s : Step η) (k : Nat) : List Event :=
  ((s.perform now h).2.waiting k).drop (h.waiting k).length

/-- What an adaptor raises in some steps. -/
def raised (h : Hub η) (k : Nat) : List (Int × Step η) → List Event
  | [] => []
  | s :: ss => s.2.raised s.1 h k ++ raised (s.2.perform s.1 h).2 k ss

theorem raised_concat (h : Hub η) (k : Nat) (steps : List (Int × Step η)) (s : Int × Step η) :
    h.raised k (steps ++ [s]) = h.raised k steps ++ s.2.raised s.1 (h.after steps) k := by
  induction steps generalizing h with
  | nil => exact List.append_nil _
  | cons r steps ih =>
    rw [List.cons_append, raised, ih, raised, List.append_assoc]
    rfl

theorem waiting_eq (h : Hub η) (k : Nat) : h.waiting k = (h.link? k).elim [] (·.queue) := by
  rw [waiting, link?]
  cases h.adaptors.get? k <;> rfl

theorem drop_waiting {x x' : Link} {es : List Event} (hx : h.link? k = some x)
    (hx' : h'.link? k = some x') (hq : x'.queue = x.queue ++ es) :
    (h'.waiting k).drop (h.waiting k).length = es := by
  rw [waiting_eq, waiting_eq, hx, hx']
  show x'.queue.drop x.queue.length = es
  rw [hq, List.drop_left]

theorem drop_waiting_of_none {n : Nat} (hx' : h'.link? k = none) : (h'.waiting k).drop n = [] := by
  rw [waiting_eq, hx']
  exact List.drop_nil

/-- What an adaptor shows of its connection agrees with its session and with the events that it
has raised; a number that is not in use yet has neither. -/
structure Linked (h : Hub η) (k : Nat) (es : List Event) : Prop where
  fresh : h.nextKey ≤ k → h.link? k = none ∧ h.session k = [] ∧ es = []
  tale : ∀ x, h.link? k = some x → Tale es x.connected
  session : ∀ x, h.link? k = some x →
    h.session k = if x.connected then [⟨x.account, .adaptor k⟩] else []
  queue : ∀ x, h.link? k = some x → x.queue <:+ es

namespace Linked

variable {es : List Event}

theorem of_make {info : LedgerInfo} {l : Ledger} (hl : Ledger.make info = .ok l) (k : Nat) :
    (make l : Hub η).Linked k [] := by
  have hnone : (make l : Hub η).link? k = none := rfl
  have hsession : (make l : Hub η).session k = [] := by
    rw [Ledger.make_eq_ok hl]
    rfl
  exact ⟨fun _ => ⟨hnone, hsession, rfl⟩, by simp [hnone], by simp [hnone], by simp [hnone]⟩

theorem of_some {x : Link} (hn : k < h.nextKey) (hx : h.link? k = some x) (ht : Tale es x.connected)
    (hs : h.session k = if x.connected then [⟨x.account, .adaptor k⟩] else [])
    (hq : x.queue <:+ es) : h.Linked k es := by
  refine ⟨fun hle => absurd hn (Nat.not_lt.2 hle), ?_, ?_, ?_⟩
  all_goals
    intro y hy
    obtain rfl : x = y := Option.some.inj (hx.symm.trans hy)
    assumption

theorem of_none (hx : h.link? k = none) (hf : h.nextKey ≤ k → h.session k = [] ∧ es = []) :
    h.Linked k es :=
  ⟨fun hle => ⟨hx, hf hle⟩, by simp [hx], by simp [hx], by simp [hx]⟩

theorem lt_nextKey (hl : h.Linked k es) {x : Link} (hx : h.link? k = some x) : k < h.nextKey := by
  by_contra hle
  have hnone := (hl.fresh (Nat.not_lt.1 hle)).1
  rw [hnone] at hx
  cases hx

/-- Every step keeps the agreement, with what it raises. -/
theorem step (hl : h.Linked k es) {s : Step η} (hc : h.Contact h' k s) (hn : h.nextKey ≤ h'.nextKey) :
    h'.Linked k (es ++ (h'.waiting k).drop (h.waiting k).length) := by
  cases hc with
  | heard hh hs =>
    obtain ⟨new, hx', hnew, hnil⟩ := hh
    cases hx : h.link? k with
    | none =>
      rw [hx] at hx'
      rw [drop_waiting_of_none hx', List.append_nil]
      refine of_none hx' fun hle => ?_
      obtain ⟨-, hsession, hes⟩ := hl.fresh (hn.trans hle)
      exact ⟨hs.trans hsession, hes⟩
    | some x =>
      rw [hx] at hx'
      rw [drop_waiting hx hx' rfl]
      refine of_some ((hl.lt_nextKey hx).trans_le hn) hx' ?_ (hs.trans (hl.session x hx))
        (List.suffix_append_self_iff.2 (hl.queue x hx))
      have ht := hl.tale x hx
      cases hcon : x.connected with
      | true =>
        rw [hcon] at ht
        show Tale _ x.connected
        rw [hcon]
        exact ht.append hnew
      | false =>
        -- Without a session nothing is heard, and the tale does not grow.
        have hsession := hl.session x hx
        rw [hcon] at hsession
        rw [hnil hsession, List.append_nil]
        exact ht
  | opened hk hnext hx' hs =>
    obtain ⟨hx, hsession, rfl⟩ := hl.fresh hk.ge
    have hnil : h'.waiting k = [] := by
      rw [waiting_eq, hx']
      rfl
    rw [hnil, List.drop_nil]
    exact of_some hnext hx' .nil (hs.trans hsession) (List.suffix_refl _)
  | removed hx' hs =>
    rw [drop_waiting_of_none hx', List.append_nil]
    refine of_none hx' fun hle => ?_
    obtain ⟨-, hsession, hes⟩ := hl.fresh (hn.trans hle)
    exact ⟨hs.trans hsession, hes⟩
  | @took x e rest hx he hx' hs =>
    have hnil : (h'.waiting k).drop (h.waiting k).length = [] := by
      rw [waiting_eq, waiting_eq, hx, hx', Option.elim_some, Option.elim_some, he]
      exact List.drop_eq_nil_of_le (by simp)
    rw [hnil, List.append_nil]
    refine of_some ((hl.lt_nextKey hx).trans_le hn) hx' (hl.tale x hx) (hs.trans (hl.session x hx)) ?_
    have hq := hl.queue x hx
    rw [he] at hq
    exact (List.suffix_cons e rest).trans hq
  | @connected x hx hcon hx' hs =>
    have ht := hl.tale x hx
    have hsession := hl.session x hx
    rw [hcon] at ht hsession
    rw [drop_waiting hx hx' rfl]
    exact of_some ((hl.lt_nextKey hx).trans_le hn) hx' (.connect _ ht) (hs hsession)
      (List.suffix_append_self_iff.2 (hl.queue x hx))
  | @refused x hx hcon hx' hs =>
    have ht := hl.tale x hx
    rw [drop_waiting hx hx' rfl]
    refine of_some ((hl.lt_nextKey hx).trans_le hn) hx' ?_ (hs.trans (hl.session x hx))
      (List.suffix_append_self_iff.2 (hl.queue x hx))
    show Tale _ x.connected
    rw [hcon]
    exact .disconnect _ ht
  | @disconnected x hx hcon hx' hs =>
    rw [drop_waiting hx hx' rfl]
    exact of_some ((hl.lt_nextKey hx).trans_le hn) hx' (.disconnect _ (hl.tale x hx)) hs
      (List.suffix_append_self_iff.2 (hl.queue x hx))

end Linked

section
variable {info : LedgerInfo} {l : Ledger} {steps : List (Int × Step η)}

theorem linked_run (hl : Ledger.make info = .ok l) (hs : ∀ s ∈ steps, s.2.sparesAdaptors) (k : Nat) :
    (run l steps).Linked k ((make l).raised k steps) := by
  induction steps using List.reverseRecOn with
  | nil => exact .of_make hl k
  | append_singleton steps s ih =>
    have hq := quiet_run hl steps
    have hsound := sound_run hl steps
    have hcontact := contact_perform hq hsound s.1 (hs s (by simp)) k
    rw [raised_concat, run_concat]
    exact (ih fun s hm => hs s (List.mem_append_left _ hm)).step hcontact
      (nextKey_perform hq hsound s.1 s.2)

/-- An adaptor that is in use and not connected. -/
def Off (h : Hub η) (k : Nat) : Prop := ∃ x, h.link? k = some x ∧ x.connected = false

/-- An adaptor that is not connected stays so until it is asked to connect or goes. -/
theorem Off.step (ho : h.Off k) {s : Step η} (hc : h.Contact h' k s) (hconnect : s ≠ .connect k)
    (hremove : s ≠ .remove k) : h'.Off k := by
  obtain ⟨x, hx, hoff⟩ := ho
  cases hc with
  | heard hh hs =>
    obtain ⟨es, hx', -⟩ := hh
    rw [hx] at hx'
    exact ⟨_, hx', hoff⟩
  | opened hk hn hx' hs => exact ⟨_, hx', rfl⟩
  | removed => exact absurd rfl hremove
  | took hy he hx' hs =>
    cases hx.symm.trans hy
    exact ⟨_, hx', hoff⟩
  | connected => exact absurd rfl hconnect
  | refused => exact absurd rfl hconnect
  | disconnected hy hc hx' hs => exact ⟨_, hx', rfl⟩

theorem Off.run (hl : Ledger.make info = .ok l) (ho : (run l steps).Off k)
    {more : List (Int × Step η)} (hm : ∀ s ∈ more, s.2.sparesAdaptors ∧ s.2 ≠ .connect k ∧ s.2 ≠ .remove k) :
    (Hub.run l (steps ++ more)).Off k := by
  induction more using List.reverseRecOn with
  | nil => exact (List.append_nil steps).symm ▸ ho
  | append_singleton more s ih =>
    obtain ⟨hspare, hconnect, hremove⟩ := hm s (by simp)
    rw [← List.append_assoc, run_concat]
    have hc := contact_perform (quiet_run hl (steps ++ more)) (sound_run hl _) s.1 hspare k
    exact (ih fun s hs => hm s (List.mem_append_left _ hs)).step hc hconnect hremove

theorem off_disconnect {a : Adaptor η} (ha : h.adaptors.get? k = some a) : (h.disconnect k).Off k := by
  cases hc : a.connected with
  | true => exact ⟨_, link?_disconnect ha hc, rfl⟩
  | false =>
    rw [disconnect_of_not_connected ha hc]
    exact ⟨_, link?_of_get? ha, hc⟩

/-- After it has disconnected, an adaptor that goes out of service does not connect again. -/
theorem retireSteps_eq (h : Hub η) (now : Int) (k : Nat) :
    ∃ rest, h.retireSteps now k = (now, .disconnect k) :: rest ∧
      ∀ s ∈ rest, s.2.sparesAdaptors ∧ s.2 ≠ .connect k ∧ s.2 ≠ .remove k := by
  refine ⟨_, rfl, fun s hs => ?_⟩
  have hs : s = (now, .haltTimers k) ∨ s = (now, .fireTimer k) ∨ s = (now, .drainTimers k) ∨
      (∃ t, s = (now, .ledger (.adopt t))) ∨ s = (now, .closeCourier k) := by
    simp at hs
    grind
  rcases hs with rfl | rfl | rfl | ⟨t, rfl⟩ | rfl
  all_goals exact ⟨rfl, nofun, nofun⟩

end

/-! ### The three views of a connection -/

/-- After every step of a run, the mark of an adaptor, its session and its events say the same
about its connection. Connecting twice or disconnecting twice does nothing; connecting for an
account that the ledger does not know is told by one disconnect event, and succeeds later, once
the account is there. News come between a connect and the next disconnect. An adaptor that goes
out of service is disconnected. -/
theorem connection_views_agree {info : LedgerInfo} {l : Ledger} (hl : Ledger.make info = .ok l)
    {steps : List (Int × Step η)} (hs : ∀ s ∈ steps, s.2.sparesAdaptors) {k : Nat} {a : Adaptor η}
    (ha : (run l steps).adaptors.get? k = some a) (now : Int) :
    let h := run l steps
    let es := (make l).raised k steps
    (a.connected ↔ ∃ i, (es.filter Event.isLink).getLast? = some (.connect i)) ∧
    h.ledger.sessions.filter (·.listener = .adaptor k) =
      (if a.connected then [⟨a.account, .adaptor k⟩] else []) ∧
    (∀ pre i j post, es.filter Event.isLink ≠ pre ++ .connect i :: .connect j :: post) ∧
    (a.connected → h.connect k = h) ∧ (a.connected = false → h.disconnect k = h) ∧
    (a.connected = false → h.ledger.hasAccount a.account →
      (Step.connect k).raised now h k = [.connect h.ledger.info] ∧
        ∃ b, (h.connect k).adaptors.get? k = some b ∧ b.connected) ∧
    (a.connected = false → h.ledger.hasAccount a.account = false →
      let refusal := Event.disconnect (Error.accountNotFound a.account.text).message
      (Step.connect k).raised now h k = [refusal] ∧ (h.connect k).ledger = h.ledger ∧
        ∀ j, (h.connect k).adaptors.get? j =
          if j = k then some (a.raise refusal) else h.adaptors.get? j) ∧
    (∀ pre e post, es = pre ++ e :: post → e.isLink = false →
      ∃ p i q, pre = p ++ .connect i :: q ∧ ∀ reason, .disconnect reason ∉ q) ∧
    a.courier.queue.events <:+ es ∧
    ∃ more : List (Int × Step η), (∀ s ∈ more, s.2.sparesAdaptors) ∧
      h.retire now k = run l (steps ++ more) ∧
      ∃ b, (h.retire now k).adaptors.get? k = some b ∧ b.connected = false := by
  have hq := quiet_run hl steps
  have hlinked := linked_run hl hs k
  have hx := link?_of_get? ha
  have ht := hlinked.tale _ hx
  refine ⟨ht.connected_iff, hlinked.session _ hx, ht.no_adjacent, connect_of_connected ha,
    disconnect_of_not_connected ha, fun hc hn => ?_, fun hc hn => ?_, ?_, hlinked.queue _ hx, ?_⟩
  · have hx' := link?_connect_of_known hq ha hc hn
    obtain ⟨b, hb, hlink⟩ := Option.map_eq_some_iff.1 hx'
    exact ⟨drop_waiting hx hx' rfl, b, hb, congrArg Link.connected hlink⟩
  · refine ⟨drop_waiting hx (link?_connect_of_unknown hq ha hc hn) rfl, ?_, fun j => ?_⟩
    · rw [connect_of_unknown hq ha hc hn]
      rfl
    · rw [connect_of_unknown hq ha hc hn]
      show ((run l steps).adaptors.modify k _).get? j = _
      rw [Table.get?_modify]
      split
      next hj =>
        rw [hj, ha]
        rfl
      · rfl
  · intro pre e post heq he
    rw [heq] at ht
    obtain ⟨p, i, q, hp, hq⟩ := (ht.before.1 he).exists_connect
    refine ⟨p, i, q, hp, fun reason hm => ?_⟩
    cases hq _ hm
  · obtain ⟨rest, heq, hrest⟩ := retireSteps_eq (run l steps) now k
    have hoff : (run l (steps ++ [(now, .disconnect k)])).Off k := by
      rw [run_concat]
      exact off_disconnect ha
    have hretire : (run l steps).retire now k =
        run l (steps ++ (run l steps).retireSteps now k) := by
      rw [retire_eq]
      exact (after_append ..).symm
    have hoff := hoff.run hl hrest
    rw [List.append_assoc, List.singleton_append, ← heq, ← hretire] at hoff
    obtain ⟨x, hx', hoff⟩ := hoff
    obtain ⟨b, hb, rfl⟩ := Option.map_eq_some_iff.1 hx'
    refine ⟨_, fun s hm => ?_, hretire, b, hb, hoff⟩
    rw [heq] at hm
    rcases List.mem_cons.1 hm with rfl | hm
    · rfl
    · exact (hrest s hm).1

/-- An adaptor whose account is opened only after it has tried to connect. -/
def sampleRetried : List (Int × Step Unit) :=
  [(0, .openAdaptor Ledger.Sample.bob), (0, .connect 0),
    (1, .ledger (.addAccount Ledger.Sample.bob "Bob" 0)), (2, .connect 0), (3, .connect 0)]

/-- The first attempt is told to have failed, and the second one succeeds. -/
theorem connection_views_agree_retried :
    Ledger.make Ledger.Sample.ledger.info = .ok Ledger.Sample.ledger ∧
    (∀ s ∈ sampleRetried, s.2.sparesAdaptors) ∧
    let h := run Ledger.Sample.ledger sampleRetried
    (∃ a, h.adaptors.get? 0 = some a ∧ a.connected) ∧
      h.ledger.sessions.filter (·.listener = .adaptor 0) = [⟨Ledger.Sample.bob, .adaptor 0⟩] ∧
      (make Ledger.Sample.ledger).raised 0 sampleRetried =
        [.disconnect (Error.accountNotFound Ledger.Sample.bob.text).message,
          .connect Ledger.Sample.ledger.info] := by
  have hl : Ledger.make Ledger.Sample.ledger.info = .ok Ledger.Sample.ledger := rfl
  have hs : ∀ s ∈ sampleRetried, s.2.sparesAdaptors := by simp [sampleRetried, Step.sparesAdaptors]
  obtain ⟨a, ha, hc⟩ : ∃ a, (run Ledger.Sample.ledger sampleRetried).adaptors.get? 0 = some a ∧
      a.connected ∧ a.account = Ledger.Sample.bob := ⟨_, rfl, rfl, rfl⟩
  have hviews := connection_views_agree hl hs ha 4
  refine ⟨hl, hs, ⟨a, ha, hc.1⟩, ?_, rfl⟩
  have hsession := hviews.2.1
  rwa [hc.1, hc.2] at hsession

end Hub

end Interledger
