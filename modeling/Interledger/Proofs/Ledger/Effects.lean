import Interledger.Proofs.Ledger.Steps

/-! What one step can do to a sound ledger.

In a sound ledger every record stands under its own id, names two accounts that exist,
and is either terminal or prepared under a condition. This rules out every failure in the
middle of a call: a call is refused before it has written anything, or it goes through.
`Effect` lists all outcomes: nothing but opening accounts and the steps of a transfer
touches money, and every step leaves a sound ledger. -/

namespace Interledger.Ledger

/-- What may stand in the book under an id. -/
def Holds (l : Ledger) (id : Bytes) : BookEntry → Prop
  | .live t s _ => t.id = id ∧ l.accounts.contains t.sender ∧ l.accounts.contains t.receiver ∧
      (s = .prepared ∧ t.condition.isSome ∨ s.isTerminal)
  | .settled s => s.isTerminal

structure Sound (l : Ledger) : Prop where
  nodup_keys : l.book.entries.keys.Nodup
  holds : ∀ id e, l.book.entries.get? id = some e → l.Holds id e
  nodup_listeners : (l.sessions.map (·.listener)).Nodup

/-- A transfer that a ledger accepts. -/
structure Admits (l : Ledger) (t : Transfer) : Prop where
  sender : l.accounts.contains t.sender
  receiver : l.accounts.contains t.receiver
  fresh : l.book.contains t.id = false

theorem Holds.mono {l l' : Ledger} {id : Bytes} {e : BookEntry} (h : l.Holds id e)
    (ha : ∀ a, l.accounts.contains a → l'.accounts.contains a) : l'.Holds id e := by
  cases e with
  | live t s u => exact ⟨h.1, ha _ h.2.1, ha _ h.2.2.1, h.2.2.2⟩
  | settled s => exact h

theorem Sound.live {l : Ledger} (hl : l.Sound) {id : Bytes} {t : Transfer} {s : TransferState}
    {u : Int} (h : l.book.entries.get? id = some (.live t s u)) :
    t.id = id ∧ l.accounts.contains t.sender ∧ l.accounts.contains t.receiver ∧
      (s = .prepared ∧ t.condition.isSome ∨ s.isTerminal) :=
  hl.holds id _ h

/-! ### Settling -/

section
variable {l : Ledger} {now : Int} {t : Transfer} {e : Ending}

theorem settle_eq {u : Int} (h : l.book.entries.get? t.id = some (.live t .prepared u))
    (ha : l.accounts.contains (e.payee t)) :
    l.settle now t e.state e.reason? (e.payee t) (e.notice t) = (.ok true, l.ended now t e) := by
  rw [settle, Book.transition?_eq_some h e.allows_state]
  exact if_pos ha

theorem settle_eq_false (h : ∀ t' u, l.book.entries.get? t.id ≠ some (.live t' .prepared u)) :
    l.settle now t e.state e.reason? (e.payee t) (e.notice t) = (.ok false, l) := by
  rw [settle, Book.transition?_eq_none h]

theorem payee_of_live (hl : l.Sound) {u : Int} {s : TransferState} {id : Bytes}
    (h : l.book.entries.get? id = some (.live t s u)) (e : Ending) :
    l.accounts.contains (e.payee t) := by
  obtain ⟨-, hs, hr, -⟩ := hl.live h
  cases e with
  | executed f => exact hr
  | rejected reason => exact hs
  | expired => exact hs

end

/-! ### One lemma for each call -/

section
variable {l : Ledger} {now : Int}

theorem partyError?_eq_none {party : Party} {a : Address} (h : l.partyError? party a = none) :
    l.accounts.contains a := by
  unfold partyError? at h
  split at h
  · cases h
  split at h
  · cases h
  next hc => simpa using hc

theorem decline_eq {t : Transfer} {balance : Int} :
    ({ l with book := l.book.put now t .proposed none }.decline now t balance) =
      (.ok .rejected, l.declined now t balance) := by
  rw [decline, Book.transition?_eq_some Book.get?_put_self rfl]
  rfl

/-- A transfer without a condition goes through escrow to the receiver in one call. -/
theorem fund_eq {t : Transfer} (ha : l.accounts.contains t.receiver) :
    ({ l with book := l.book.put now t .proposed none }.fund now t) =
      if t.condition.isSome then (.ok .prepared, l.funded now t)
      else (.ok .executed, (l.funded now t).ended now t (.executed none)) := by
  have hs : (l.funded now t).execute now t none =
      (.ok true, (l.funded now t).ended now t (.executed none)) :=
    settle_eq (e := .executed none) (u := now) (by simp)
      (by simpa [Ending.payee] using ha)
  rw [fund, Book.transition?_eq_some Book.get?_put_self rfl]
  dsimp only [funded] at hs ⊢
  rw [hs]

/-- Why a ledger does not accept a transfer. -/
def refusal? (l : Ledger) (t : Transfer) : Option Error :=
  (l.partyError? .sender t.sender).or <| (l.partyError? .receiver t.receiver).or <|
    if l.book.contains t.id then some (.transferKnown t.id) else none

theorem prepare_eq_of_refusal? {t : Transfer} {e : Error} (h : l.refusal? t = some e) :
    l.prepare now t = (.error e, l) := by
  unfold prepare
  unfold refusal? at h
  cases hs : l.partyError? .sender t.sender with
  | some e' =>
    rw [hs] at h
    cases h
    rfl
  | none =>
    rw [hs, Option.none_or] at h
    cases hr : l.partyError? .receiver t.receiver with
    | some e' =>
      rw [hr] at h
      cases h
      rfl
    | none =>
      rw [hr, Option.none_or] at h
      obtain ⟨hc, h⟩ := Option.ite_none_right_eq_some.1 h
      cases h
      simp only [Book.propose_eq, if_pos hc]

/-- What preparing a transfer gives when it is not refused. -/
theorem prepare_eq (now : Int) {t : Transfer} (h : l.refusal? t = none) :
    ∃ balance, l.Admits t ∧ l.balance? t.sender = some balance ∧
      l.prepare now t =
        if balance < t.amount then (.ok .rejected, l.declined now t balance)
        else if t.condition.isSome then (.ok .prepared, l.funded now t)
        else (.ok .executed, (l.funded now t).ended now t (.executed none)) := by
  simp only [refusal?, Option.or_eq_none_iff] at h
  obtain ⟨hsender, hreceiver, hknown⟩ := h
  have hs := partyError?_eq_none hsender
  have hr := partyError?_eq_none hreceiver
  have hc : l.book.contains t.id = false := by simpa using hknown
  obtain ⟨r, hb⟩ := Table.contains_iff_exists.1 hs
  have hb : l.balance? t.sender = some r.balance := by rw [balance?, hb]; rfl
  have hb' : { l with book := l.book.put now t .proposed none }.balance? t.sender =
      some r.balance := hb
  refine ⟨r.balance, ⟨hs, hr, hc⟩, hb, ?_⟩
  simp only [prepare, hsender, hreceiver, Book.propose_eq, hc, Bool.false_eq_true, if_false, hb',
    decline_eq, fund_eq hr]

/-- What preparing a transfer gives, whatever the state of the ledger. -/
theorem prepare_cases (l : Ledger) (now : Int) (t : Transfer) :
    (∃ e, l.prepare now t = (.error e, l)) ∨
    ∃ balance, l.Admits t ∧ l.balance? t.sender = some balance ∧
      l.prepare now t =
        if balance < t.amount then (.ok .rejected, l.declined now t balance)
        else if t.condition.isSome then (.ok .prepared, l.funded now t)
        else (.ok .executed, (l.funded now t).ended now t (.executed none)) := by
  cases h : l.refusal? t with
  | some e => exact .inl ⟨e, prepare_eq_of_refusal? h⟩
  | none => exact .inr (prepare_eq now h)

/-- What is prepared without an error was unknown, and is in the state that is told. -/
theorem state_of_prepare {t : Transfer} {s : TransferState} (h : (l.prepare now t).1 = .ok s) :
    l.book.contains t.id = false ∧ (l.prepare now t).2.book.stateOf? t.id = some s := by
  have hstate : ∀ {l' : Ledger} {s' : TransferState}, (∀ id, l'.book.entries.get? id =
      if id = t.id then some (.live t s' now) else l.book.entries.get? id) →
      l'.book.stateOf? t.id = some s' :=
    fun hg => (Book.stateOf?_of_get? hg t.id).trans (if_pos rfl)
  rcases prepare_cases l now t with ⟨e, heq⟩ | ⟨balance, ha, -, heq⟩
  · rw [heq] at h
    cases h
  · refine ⟨ha.fresh, ?_⟩
    rw [heq] at h ⊢
    split at h
    next hlt =>
      cases h
      rw [if_pos hlt]
      exact hstate (get?_declined l now t balance)
    next hle =>
    split at h
    next hc =>
      cases h
      rw [if_neg hle, if_pos hc]
      exact hstate (get?_funded l now t)
    next hc =>
      cases h
      rw [if_neg hle, if_neg hc]
      exact hstate (get?_funded_ended l now t (.executed none))

theorem held_eq_ok_iff {id : Bytes} {caller : Address} {t : Transfer} :
    l.held now id caller = .ok t ↔
      (∃ u, l.book.entries.get? id = some (.live t .prepared u)) ∧ t.receiver = caller ∧
        t.expiresAt.any (· ≤ now) = false := by
  constructor
  · intro h
    unfold held at h
    split at h
    · cases h
    next t' hf =>
    split at h
    · cases h
    next hr =>
    split at h
    · cases h
    next hs =>
    split at h
    · cases h
    next hx =>
    cases h
    obtain ⟨s, u, hg⟩ := Book.find?_eq_some_iff.1 hf
    have hs : s = .prepared := by simpa [Book.stateOf?, hg, BookEntry.state] using hs
    exact ⟨⟨u, hs ▸ hg⟩, by simpa using hr, by simpa using hx⟩
  · rintro ⟨⟨u, hg⟩, hr, hx⟩
    have hf : l.book.find? id = some t := Book.find?_eq_some_iff.2 ⟨_, u, hg⟩
    have hs : l.book.stateOf? id = some .prepared := by simp [Book.stateOf?, hg, BookEntry.state]
    simp [held, hf, hr, hs, hx]

/-- Why a fulfillment goes through. -/
structure Unlocks (now : Int) (caller : Address) (f : Fulfillment) (t : Transfer) : Prop where
  receiver : t.receiver = caller
  before_expiry : t.expiresAt.any (· ≤ now) = false
  fulfilled : t.condition.any (·.isFulfilledBy f)

/-- A fulfillment goes through when it opens the transfer that is held for the caller. -/
theorem fulfill_eq (hl : l.Sound) (now : Int) (id : Bytes) (caller : Address) (f : Fulfillment) :
    l.fulfill now id caller f =
      match l.held now id caller with
      | .error e => (.error e, l)
      | .ok t =>
        if t.condition.any (·.isFulfilledBy f) then (.ok (), l.ended now t (.executed (some f)))
        else (.error (.wrongFulfillment id), l) := by
  unfold fulfill
  cases hh : l.held now id caller with
  | error e => rfl
  | ok t =>
    obtain ⟨⟨u, hg⟩, -, -⟩ := held_eq_ok_iff.1 hh
    obtain ⟨hid, -, -, hst⟩ := hl.live hg
    have hcond : t.condition.isSome := hst.elim (·.2) nofun
    obtain ⟨c, hc⟩ := Option.isSome_iff_exists.1 hcond
    have hs : l.execute now t (some f) = (.ok true, l.ended now t (.executed (some f))) :=
      settle_eq (e := .executed (some f)) (hid ▸ hg) (payee_of_live hl hg _)
    by_cases hf : c.isFulfilledBy f
    · simp [hc, hf, hs]
    · simp [hc, hf]

theorem fulfill_cases (hl : l.Sound) (now : Int) (id : Bytes) (caller : Address) (f : Fulfillment) :
    (∃ e, l.fulfill now id caller f = (.error e, l)) ∨
    ∃ t u, l.book.entries.get? id = some (.live t .prepared u) ∧ Unlocks now caller f t ∧
      l.fulfill now id caller f = (.ok (), l.ended now t (.executed (some f))) := by
  rw [fulfill_eq hl]
  cases hh : l.held now id caller with
  | error e => exact .inl ⟨e, rfl⟩
  | ok t =>
    obtain ⟨⟨u, hg⟩, hr, hx⟩ := held_eq_ok_iff.1 hh
    by_cases hf : t.condition.any (·.isFulfilledBy f)
    · exact .inr ⟨t, u, hg, ⟨hr, hx, hf⟩, if_pos hf⟩
    · exact .inl ⟨_, if_neg hf⟩

/-- A rejection goes through when the transfer is held for the caller. -/
theorem reject_eq (hl : l.Sound) (now : Int) (id : Bytes) (caller : Address) (reason : Reason) :
    l.reject now id caller reason =
      match l.held now id caller with
      | .error e => (.error e, l)
      | .ok t => (.ok (), l.ended now t (.rejected reason)) := by
  unfold reject
  cases hh : l.held now id caller with
  | error e => rfl
  | ok t =>
    obtain ⟨⟨u, hg⟩, -, -⟩ := held_eq_ok_iff.1 hh
    have hid := (hl.live hg).1
    have hs : l.refund now t .rejected reason = (.ok true, l.ended now t (.rejected reason)) :=
      settle_eq (e := .rejected reason) (hid ▸ hg) (payee_of_live hl hg (.rejected reason))
    simp only [hs]

theorem reject_cases (hl : l.Sound) (now : Int) (id : Bytes) (caller : Address) (reason : Reason) :
    (∃ e, l.reject now id caller reason = (.error e, l)) ∨
    ∃ t u, l.book.entries.get? id = some (.live t .prepared u) ∧ t.receiver = caller ∧
      t.expiresAt.any (· ≤ now) = false ∧
      l.reject now id caller reason = (.ok (), l.ended now t (.rejected reason)) := by
  rw [reject_eq hl]
  cases hh : l.held now id caller with
  | error e => exact .inl ⟨e, rfl⟩
  | ok t =>
    obtain ⟨⟨u, hg⟩, hr, hx⟩ := held_eq_ok_iff.1 hh
    exact .inr ⟨t, u, hg, hr, hx, rfl⟩

theorem expire_cases (hl : l.Sound) (now : Int) (id : Bytes) :
    ((∀ t u, l.book.entries.get? id ≠ some (.live t .prepared u)) ∧
      l.expire now id = (.ok false, l)) ∨
    ∃ t u, l.book.entries.get? id = some (.live t .prepared u) ∧
      l.expire now id = (.ok true, l.ended now t .expired) := by
  unfold expire
  cases hf : l.book.find? id with
  | none =>
    refine .inl ⟨fun t u hg => ?_, rfl⟩
    rw [Book.find?_eq_some_iff.2 ⟨_, u, hg⟩] at hf
    cases hf
  | some t =>
    obtain ⟨s, u, hg⟩ := Book.find?_eq_some_iff.1 hf
    have hid := (hl.live hg).1
    by_cases hs : s = .prepared
    · subst hs
      exact .inr ⟨t, u, hg,
        settle_eq (e := .expired) (hid ▸ hg) (payee_of_live hl hg .expired)⟩
    · have hn : ∀ t' u', l.book.entries.get? id ≠ some (.live t' .prepared u') := by
        intro t' u' hg'
        rw [hg] at hg'
        cases hg'
        exact hs rfl
      exact .inl ⟨hn, settle_eq_false (e := .expired) (by rw [hid]; exact hn)⟩

end

/-! ### All outcomes of a step -/

/-- The steps that end a prepared transfer, with what they give back. -/
inductive Ends (now : Int) : Step → Answer → Transfer → Ending → Prop
  | fulfill {t : Transfer} {f : Fulfillment} (h : Unlocks now t.receiver f t) :
    Ends now (.fulfill t.id t.receiver f) .done t (.executed (some f))
  | reject {t : Transfer} {reason : Reason} (h : t.expiresAt.any (· ≤ now) = false) :
    Ends now (.reject t.id t.receiver reason) .done t (.rejected reason)
  | expire {t : Transfer} : Ends now (.expire t.id) (.truth true) t .expired
  | fire {t : Transfer} : Ends now .fireAdopted .done t .expired

/-- What ends in another way than by expiring ends before its expiry. -/
theorem Ends.before_expiry {now : Int} {s : Step} {answer : Answer} {t : Transfer} {e : Ending}
    (h : Ends now s answer t e) (he : e.state ≠ .expired) :
    ∀ x, t.expiresAt = some x → now < x := by
  have hlt : t.expiresAt.any (· ≤ now) = false → ∀ x, t.expiresAt = some x → now < x := by
    intro h x hx
    rw [hx] at h
    simpa using h
  cases h with
  | fulfill hu => exact hlt hu.before_expiry
  | reject hx => exact hlt hx
  | expire => exact absurd rfl he
  | fire => exact absurd rfl he

/-- The steps that may leave everything but timers and the log as it was. -/
inductive Idles : Step → Answer → Prop
  | expire {id : Bytes} : Idles (.expire id) (.truth false)
  | adopt {t : Timer} : Idles (.adopt t) .done
  | pass : Idles .passAdopted .done
  | fire : Idles .fireAdopted .done

/-- The outcomes that move no money and no transfer from one state to another. -/
inductive Calm (l : Ledger) (now : Int) : Step → Except Error Answer → Ledger → Prop
  | refused (s : Step) (e : Error) : Calm l now s (.error e) l
  | linked {a : Address} (ha : l.accounts.contains a) :
    Calm l now (.addConnector a) (.ok .done) { l with connectors := a.insert l.connectors }
  | attached {a : Address} {who : Listener} (ha : l.accounts.contains a) :
    Calm l now (.attach a who) (.ok .done) { l with sessions := l.seats a who }
  | detached {who : Listener} : Calm l now (.detach who) (.ok .done) (l.detach who)
  | idle {s : Step} {answer : Answer} (adopted : Alarm) (log : List Log.Line)
      (hs : Idles s answer) : Calm l now s (.ok answer) { l with adopted, log }
  | told {m : Message} {takes : Listener → Bool} {b : Bool} (log : List Log.Line) :
    Calm l now (.deliver m takes) (.ok (.truth b))
      { l with notices := l.notices ++ [.message m], log }
  | pruned {cutoff : Int} {n : Nat} :
    Calm l now (.prune cutoff) (.ok (.count n)) { l with book := l.book.prune cutoff }

/-- What a step can do, with what it gives back and the ledger that it leaves. -/
inductive Effect (l : Ledger) (now : Int) : Step → Except Error Answer → Ledger → Prop
  | calm {s : Step} {answer : Except Error Answer} {l' : Ledger} (h : l.Calm now s answer l') :
    Effect l now s answer l'
  | opened {a : Address} {name : Bytes} {balance : Int} (hb : 0 ≤ balance)
      (ha : l.accounts.contains a = false) :
    Effect l now (.addAccount a name balance) (.ok .done)
      { l with accounts := l.accounts.insert a ⟨name, balance⟩ }
  | declined {t : Transfer} {balance : Int} (ht : l.Admits t)
      (hb : l.balance? t.sender = some balance) (hlt : balance < t.amount) :
    Effect l now (.prepare t) (.ok (.state .rejected)) (l.declined now t balance)
  | funded {t : Transfer} {balance : Int} (ht : l.Admits t)
      (hb : l.balance? t.sender = some balance) (hle : t.amount ≤ balance)
      (hc : t.condition.isSome) :
    Effect l now (.prepare t) (.ok (.state .prepared)) (l.funded now t)
  | executed {t : Transfer} {balance : Int} (ht : l.Admits t)
      (hb : l.balance? t.sender = some balance) (hle : t.amount ≤ balance)
      (hc : t.condition = none) :
    Effect l now (.prepare t) (.ok (.state .executed))
      ((l.funded now t).ended now t (.executed none))
  | ended {s : Step} {answer : Answer} {t : Transfer} {u : Int} {e : Ending} (adopted : Alarm)
      (log : List Log.Line) (hg : l.book.entries.get? t.id = some (.live t .prepared u))
      (hs : Ends now s answer t e) :
    Effect l now s (.ok answer) { l.ended now t e with adopted, log }

section
variable {l l' : Ledger} {now : Int} {s : Step} {answer : Except Error Answer}

theorem Calm.accounts_eq (h : l.Calm now s answer l') : l'.accounts = l.accounts := by
  cases h <;> rfl

theorem Calm.escrow_eq (h : l.Calm now s answer l') : l'.escrow = l.escrow := by
  cases h <;> rfl

theorem Calm.stateOf?_eq (h : l.Calm now s answer l') (id : Bytes) :
    l'.book.stateOf? id = l.book.stateOf? id := by
  cases h with
  | pruned => exact Book.stateOf?_prune ..
  | _ => rfl

theorem Calm.live (h : l.Calm now s answer l') {id : Bytes} {t : Transfer} {st : TransferState}
    {u : Int} (hg : l'.book.entries.get? id = some (.live t st u)) :
    l.book.entries.get? id = some (.live t st u) := by
  cases h with
  | pruned => exact Book.live_of_prune hg
  | _ => exact hg

end

/-- A call that fails leaves the ledger as it was. -/
theorem Effect.eq_of_error {l l' : Ledger} {now : Int} {s : Step} {e : Error}
    (h : l.Effect now s (.error e) l') : l' = l := by
  cases h with
  | calm h =>
    cases h
    rfl

/-- How the state of one id can change: a transfer is accepted under it, or its transfer ends. -/
theorem Effect.stateOf?_cases {l l' : Ledger} {now : Int} {s : Step} {answer : Except Error Answer}
    (h : l.Effect now s answer l') (id : Bytes) :
    l'.book.stateOf? id = l.book.stateOf? id ∨
    (∃ t, s = .prepare t ∧ t.id = id ∧ l.book.contains id = false ∧
      (l'.book.stateOf? id = some .prepared ∨ l'.book.stateOf? id = some .executed ∨
        l'.book.stateOf? id = some .rejected)) ∨
    ∃ t e a u, Ends now s a t e ∧ l.book.entries.get? id = some (.live t .prepared u) ∧
      l'.book.stateOf? id = some e.state := by
  have haccept : ∀ {t : Transfer} {st : TransferState}, l.Admits t →
      (∀ id, l'.book.entries.get? id =
        if id = t.id then some (.live t st now) else l.book.entries.get? id) →
      l'.book.stateOf? id = l.book.stateOf? id ∨
        t.id = id ∧ l.book.contains id = false ∧ l'.book.stateOf? id = some st := by
    intro t st ht hg
    have hst := Book.stateOf?_of_get? hg id
    by_cases hid : id = t.id
    · rw [if_pos hid] at hst
      exact .inr ⟨hid.symm, hid ▸ ht.fresh, hst⟩
    · exact .inl (hst.trans (if_neg hid))
  cases h with
  | calm h => exact .inl (h.stateOf?_eq id)
  | opened => exact .inl rfl
  | declined ht =>
    exact (haccept ht (get?_declined l now _ _)).imp_right fun ⟨hid, hn, hst⟩ =>
      .inl ⟨_, rfl, hid, hn, .inr (.inr hst)⟩
  | funded ht =>
    exact (haccept ht (get?_funded l now _)).imp_right fun ⟨hid, hn, hst⟩ =>
      .inl ⟨_, rfl, hid, hn, .inl hst⟩
  | executed ht =>
    exact (haccept ht (get?_funded_ended l now _ _)).imp_right fun ⟨hid, hn, hst⟩ =>
      .inl ⟨_, rfl, hid, hn, .inr (.inl hst)⟩
  | @ended s answer t u e adopted log hg hs =>
    have hst : { l.ended now t e with adopted, log }.book.stateOf? id =
        if id = t.id then some e.state else l.book.stateOf? id := Book.stateOf?_put
    by_cases hid : id = t.id
    · subst hid
      exact .inr (.inr ⟨t, e, answer, u, hs, hg, hst.trans (if_pos rfl)⟩)
    · exact .inl (hst.trans (if_neg hid))

/-- The list of outcomes is complete. -/
theorem perform_effect {l : Ledger} (hl : l.Sound) (now : Int) (s : Step) :
    l.Effect now s (s.perform now l).1 (s.perform now l).2 := by
  cases s with
  | addAccount a name balance =>
    simp only [Step.perform, addAccount]
    split
    · exact .calm (.refused ..)
    split
    · exact .calm (.refused ..)
    split
    · exact .calm (.refused ..)
    next hb hc => exact .opened (by omega) (by simpa using hc)
  | addConnector a =>
    simp only [Step.perform, addConnector]
    split
    next hc => exact .calm (.linked hc)
    · exact .calm (.refused ..)
  | attach a who =>
    simp only [Step.perform, attach_eq]
    split
    next hc => exact .calm (.attached hc)
    · exact .calm (.refused ..)
  | detach who => exact .calm .detached
  | prepare t =>
    simp only [Step.perform]
    rcases prepare_cases l now t with ⟨e, h⟩ | ⟨balance, ht, hb, h⟩
    · rw [h]
      exact .calm (.refused ..)
    · rw [h]
      split
      next hlt => exact .declined ht hb hlt
      next hle =>
      split
      next hc => exact .funded ht hb (by omega) hc
      next hc => exact .executed ht hb (by omega) (by simpa using hc)
  | fulfill id caller f =>
    simp only [Step.perform]
    rcases fulfill_cases hl now id caller f with ⟨e, h⟩ | ⟨t, u, hg, hu, h⟩
    · rw [h]
      exact .calm (.refused ..)
    · obtain rfl := (hl.live hg).1
      obtain rfl := hu.receiver
      rw [h]
      exact .ended _ _ hg (.fulfill hu)
  | reject id caller reason =>
    simp only [Step.perform]
    rcases reject_cases hl now id caller reason with ⟨e, h⟩ | ⟨t, u, hg, rfl, hx, h⟩
    · rw [h]
      exact .calm (.refused ..)
    · obtain rfl := (hl.live hg).1
      rw [h]
      exact .ended _ _ hg (.reject hx)
  | expire id =>
    simp only [Step.perform]
    rcases expire_cases hl now id with ⟨-, h⟩ | ⟨t, u, hg, h⟩
    · rw [h]
      exact .calm (.idle _ _ .expire)
    · obtain rfl := (hl.live hg).1
      rw [h]
      exact .ended _ _ hg .expire
  | adopt t =>
    simp only [Step.perform, adopt]
    split
    · exact .calm (.idle _ _ .adopt)
    · exact .calm (.idle _ _ .adopt)
  | passAdopted => exact .calm (.idle _ _ .pass)
  | fireAdopted =>
    simp only [Step.perform, fireAdopted]
    split
    · exact .calm (.idle _ _ .fire)
    next t adopted _ =>
    have hl' : { l with adopted }.Sound := ⟨hl.nodup_keys, hl.holds, hl.nodup_listeners⟩
    rcases expire_cases hl' now t.id with ⟨-, h⟩ | ⟨t', u, hg, h⟩
    · rw [h]
      exact .calm (.idle _ _ .fire)
    · have hid := (hl.live hg).1
      rw [h]
      exact .ended _ _ (hid ▸ hg) .fire
  | deliver m takes =>
    simp only [Step.perform, deliver]
    split
    · exact .calm (.told _)
    · exact .calm (.told _)
  | prune cutoff => exact .calm .pruned

/-! ### Every step leaves a sound ledger -/

/-- Writing one record keeps a ledger sound, when the record is in order. -/
theorem Sound.write {l l' : Ledger} (hl : l.Sound) {t : Transfer} {s : TransferState} {u : Int}
    (hn : l'.book.entries.keys.Nodup)
    (hg : ∀ id, l'.book.entries.get? id =
      if id = t.id then some (.live t s u) else l.book.entries.get? id)
    (hs : l.accounts.contains t.sender) (hr : l.accounts.contains t.receiver)
    (hst : s = .prepared ∧ t.condition.isSome ∨ s.isTerminal)
    (ha : ∀ a, l'.accounts.contains a = l.accounts.contains a)
    (hses : l'.sessions = l.sessions) : l'.Sound where
  nodup_keys := hn
  holds id e he := by
    rw [hg] at he
    split at he
    next hid =>
      cases he
      exact ⟨hid.symm, (ha _).trans hs, (ha _).trans hr, hst⟩
    · exact (hl.holds id e he).mono fun a h => (ha a).trans h
  nodup_listeners := hses ▸ hl.nodup_listeners

theorem Sound.prune {l : Ledger} (hl : l.Sound) (cutoff : Int) :
    { l with book := l.book.prune cutoff }.Sound where
  nodup_keys := by simpa using hl.nodup_keys
  holds id e he := by
    cases e with
    | live t s u => exact hl.live (Book.live_of_prune he)
    | settled s =>
      rcases Book.settled_of_prune he with h | ⟨t, u, -, h⟩
      · exact hl.holds id _ h
      · exact h
  nodup_listeners := hl.nodup_listeners

theorem map_listener_seats (l : Ledger) (a : Address) (who : Listener) :
    (l.seats a who).map (·.listener) =
      if who ∈ l.sessions.map (·.listener) then l.sessions.map (·.listener)
      else l.sessions.map (·.listener) ++ [who] := by
  have hany : (l.sessions.any (·.listener = who) = true) ↔ who ∈ l.sessions.map (·.listener) := by
    simp [List.any_eq_true]
  unfold seats
  by_cases h : who ∈ l.sessions.map (·.listener)
  · rw [if_pos (hany.2 h), if_pos h, List.map_map]
    apply List.map_congr_left
    intro s _
    simp only [Function.comp]
    split <;> rfl
  · rw [if_neg (mt hany.1 h), if_neg h, List.map_append]
    rfl

theorem nodup_listeners_seats {l : Ledger} (h : (l.sessions.map (·.listener)).Nodup) (a : Address)
    (who : Listener) : ((l.seats a who).map (·.listener)).Nodup := by
  rw [map_listener_seats]
  split
  · exact h
  next hw =>
    refine List.nodup_append.2 ⟨h, by simp, ?_⟩
    rintro x hx y hy rfl
    exact hw (List.mem_singleton.1 hy ▸ hx)

theorem Calm.sound {l l' : Ledger} {now : Int} {s : Step} {answer : Except Error Answer}
    (h : l.Calm now s answer l') (hl : l.Sound) : l'.Sound := by
  cases h with
  | refused => exact hl
  | linked ha => exact ⟨hl.nodup_keys, hl.holds, hl.nodup_listeners⟩
  | attached ha => exact ⟨hl.nodup_keys, hl.holds, nodup_listeners_seats hl.nodup_listeners _ _⟩
  | detached =>
    exact ⟨hl.nodup_keys, hl.holds, hl.nodup_listeners.sublist (List.filter_sublist.map _)⟩
  | idle => exact ⟨hl.nodup_keys, hl.holds, hl.nodup_listeners⟩
  | told => exact ⟨hl.nodup_keys, hl.holds, hl.nodup_listeners⟩
  | pruned => exact hl.prune _

theorem Effect.sound {l l' : Ledger} {now : Int} {s : Step} {answer : Except Error Answer}
    (h : l.Effect now s answer l') (hl : l.Sound) : l'.Sound := by
  -- Every outcome that touches the book leaves one record of the transfer, in its last state.
  cases h with
  | calm h => exact h.sound hl
  | opened hb ha =>
    refine ⟨hl.nodup_keys, fun id e he => ?_, hl.nodup_listeners⟩
    apply (hl.holds id e he).mono
    intro a h
    simp [h]
  | @declined t balance ht hb hlt =>
    have hkeys : (l.declined now t balance).book.entries.keys.Nodup :=
      Book.nodup_keys_put (Book.nodup_keys_put hl.nodup_keys)
    exact hl.write hkeys (get?_declined l now t balance) ht.sender ht.receiver (.inr rfl)
      (fun _ => rfl) rfl
  | @funded t balance ht hb hle hc =>
    have hkeys : (l.funded now t).book.entries.keys.Nodup :=
      Book.nodup_keys_put (Book.nodup_keys_put hl.nodup_keys)
    exact hl.write hkeys (get?_funded l now t) ht.sender ht.receiver (.inl ⟨rfl, hc⟩)
      (contains_funded l now t) rfl
  | @executed t balance ht hb hle hc =>
    have hkeys : ((l.funded now t).ended now t (.executed none)).book.entries.keys.Nodup :=
      Book.nodup_keys_put (Book.nodup_keys_put (Book.nodup_keys_put hl.nodup_keys))
    exact hl.write hkeys (get?_funded_ended l now t (.executed none)) ht.sender ht.receiver
      (.inr rfl) (by simp) rfl
  | @ended s answer t u e adopted log hg hs =>
    obtain ⟨-, hsender, hreceiver, -⟩ := hl.live hg
    have hkeys : (l.ended now t e).book.entries.keys.Nodup := Book.nodup_keys_put hl.nodup_keys
    exact hl.write (t := t) (s := e.state) (u := now) hkeys
      (fun id => Book.get?_put) hsender hreceiver (.inr e.isTerminal_state)
      (contains_ended l now t e) rfl

theorem sound_perform {l : Ledger} (hl : l.Sound) (now : Int) (s : Step) :
    (s.perform now l).2.Sound :=
  (perform_effect hl now s).sound hl

end Interledger.Ledger
