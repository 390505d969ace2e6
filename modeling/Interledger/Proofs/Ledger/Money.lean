import Interledger.Proofs.Ledger.Runs
import Mathlib

/-! Where the money is. After any run the balances and the escrow are a function of the
opening balances, the accepted transfers and the states that the book tells of them: a
prepared or executed transfer is debited from its sender, an executed one is credited to
its receiver, and a prepared one is in escrow. Nothing is ever negative. -/

namespace Interledger

/-! ### Sums over transfers and their states -/

/-- The amounts, added up, of those transfers that pass a test on their state and
themselves. -/
def Book.total (b : Book) (p : TransferState → Transfer → Bool) (ts : List Transfer) : Int :=
  ((ts.filter fun t => (b.stateOf? t.id).any (p · t)).map (·.amount)).sum

namespace Book

variable {b b' : Book} {p : TransferState → Transfer → Bool} {ts : List Transfer} {t : Transfer}
  {s : TransferState}

theorem total_cons : b.total p (t :: ts) =
    (if (b.stateOf? t.id).any (p · t) then t.amount else 0) + b.total p ts := by
  rw [total, List.filter_cons]
  split
  · simp [total]
  · simp [total]

theorem total_append (us : List Transfer) : b.total p (ts ++ us) = b.total p ts + b.total p us := by
  simp [total, List.filter_append]

theorem total_congr (h : ∀ u ∈ ts, b'.stateOf? u.id = b.stateOf? u.id) :
    b'.total p ts = b.total p ts := by
  rw [total, total, List.filter_congr fun u hu => by rw [h u hu]]

theorem total_nonneg : 0 ≤ b.total p ts := by
  induction ts with
  | nil => exact Int.le_refl 0
  | cons t ts ih =>
    have := t.amount_nonneg
    rw [total_cons]
    split <;> omega

theorem total_eq_zero (h : ∀ u ∈ ts, ∀ s, p s u = false) : b.total p ts = 0 := by
  induction ts with
  | nil => rfl
  | cons t ts ih =>
    have hp : (b.stateOf? t.id).any (p · t) = false := by
      cases b.stateOf? t.id with
      | none => rfl
      | some s => exact h t (by simp) s
    rw [total_cons, hp, ih fun u hu => h u (by simp [hu])]
    rfl

/-- A new transfer counts with its state. -/
theorem total_new (h : ∀ id, b'.stateOf? id = if id = t.id then some s else b.stateOf? id)
    (hn : ∀ u ∈ ts, u.id ≠ t.id) :
    b'.total p (ts ++ [t]) = b.total p ts + if p s t then t.amount else 0 := by
  have hts : b'.total p ts = b.total p ts :=
    total_congr fun u hu => by rw [h, if_neg (hn u hu)]
  have ht : b'.stateOf? t.id = some s := by simp [h]
  rw [total_append, hts, total_cons, ht]
  simp [total]

/-- A change of state moves one transfer out of a sum, into it, or neither. -/
theorem total_change {s₀ : TransferState}
    (h : ∀ id, b'.stateOf? id = if id = t.id then some s else b.stateOf? id)
    (h₀ : b.stateOf? t.id = some s₀) (hn : (ts.map (·.id)).Nodup) (ht : t ∈ ts) :
    b'.total p ts = b.total p ts - (if p s₀ t then t.amount else 0) + if p s t then t.amount else 0 := by
  induction ts with
  | nil => cases ht
  | cons u ts ih =>
    obtain ⟨hu, hn⟩ := List.nodup_cons.1 hn
    have hu : ∀ v ∈ ts, v.id ≠ u.id := fun v hv hid => hu (List.mem_map.2 ⟨v, hv, hid⟩)
    rw [total_cons, total_cons]
    rcases List.mem_cons.1 ht with rfl | ht
    · have hts : b'.total p ts = b.total p ts :=
        total_congr fun v hv => by rw [h, if_neg (hu v hv)]
      have hs : b'.stateOf? t.id = some s := by simp [h]
      rw [hts, hs, h₀, Option.any_some, Option.any_some]
      omega
    · rw [ih hn ht, h, if_neg (hu t ht).symm]
      omega

/-! ### The transfers in escrow -/

theorem prepared?_eq_some_iff {e : BookEntry} :
    e.prepared? = some t ↔ ∃ u, e = .live t .prepared u := by
  constructor
  · intro h
    unfold BookEntry.prepared? at h
    split at h
    next t' u =>
      cases h
      exact ⟨u, rfl⟩
    · cases h
  · rintro ⟨u, rfl⟩
    rfl

theorem mem_prepared_iff (hn : b.entries.keys.Nodup)
    (hid : ∀ id t s u, b.entries.get? id = some (.live t s u) → t.id = id) :
    t ∈ b.prepared ↔ ∃ u, b.entries.get? t.id = some (.live t .prepared u) := by
  rw [prepared, List.mem_filterMap]
  constructor
  · rintro ⟨⟨id, e⟩, hm, he⟩
    obtain ⟨u, rfl⟩ := prepared?_eq_some_iff.1 he
    have hg := (Table.get?_eq_some_iff hn).2 hm
    exact ⟨u, (hid _ _ _ _ hg).symm ▸ hg⟩
  · rintro ⟨u, hg⟩
    exact ⟨_, (Table.get?_eq_some_iff hn).1 hg, rfl⟩

theorem ids_prepared_sublist {es : List (Bytes × BookEntry)}
    (h : ∀ e ∈ es, ∀ t, e.2.prepared? = some t → t.id = e.1) :
    ((es.filterMap (·.2.prepared?)).map (·.id)).Sublist (es.map (·.1)) := by
  induction es with
  | nil => exact .slnil
  | cons e es ih =>
    have ih := ih fun e he => h e (by simp [he])
    cases he : e.2.prepared? with
    | none =>
      simp only [List.filterMap_cons, he, List.map_cons]
      exact ih.cons _
    | some t =>
      simp only [List.filterMap_cons, he, List.map_cons, h e (by simp) t he]
      exact ih.cons_cons _

theorem nodup_ids_prepared (hn : b.entries.keys.Nodup)
    (hid : ∀ id t s u, b.entries.get? id = some (.live t s u) → t.id = id) :
    (b.prepared.map (·.id)).Nodup := by
  refine hn.sublist (ids_prepared_sublist fun e he t ht => ?_)
  obtain ⟨u, hu⟩ := prepared?_eq_some_iff.1 ht
  exact hid e.1 t .prepared u (hu ▸ (Table.get?_eq_some_iff hn).2 he)

end Book

namespace Ledger.Chronicle

/-- Whether a transfer in a state counts as debited from an account. -/
def debits (a : Address) (s : TransferState) (t : Transfer) : Bool :=
  t.sender = a ∧ (s = .prepared ∨ s = .executed)

/-- Whether a transfer in a state counts as credited to an account. -/
def credits (a : Address) (s : TransferState) (t : Transfer) : Bool :=
  t.receiver = a ∧ s = .executed

/-- Whether the amount of a transfer in a state is in escrow. -/
def escrows (s : TransferState) (_ : Transfer) : Bool := s = .prepared

structure Balanced (c : Chronicle) : Prop where
  balance : ∀ a, c.ledger.balance? a = (c.opened.get? a).map fun b =>
    b - c.ledger.book.total (debits a) c.accepted + c.ledger.book.total (credits a) c.accepted
  escrow : c.ledger.escrow = c.ledger.book.total escrows c.accepted
  nonneg : ∀ a b, c.ledger.balance? a = some b → 0 ≤ b

section
variable {c c' : Chronicle} {t : Transfer}

theorem Balanced.keep (hc : c.Balanced) (ha : c'.accepted = c.accepted) (ho : c'.opened = c.opened)
    (hacc : c'.ledger.accounts = c.ledger.accounts) (he : c'.ledger.escrow = c.ledger.escrow)
    (hs : ∀ id, c'.ledger.book.stateOf? id = c.ledger.book.stateOf? id) : c'.Balanced := by
  have htotal : ∀ p, c'.ledger.book.total p c'.accepted = c.ledger.book.total p c.accepted := by
    intro p
    rw [ha]
    exact Book.total_congr fun u _ => hs u.id
  have hbalance : ∀ a, c'.ledger.balance? a = c.ledger.balance? a := by
    intro a
    rw [balance?, balance?, hacc]
  constructor
  · intro a
    rw [hbalance, htotal, htotal, ho]
    exact hc.balance a
  · rw [he, htotal]
    exact hc.escrow
  · intro a b h
    exact hc.nonneg a b (hbalance a ▸ h)

/-- A transfer is accepted into a state that leaves the accounts and the escrow as the new
transfer in that state asks. -/
theorem Balanced.accept (hc : c.Balanced) (hf : c.Filed) (ht : c.ledger.Admits t)
    {s : TransferState} (ha : c'.accepted = c.accepted ++ [t]) (ho : c'.opened = c.opened)
    (hs : ∀ id, c'.ledger.book.stateOf? id =
      if id = t.id then some s else c.ledger.book.stateOf? id)
    (hb : ∀ a, c'.ledger.balance? a = (c.ledger.balance? a).map fun b =>
      b - (if debits a s t then t.amount else 0) + if credits a s t then t.amount else 0)
    (he : c'.ledger.escrow = c.ledger.escrow + if escrows s t then t.amount else 0)
    (hn : ∀ a b, c'.ledger.balance? a = some b → 0 ≤ b) : c'.Balanced := by
  have hfresh := hf.ne_of_fresh ht.fresh
  constructor
  · intro a
    rw [hb, hc.balance, ho, ha, Option.map_map, Book.total_new hs hfresh, Book.total_new hs hfresh]
    congr 1
    funext b
    simp only [Function.comp]
    omega
  · rw [he, hc.escrow, ha, Book.total_new hs hfresh]
  · exact hn

/-- A prepared transfer changes its state, and the accounts and the escrow follow. -/
theorem Balanced.change (hc : c.Balanced) (hf : c.Filed) (ht : t ∈ c.accepted)
    (hp : c.ledger.book.stateOf? t.id = some .prepared) {s : TransferState}
    (ha : c'.accepted = c.accepted) (ho : c'.opened = c.opened)
    (hs : ∀ id, c'.ledger.book.stateOf? id =
      if id = t.id then some s else c.ledger.book.stateOf? id)
    (hb : ∀ a, c'.ledger.balance? a = (c.ledger.balance? a).map fun b =>
      b + (if debits a .prepared t then t.amount else 0) - (if debits a s t then t.amount else 0)
        + if credits a s t then t.amount else 0)
    (he : c'.ledger.escrow = c.ledger.escrow - t.amount + if escrows s t then t.amount else 0)
    (hn : ∀ a b, c'.ledger.balance? a = some b → 0 ≤ b) : c'.Balanced := by
  have htotal := fun p => Book.total_change (p := p) hs hp hf.nodup_ids ht
  have hcredit : ∀ a, credits a .prepared t = false := fun a => by simp [credits]
  constructor
  · intro a
    rw [hb, hc.balance, ho, ha, Option.map_map, htotal, htotal, hcredit]
    congr 1
    funext b
    simp only [Function.comp, Bool.false_eq_true, if_false]
    omega
  · rw [he, hc.escrow, ha, htotal]
    rfl
  · exact hn

/-- A new account starts with its opening balance, since no accepted transfer names it. -/
theorem Balanced.opened (hc : c.Balanced) (hf : c.Filed) {a : Address} {name : Bytes} {balance : Int}
    (hb : 0 ≤ balance) (ha : c.ledger.accounts.contains a = false) :
    (c.record (.addAccount a name balance) (.ok .done)
      { c.ledger with accounts := c.ledger.accounts.insert a ⟨name, balance⟩ }).Balanced := by
  have hbalance : ∀ x, ({ c.ledger with
      accounts := c.ledger.accounts.insert a ⟨name, balance⟩ } : Ledger).balance? x =
      if x = a then some balance else c.ledger.balance? x := by
    intro x
    simp only [balance?, Table.get?_insert]
    split <;> rfl
  have hnone : ∀ u ∈ c.accepted, u.sender ≠ a ∧ u.receiver ≠ a := by
    intro u hu
    obtain ⟨hs, hr⟩ := hf.parties u hu
    constructor
    · rintro rfl
      exact Bool.false_ne_true (ha.symm.trans hs)
    · rintro rfl
      exact Bool.false_ne_true (ha.symm.trans hr)
  have hdebits : c.ledger.book.total (debits a) c.accepted = 0 :=
    Book.total_eq_zero fun u hu s => by simp [debits, (hnone u hu).1]
  have hcredits : c.ledger.book.total (credits a) c.accepted = 0 :=
    Book.total_eq_zero fun u hu s => by simp [credits, (hnone u hu).2]
  constructor
  · intro x
    refine (hbalance x).trans ?_
    simp only [record, opening, acceptance, List.append_nil, Table.get?_insert]
    split
    next hx =>
      subst hx
      show _ = some (balance - c.ledger.book.total _ _ + c.ledger.book.total _ _)
      rw [hdebits, hcredits]
      simp
    · exact hc.balance x
  · simp only [record, acceptance, List.append_nil]
    exact hc.escrow
  · intro x b h
    have h := (hbalance x).symm.trans h
    split at h
    · cases h
      exact hb
    · exact hc.nonneg x b h

theorem Balanced.ended (hc : c.Balanced) (hf : c.Filed) {now u : Int} {s : Step} {answer : Answer}
    {e : Ending} {adopted : Alarm} {log : List Log.Line}
    (hg : c.ledger.book.entries.get? t.id = some (.live t .prepared u))
    (hs : Ends now s answer t e) :
    (c.record s (.ok answer) { c.ledger.ended now t e with adopted, log }).Balanced := by
  have hp : c.ledger.book.stateOf? t.id = some .prepared := by
    simp [Book.stateOf?, hg, BookEntry.state]
  refine hc.change hf (hf.live _ _ _ _ hg) hp (s := e.state) ?_ ?_ (fun id => Book.stateOf?_put) ?_
    ?_ ?_
  · simp [record, (ends_entries hs c.opened).2]
  · simp [record, (ends_entries hs c.opened).1]
  · intro a
    refine (balance?_ended c.ledger now t e a).trans ?_
    cases c.ledger.balance? a with
    | none => simp
    | some b =>
      cases e <;> simp only [debits, credits, Ending.state, Ending.payee] <;> grind
  · cases e <;> simp [record, Ledger.quiet, escrows, Ending.state]
  · intro a b h
    have h := (balance?_ended c.ledger now t e a).symm.trans h
    have := t.amount_nonneg
    split at h
    · obtain ⟨b', hb', rfl⟩ := Option.map_eq_some_iff.1 h
      have := hc.nonneg a b' hb'
      omega
    · exact hc.nonneg a b h

theorem Balanced.declined (hc : c.Balanced) (hf : c.Filed) {now balance : Int}
    (ht : c.ledger.Admits t) : (c.record (.prepare t) (.ok (.state .rejected))
      (c.ledger.declined now t balance)).Balanced := by
  refine hc.accept hf ht (s := .rejected) rfl rfl
    (Book.stateOf?_of_get? (get?_declined c.ledger now t balance)) ?_ ?_ hc.nonneg
  · intro a
    show c.ledger.balance? a = _
    simp [debits, credits]
  · show c.ledger.escrow = _
    simp [escrows]

theorem balance_funded_nonneg (hc : c.Balanced) {now balance : Int}
    (hb : c.ledger.balance? t.sender = some balance) (hle : t.amount ≤ balance) (a : Address)
    (b : Int) (h : (c.ledger.funded now t).balance? a = some b) : 0 ≤ b := by
  rw [balance?_funded] at h
  split at h
  next ha =>
    subst ha
    rw [hb] at h
    cases h
    simp only
    omega
  · exact hc.nonneg a b h

theorem Balanced.funded (hc : c.Balanced) (hf : c.Filed) {now balance : Int}
    (ht : c.ledger.Admits t) (hb : c.ledger.balance? t.sender = some balance)
    (hle : t.amount ≤ balance) : (c.record (.prepare t) (.ok (.state .prepared))
      (c.ledger.funded now t)).Balanced := by
  refine hc.accept hf ht (s := .prepared) rfl rfl
    (Book.stateOf?_of_get? (get?_funded c.ledger now t)) ?_ ?_ (balance_funded_nonneg hc hb hle)
  · intro a
    refine (balance?_funded c.ledger now t a).trans ?_
    cases c.ledger.balance? a with
    | none => simp
    | some b =>
      simp only [debits, credits]
      grind
  · show c.ledger.escrow + t.amount = _
    simp [escrows]

theorem Balanced.executed (hc : c.Balanced) (hf : c.Filed) {now balance : Int}
    (ht : c.ledger.Admits t) (hb : c.ledger.balance? t.sender = some balance)
    (hle : t.amount ≤ balance) : (c.record (.prepare t) (.ok (.state .executed))
      ((c.ledger.funded now t).ended now t (.executed none))).Balanced := by
  have hbalance := fun a => (balance?_ended (c.ledger.funded now t) now t (.executed none) a).trans
    (by rw [balance?_funded])
  refine hc.accept hf ht (s := .executed) rfl rfl
    (Book.stateOf?_of_get? (get?_funded_ended c.ledger now t (.executed none))) ?_ ?_ ?_
  · intro a
    refine (hbalance a).trans ?_
    have hne := t.sender_ne_receiver
    cases c.ledger.balance? a with
    | none => simp
    | some b =>
      simp only [debits, credits, Ending.payee]
      grind
  · show c.ledger.escrow + t.amount - t.amount = _
    simp [escrows]
  · intro a b h
    have h := (balance?_ended (c.ledger.funded now t) now t (.executed none) a).symm.trans h
    have := t.amount_nonneg
    split at h
    · obtain ⟨b', hb', rfl⟩ := Option.map_eq_some_iff.1 h
      have := balance_funded_nonneg hc hb hle a b' hb'
      omega
    · exact balance_funded_nonneg hc hb hle a b h

theorem Balanced.record (hc : c.Balanced) (hf : c.Filed) {now : Int} {s : Step}
    {answer : Except Error Answer} {l' : Ledger} (h : c.ledger.Effect now s answer l') :
    (c.record s answer l').Balanced := by
  cases h with
  | calm h =>
    refine hc.keep ?_ ?_ h.accounts_eq h.escrow_eq h.stateOf?_eq
    · simp [Chronicle.record, (calm_entries h c.opened).2]
    · simp [Chronicle.record, (calm_entries h c.opened).1]
  | opened hb ha => exact hc.opened hf hb ha
  | declined ht hb hlt => exact hc.declined hf ht
  | funded ht hb hle hcond => exact hc.funded hf ht hb hle
  | executed ht hb hle hcond => exact hc.executed hf ht hb hle
  | ended adopted log hg hs => exact hc.ended hf hg hs

end

theorem balanced_start {info : LedgerInfo} {l : Ledger} (h : make info = .ok l) :
    (start l).Balanced := by
  rw [make_eq_ok h]
  exact ⟨fun _ => rfl, rfl, fun _ _ h => nomatch h⟩

theorem balanced_run {info : LedgerInfo} {l : Ledger} (h : make info = .ok l)
    (steps : List (Int × Step)) : (run l steps).Balanced :=
  (run_induction (P := fun c => c.Filed ∧ c.Balanced) (sound_of_make h)
    ⟨filed_start h, balanced_start h⟩
    (fun _ _ _ _ _ _ hc he => ⟨hc.1.record he, hc.2.record hc.1 he⟩) steps).2.2

/-- What the book holds as prepared is what was accepted and is prepared. -/
theorem prepared_perm {c : Chronicle} (hl : c.ledger.Sound) (hc : c.Filed) :
    c.ledger.book.prepared.Perm
      (c.accepted.filter fun t => (c.ledger.book.stateOf? t.id).any (escrows · t)) := by
  have hid : ∀ id t s u, c.ledger.book.entries.get? id = some (.live t s u) → t.id = id :=
    fun id t s u hg => (hl.live hg).1
  have hmem : ∀ t, t ∈ c.ledger.book.prepared ↔
      t ∈ c.accepted.filter fun t => (c.ledger.book.stateOf? t.id).any (escrows · t) := by
    intro t
    rw [Book.mem_prepared_iff hl.nodup_keys hid, List.mem_filter]
    constructor
    · rintro ⟨u, hg⟩
      exact ⟨hc.live _ _ _ _ hg, by simp [Book.stateOf?, hg, BookEntry.state, escrows]⟩
    · rintro ⟨ht, hs⟩
      obtain ⟨e, he⟩ := Book.contains_iff_get?.1 (hc.known t ht)
      cases e with
      | live t' s u =>
        simp only [Book.stateOf?, he, Option.map_some, BookEntry.state, Option.any_some, escrows,
          decide_eq_true_eq] at hs
        subst hs
        obtain rfl := hc.eq_of_live ht (hid _ _ _ _ he) he
        exact ⟨u, he⟩
      | settled s =>
        simp only [Book.stateOf?, he, Option.map_some, BookEntry.state, Option.any_some, escrows,
          decide_eq_true_eq] at hs
        have := hl.holds _ _ he
        rw [hs] at this
        cases this
  exact (List.perm_ext_iff_of_nodup (Book.nodup_ids_prepared hl.nodup_keys hid).of_map
    (hc.nodup_ids.of_map.filter _)).2 hmem

theorem sum_prepared {c : Chronicle} (hl : c.ledger.Sound) (hc : c.Filed) :
    (c.ledger.book.prepared.map (·.amount)).sum = c.ledger.book.total escrows c.accepted :=
  ((prepared_perm hl hc).map _).sum_eq

/-- After every run, each balance is the opening balance less what was accepted from the
account and is prepared or executed, plus what was accepted for it and is executed; the
escrow is what was accepted and is prepared; and no account and no escrow is negative. -/
theorem balances_and_escrow {info : LedgerInfo} {l : Ledger} (hl : make info = .ok l)
    (steps : List (Int × Step)) :
    let c := run l steps
    let book := c.ledger.book
    (∀ a, c.ledger.balance? a = (c.opened.get? a).map fun b =>
      b - book.total (fun s t => t.sender = a ∧ (s = .prepared ∨ s = .executed)) c.accepted
        + book.total (fun s t => t.receiver = a ∧ s = .executed) c.accepted) ∧
    c.ledger.escrow = book.total (fun s _ => s = .prepared) c.accepted ∧
    c.ledger.escrow = (book.prepared.map (·.amount)).sum ∧
    (∀ a b, c.ledger.balance? a = some b → 0 ≤ b) ∧ 0 ≤ c.ledger.escrow := by
  intro c book
  have hc := balanced_run hl steps
  have hescrow : c.ledger.escrow = book.total escrows c.accepted := hc.escrow
  refine ⟨hc.balance, hescrow, ?_, hc.nonneg, ?_⟩
  · rw [hescrow]
    exact (sum_prepared (sound_run (sound_of_make hl) steps) (filed_run hl steps)).symm
  · rw [hescrow]
    exact Book.total_nonneg

/-- A payment that is executed and pruned, one that stays in escrow, one without a
condition, and one that cannot be funded. -/
def samplePayments : List (Int × Step) := Sample.setUp ++ [
  (1, .prepare (Sample.locked 'p')), (2, .fulfill "p" Sample.bob Sample.preimage), (3, .prune 10),
  (4, .prepare (Sample.locked 'q')), (5, .prepare (Sample.payment 'r' none)),
  (6, .prepare (Sample.locked 's'))]

theorem balances_and_escrow_payments :
    make Sample.ledger.info = .ok Sample.ledger ∧
    let l := (run Sample.ledger samplePayments).ledger
    l.balance? Sample.alice = some 10 ∧ l.balance? Sample.bob = some 60 ∧ l.escrow = 30 := by
  have hl : make Sample.ledger.info = .ok Sample.ledger := rfl
  obtain ⟨hb, he, -⟩ := balances_and_escrow hl samplePayments
  exact ⟨hl, (hb _).trans (by decide +kernel), (hb _).trans (by decide +kernel),
    he.trans (by decide +kernel)⟩

end Ledger.Chronicle

end Interledger
