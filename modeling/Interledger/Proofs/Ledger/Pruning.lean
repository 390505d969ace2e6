import Interledger.Proofs.Ledger.Runs
import Mathlib.Data.List.Forall2

/-! What pruning cannot be noticed by. A ledger that is pruned now and then differs from the
same ledger left alone in nothing but the book, and there only in settled transfers that have
faded to their last states. Every call gives the same answer in both, or fails in both with an
error of the same kind; only a stranger to a pruned transfer is told that there is nothing to
be had, where before it was told that the transfer is not its own. -/

namespace Interledger

/-! ### Tables with related values -/

namespace Table

variable {κ α : Type} [DecidableEq κ]

/-- The same keys in the same order, with related values. -/
def Rel (R : α → α → Prop) (t u : Table κ α) : Prop :=
  List.Forall₂ (fun e e' => e.1 = e'.1 ∧ R e.2 e'.2) t.entries u.entries

namespace Rel

variable {R : α → α → Prop} {t u : Table κ α}

theorem get? (h : t.Rel R u) (k : κ) : Option.Rel R (t.get? k) (u.get? k) := by
  obtain ⟨es⟩ := t
  obtain ⟨fs⟩ := u
  simp only [Rel, Table.get?] at h ⊢
  induction h with
  | nil => exact .none
  | @cons e f es fs he _ ih =>
    obtain ⟨hk, hR⟩ := he
    rw [List.find?_cons, List.find?_cons, ← hk]
    by_cases h : e.1 = k
    · simpa [h] using Option.Rel.some hR
    · simpa [h] using ih

theorem contains_eq (h : t.Rel R u) (k : κ) : u.contains k = t.contains k := by
  have hk := h.get? k
  unfold contains
  generalize t.get? k = a at hk ⊢
  generalize u.get? k = b at hk ⊢
  cases hk <;> rfl

theorem insert (h : t.Rel R u) (k : κ) {a b : α} (hab : R a b) :
    (t.insert k a).Rel R (u.insert k b) := by
  unfold Table.insert
  rw [h.contains_eq k]
  split
  · rw [Rel, modify, modify, List.forall₂_map_left_iff, List.forall₂_map_right_iff]
    apply h.imp
    rintro ⟨j, x⟩ ⟨j', y⟩ ⟨hj, hxy⟩
    obtain rfl : j = j' := hj
    by_cases hk : j = k
    · simpa [hk] using hab
    · simpa [hk] using hxy
  · exact List.rel_append h (.cons ⟨rfl, hab⟩ .nil)

end Rel

end Table

/-! ### Books that have faded -/

/-- A record, or what pruning may leave of it. -/
inductive BookEntry.Fades : BookEntry → BookEntry → Prop
  | kept (e : BookEntry) : Fades e e
  | faded {t : Transfer} {s : TransferState} {u : Int} (hs : s.isTerminal) :
    Fades (.live t s u) (.settled s)

/-- The second book is the first one after some pruning. -/
def Book.Fades (b b' : Book) : Prop := b.entries.Rel BookEntry.Fades b'.entries

namespace Book.Fades

variable {b b' : Book}

theorem refl (b : Book) : b.Fades b := List.forall₂_same.2 fun e _ => ⟨rfl, .kept e.2⟩

theorem prune (h : b.Fades b') (cutoff : Int) : b.Fades (b'.prune cutoff) := by
  rw [Fades, entries_prune, Table.Rel, List.forall₂_map_right_iff]
  apply List.Forall₂.imp _ h
  rintro ⟨id, e⟩ ⟨id', e'⟩ ⟨hid, he⟩
  refine ⟨hid, ?_⟩
  show e.Fades (e'.pruned cutoff)
  unfold BookEntry.pruned
  split
  next hs =>
    cases he with
    | kept =>
      cases e with
      | live t s u =>
        simp only [BookEntry.isStale, Bool.and_eq_true] at hs
        exact .faded hs.1
      | settled s => cases hs
    | faded hs' => exact .faded hs'
  · exact he

/-- What an id leads to is the same after pruning, or was a terminal record. -/
theorem get?_cases (h : b.Fades b') (id : Bytes) :
    b'.entries.get? id = b.entries.get? id ∨ ∃ t s u, b.entries.get? id = some (.live t s u) ∧
      b'.entries.get? id = some (.settled s) ∧ s.isTerminal := by
  have he := h.get? id
  generalize b.entries.get? id = e at he ⊢
  generalize b'.entries.get? id = e' at he ⊢
  cases he with
  | none => exact .inl rfl
  | some he =>
    cases he with
    | kept => exact .inl rfl
    | faded hs => exact .inr ⟨_, _, _, rfl, rfl, hs⟩

theorem stateOf?_eq (h : b.Fades b') (id : Bytes) : b'.stateOf? id = b.stateOf? id := by
  rw [stateOf?, stateOf?]
  rcases h.get?_cases id with he | ⟨t, s, u, he, he', -⟩
  · rw [he]
  · rw [he, he']
    rfl

theorem contains_eq (h : b.Fades b') (id : Bytes) : b'.contains id = b.contains id :=
  Table.Rel.contains_eq h id

theorem prepared_eq (h : b.Fades b') : b'.prepared = b.prepared := by
  have hfade : ∀ {e e' : BookEntry}, e.Fades e' → e'.prepared? = e.prepared? := by
    intro e e' he
    cases he with
    | kept => rfl
    | @faded t s u hs =>
      cases s with
      | prepared => cases hs
      | _ => rfl
  have hes : ∀ {es es' : List (Bytes × BookEntry)},
      List.Forall₂ (fun e e' => e.1 = e'.1 ∧ e.2.Fades e'.2) es es' →
      es'.filterMap (·.2.prepared?) = es.filterMap (·.2.prepared?) := by
    intro es es' h
    induction h with
    | nil => rfl
    | cons he _ ih => rw [List.filterMap_cons, List.filterMap_cons, hfade he.2, ih]
  exact hes h

theorem put (h : b.Fades b') (now : Int) (t : Transfer) (s : TransferState)
    (reason : Option Reason) : (b.put now t s reason).Fades (b'.put now t s reason) :=
  Table.Rel.insert h t.id (.kept _)

/-- A book finds the same transfer after pruning, or none where it was terminal. -/
theorem find?_cases (h : b.Fades b') (id : Bytes) : b'.find? id = b.find? id ∨
    b'.find? id = none ∧ ∃ t s u, b.entries.get? id = some (.live t s u) ∧ s.isTerminal := by
  rw [find?, find?]
  rcases h.get?_cases id with he | ⟨t, s, u, he, he', hs⟩
  · exact .inl (by rw [he])
  · exact .inr ⟨by rw [he']; rfl, t, s, u, he, hs⟩

end Book.Fades

namespace Ledger

/-! ### Calls on a faded ledger -/

/-- The second ledger is the first one with a book that has faded. -/
inductive Fades (l : Ledger) : Ledger → Prop
  | book {b : Book} (h : l.book.Fades b) : Fades l { l with book := b }

/-- Whether somebody decides about a transfer that has faded and was never theirs. -/
def Strays (l l' : Ledger) (id : Bytes) (caller : Address) : Prop :=
  l'.book.find? id = none ∧ ∃ t, l.book.find? id = some t ∧ t.receiver ≠ caller

/-- The same answer, or errors of one kind; a stray caller is told less of what has faded. -/
inductive Agrees {α : Type} (strays : Prop) : Except Error α → Except Error α → Prop
  | ok (a : α) : Agrees strays (.ok a) (.ok a)
  | error {e e' : Error} (hn : ¬strays) (hk : e'.kind = e.kind) : Agrees strays (.error e) (.error e')
  | stray {e e' : Error} (hs : strays) (hk : e.kind = .unauthorized) (hk' : e'.kind = .invalidState) :
    Agrees strays (.error e) (.error e')

/-- Two calls whose answers agree, and whose ledgers differ by what has faded. -/
structure Parallel {α : Type} (strays : Prop) (o o' : Outcome Ledger α) : Prop where
  answer : Agrees strays o.1 o'.1
  ledger : o.2.Fades o'.2

theorem Agrees.refl {α : Type} {strays : Prop} (hn : ¬strays) (x : Except Error α) :
    Agrees strays x x := by
  cases x with
  | error e => exact .error hn rfl
  | ok a => exact .ok a

theorem Agrees.map {α β : Type} {strays : Prop} {x x' : Except Error α} (h : Agrees strays x x')
    (f : α → β) : Agrees strays (x.map f) (x'.map f) := by
  cases h with
  | ok a => exact .ok (f a)
  | error hn hk => exact .error hn hk
  | stray hs hk hk' => exact .stray hs hk hk'

namespace Fades

variable {l l' : Ledger} {now : Int} {t : Transfer}

theorem refl (l : Ledger) : l.Fades l := .book (.refl l.book)

theorem prune (h : l.Fades l') (cutoff : Int) : l.Fades { l' with book := l'.book.prune cutoff } := by
  cases h with
  | book h => exact .book (h.prune cutoff)

theorem quiet (h : l.Fades l') : l.quiet.Fades l'.quiet := by
  cases h with
  | book h => exact .book h

theorem declined (h : l.Fades l') (now : Int) (t : Transfer) (balance : Int) :
    (l.declined now t balance).Fades (l'.declined now t balance) := by
  cases h with
  | book h => exact .book ((h.put ..).put ..)

theorem funded (h : l.Fades l') (now : Int) (t : Transfer) :
    (l.funded now t).Fades (l'.funded now t) := by
  cases h with
  | book h => exact .book ((h.put ..).put ..)

theorem ended (h : l.Fades l') (now : Int) (t : Transfer) (e : Ending) :
    (l.ended now t e).Fades (l'.ended now t e) := by
  cases h with
  | book h => exact .book (h.put ..)

theorem refusal?_eq (h : l.Fades l') (t : Transfer) : l'.refusal? t = l.refusal? t := by
  cases h with
  | book h =>
    rw [refusal?, refusal?, h.contains_eq]
    rfl

theorem book_fades (h : l.Fades l') : l.book.Fades l'.book := by
  cases h with
  | book h => exact h

/-- Nothing but the book can tell the two apart. -/
theorem eq_book (h : l.Fades l') : l' = { l with book := l'.book } := by
  cases h with
  | book h => rfl

theorem balance?_eq (h : l.Fades l') (a : Address) : l'.balance? a = l.balance? a := by
  rw [h.eq_book]
  rfl

theorem callbacks_eq (h : l.Fades l') : l'.callbacks = l.callbacks := by
  rw [h.eq_book]
  rfl

/-- What is prepared has not faded. -/
theorem prepared_iff (h : l.Fades l') {id : Bytes} {u : Int} :
    l'.book.entries.get? id = some (.live t .prepared u) ↔
      l.book.entries.get? id = some (.live t .prepared u) := by
  rcases h.book_fades.get?_cases id with he | ⟨t', s, u', he, he', hs⟩
  · rw [he]
  · rw [he, he']
    constructor
    · nofun
    · rintro ⟨⟩
      cases hs

theorem prepare (h : l.Fades l') (now : Int) (t : Transfer) :
    Parallel False (l.prepare now t) (l'.prepare now t) := by
  have hrefusal := h.refusal?_eq t
  cases hr : l.refusal? t with
  | some e =>
    rw [prepare_eq_of_refusal? hr, prepare_eq_of_refusal? (hrefusal.trans hr)]
    exact ⟨.refl id _, h⟩
  | none =>
    obtain ⟨balance, -, hb, heq⟩ := prepare_eq now hr
    obtain ⟨balance', -, hb', heq'⟩ := prepare_eq now (hrefusal.trans hr)
    obtain rfl : balance = balance' := Option.some.inj (hb.symm.trans ((h.balance?_eq _).symm.trans hb'))
    rw [heq, heq']
    split
    · exact ⟨.ok _, h.declined ..⟩
    split
    · exact ⟨.ok _, h.funded ..⟩
    · exact ⟨.ok _, (h.funded ..).ended ..⟩

/-- What is held for a caller has not faded; what has faded is held for nobody. -/
theorem held (h : l.Fades l') (now : Int) (id : Bytes) (caller : Address) :
    Agrees (l.Strays l' id caller) (l.held now id caller) (l'.held now id caller) := by
  have hstate := h.book_fades.stateOf?_eq id
  rcases h.book_fades.find?_cases id with hf | ⟨hf, t, s, u, hg, hs⟩
  · have hn : ¬l.Strays l' id caller := by
      rintro ⟨hnone, t, ht, -⟩
      rw [hf, ht] at hnone
      cases hnone
    have hheld : l'.held now id caller = l.held now id caller := by
      rw [Ledger.held, Ledger.held, hf, hstate]
    rw [hheld]
    exact .refl hn _
  · have hfound : l.book.find? id = some t := Book.find?_eq_some_iff.2 ⟨s, u, hg⟩
    have hfaded : l'.held now id caller = .error (.transferUnknown id) := by
      rw [Ledger.held, hf]
    rw [hfaded]
    by_cases hr : t.receiver = caller
    · have hn : ¬l.Strays l' id caller := by
        rintro ⟨-, t', ht', hne⟩
        rw [hfound] at ht'
        cases ht'
        exact hne hr
      have hnp : l.book.stateOf? id ≠ some .prepared := by
        rw [Book.stateOf?, hg]
        rintro ⟨⟩
        cases hs
      simp only [Ledger.held, hfound, hr, ne_eq, not_true_eq_false, if_false, if_pos hnp]
      exact .error hn rfl
    · simp only [Ledger.held, hfound, ne_eq, hr, not_false_eq_true, if_true]
      exact .stray ⟨hf, t, hfound, hr⟩ rfl rfl

theorem not_strays {id : Bytes} {caller : Address} (h : l'.held now id caller = .ok t) :
    ¬l.Strays l' id caller := by
  rintro ⟨hf, -⟩
  obtain ⟨⟨u, hg⟩, -⟩ := held_eq_ok_iff.1 h
  rw [Book.find?_eq_some_iff.2 ⟨_, u, hg⟩] at hf
  cases hf

theorem fulfill (h : l.Fades l') (hl : l.Sound) (hl' : l'.Sound) (now : Int) (id : Bytes)
    (caller : Address) (f : Fulfillment) :
    Parallel (l.Strays l' id caller) (l.fulfill now id caller f) (l'.fulfill now id caller f) := by
  have hheld := h.held now id caller
  have hstray : ∀ t, l'.held now id caller = .ok t → ¬l.Strays l' id caller := fun _ => not_strays
  rw [fulfill_eq hl, fulfill_eq hl']
  generalize l.held now id caller = x at hheld ⊢
  generalize l'.held now id caller = x' at hheld hstray ⊢
  cases hheld with
  | ok t =>
    simp only
    split
    · exact ⟨.ok _, h.ended ..⟩
    · exact ⟨.error (hstray t rfl) rfl, h⟩
  | error hn hk => exact ⟨.error hn hk, h⟩
  | stray hs hk hk' => exact ⟨.stray hs hk hk', h⟩

theorem reject (h : l.Fades l') (hl : l.Sound) (hl' : l'.Sound) (now : Int) (id : Bytes)
    (caller : Address) (reason : Reason) : Parallel (l.Strays l' id caller)
      (l.reject now id caller reason) (l'.reject now id caller reason) := by
  have hheld := h.held now id caller
  rw [reject_eq hl, reject_eq hl']
  generalize l.held now id caller = x at hheld ⊢
  generalize l'.held now id caller = x' at hheld ⊢
  cases hheld with
  | ok t => exact ⟨.ok _, h.ended ..⟩
  | error hn hk => exact ⟨.error hn hk, h⟩
  | stray hs hk hk' => exact ⟨.stray hs hk hk', h⟩

/-- What has faded does not expire, in either ledger. -/
theorem expire (h : l.Fades l') (hl : l.Sound) (hl' : l'.Sound) (now : Int) (id : Bytes) :
    ∃ b l₁ l₁', l.expire now id = (.ok b, l₁) ∧ l'.expire now id = (.ok b, l₁') ∧ l₁.Fades l₁' := by
  rcases expire_cases hl now id with ⟨hn, heq⟩ | ⟨t, u, hg, heq⟩
  · rcases expire_cases hl' now id with ⟨-, heq'⟩ | ⟨t', u', hg', -⟩
    · exact ⟨_, _, _, heq, heq', h⟩
    · exact absurd (h.prepared_iff.1 hg') (hn t' u')
  · rcases expire_cases hl' now id with ⟨hn', -⟩ | ⟨t', u', hg', heq'⟩
    · exact absurd (h.prepared_iff.2 hg) (hn' t u)
    · cases hg.symm.trans (h.prepared_iff.1 hg')
      exact ⟨_, _, _, heq, heq', h.ended ..⟩

theorem fireAdopted (h : l.Fades l') (hl : l.Sound) (hl' : l'.Sound) (now : Int) :
    (l.fireAdopted now).Fades (l'.fireAdopted now) := by
  have hadopted : l'.adopted = l.adopted := by rw [h.eq_book]
  unfold Ledger.fireAdopted
  rw [hadopted]
  cases l.adopted.next? with
  | none => exact h
  | some r =>
    obtain ⟨t, adopted⟩ := r
    have hnext : { l with adopted }.Fades { l' with adopted } := by
      cases h with
      | book h => exact .book h
    obtain ⟨b, l₁, l₁', heq, heq', hf⟩ :=
      hnext.expire ⟨hl.nodup_keys, hl.holds, hl.nodup_listeners⟩
        ⟨hl'.nodup_keys, hl'.holds, hl'.nodup_listeners⟩ now t.id
    simp only [heq, heq']
    cases b with
    | false => exact hf
    | true =>
      cases hf with
      | book hf => exact .book hf

end Fades

/-! ### Steps and runs -/

namespace Step

def isPrune : Step → Bool
  | prune _ => true
  | _ => false

/-- Whether a step decides about a transfer that has faded and was never the caller's. -/
def Strays (l l' : Ledger) : Step → Prop
  | fulfill id caller _ | reject id caller _ => l.Strays l' id caller
  | _ => False

end Step

/-- Every step but pruning goes the same way on a ledger and on what it has faded to. -/
theorem perform_parallel {l l' : Ledger} (h : l.Fades l') (hl : l.Sound) (hl' : l'.Sound)
    (now : Int) {s : Step} (hs : s.isPrune = false) :
    Parallel (s.Strays l l') (s.perform now l) (s.perform now l') := by
  cases s with
  | addAccount a name balance =>
    cases h with
    | book h =>
      simp only [Step.perform, addAccount]
      split
      · exact ⟨.refl id _, .book h⟩
      split
      · exact ⟨.refl id _, .book h⟩
      split
      · exact ⟨.refl id _, .book h⟩
      · exact ⟨.ok _, .book h⟩
  | addConnector a =>
    cases h with
    | book h =>
      simp only [Step.perform, addConnector]
      split
      · exact ⟨.ok _, .book h⟩
      · exact ⟨.refl id _, .book h⟩
  | attach a who =>
    cases h with
    | book h =>
      simp only [Step.perform, attach_eq]
      split
      · exact ⟨.ok _, .book h⟩
      · exact ⟨.refl id _, .book h⟩
  | detach who =>
    cases h with
    | book h => exact ⟨.ok _, .book h⟩
  | prepare t => exact ⟨(h.prepare now t).answer.map _, (h.prepare now t).ledger⟩
  | fulfill id caller f =>
    exact ⟨(h.fulfill hl hl' now id caller f).answer.map _, (h.fulfill hl hl' now id caller f).ledger⟩
  | reject id caller reason =>
    exact ⟨(h.reject hl hl' now id caller reason).answer.map _,
      (h.reject hl hl' now id caller reason).ledger⟩
  | expire id =>
    obtain ⟨b, l₁, l₁', heq, heq', hf⟩ := h.expire hl hl' now id
    simp only [Step.perform, heq, heq']
    exact ⟨.ok _, hf⟩
  | adopt t =>
    cases h with
    | @book b h =>
      refine ⟨.ok _, ?_⟩
      simp only [Step.perform, adopt]
      split
      · exact .book h
      · exact .book h
  | passAdopted =>
    cases h with
    | book h => exact ⟨.ok _, .book h⟩
  | fireAdopted => exact ⟨.ok _, h.fireAdopted hl hl' now⟩
  | deliver m takes =>
    cases h with
    | @book b h =>
      refine ⟨.ok _, ?_⟩
      simp only [Step.perform, deliver]
      split
      · exact .book h
      · exact .book h
  | prune cutoff => cases hs

namespace Chronicle

/-- The second chronicle is the first one but for what pruning has dropped from the book. -/
structure Fades (c c' : Chronicle) : Prop where
  ledger : c.ledger.Fades c'.ledger
  accepted : c'.accepted = c.accepted
  opened : c'.opened = c.opened
  told : c'.told = c.told
  callbacks : c'.callbacks = c.callbacks
  quiet : c.ledger.quiet = c.ledger

/-- What counts as opened and accepted does not depend on why a call fails. -/
theorem entries_of_agrees {strays : Prop} {x x' : Except Error Answer} (h : Agrees strays x x')
    (s : Step) (opened : Table Address Int) :
    opening s x' opened = opening s x opened ∧ acceptance s x' = acceptance s x := by
  cases h with
  | ok a => exact ⟨rfl, rfl⟩
  | error | stray => cases s <;> exact ⟨rfl, rfl⟩

namespace Fades

variable {c c' : Chronicle}

theorem start {info : LedgerInfo} {l : Ledger} (hl : make info = .ok l) :
    (start l).Fades (start l) := by
  rw [make_eq_ok hl]
  exact ⟨.refl _, rfl, rfl, rfl, rfl, rfl⟩

theorem prune (h : c.Fades c') (now cutoff : Int) : c.Fades (c'.next now (.prune cutoff)) := by
  have hledger : c.ledger.Fades { c'.ledger with book := c'.ledger.book.prune cutoff }.quiet := by
    have hf := (h.ledger.prune cutoff).quiet
    rwa [h.quiet] at hf
  have hnotices : c'.ledger.notices = [] := by
    rw [h.ledger.eq_book, ← h.quiet]
    rfl
  refine ⟨hledger, (List.append_nil _).trans h.accepted, h.opened, ?_, ?_, h.quiet⟩
  · show c'.told ++ c'.ledger.notices = _
    rw [hnotices, List.append_nil, h.told]
  · show c'.callbacks ++ c'.ledger.notices.flatMap _ = _
    rw [hnotices, List.flatMap_nil, List.append_nil, h.callbacks]

theorem next (h : c.Fades c') (hl : c.ledger.Sound) (hl' : c'.ledger.Sound) (now : Int) {s : Step}
    (hs : s.isPrune = false) : (c.next now s).Fades (c'.next now s) := by
  obtain ⟨hanswer, hledger⟩ := perform_parallel h.ledger hl hl' now hs
  obtain ⟨hopened, haccepted⟩ := entries_of_agrees hanswer s c.opened
  have hnotices : (s.perform now c'.ledger).2.notices = (s.perform now c.ledger).2.notices := by
    rw [hledger.eq_book]
  refine ⟨hledger.quiet, ?_, ?_, ?_, ?_, rfl⟩
  · exact congrArg₂ (· ++ ·) h.accepted haccepted
  · exact (congrArg (opening s _) h.opened).trans hopened
  · exact congrArg₂ (· ++ ·) h.told hnotices
  · exact congrArg₂ (· ++ ·) h.callbacks hledger.callbacks_eq

end Fades

/-- A run without its prunings, and the run: the second is the first, faded. -/
theorem fades_run {info : LedgerInfo} {l : Ledger} (hl : make info = .ok l)
    (steps : List (Int × Step)) :
    (run l (steps.filter fun s => !s.2.isPrune)).Fades (run l steps) := by
  have hsound := sound_run (sound_of_make hl)
  induction steps using List.reverseRecOn with
  | nil => exact .start hl
  | append_singleton steps s ih =>
    obtain ⟨now, s⟩ := s
    rw [run_concat, List.filter_append]
    cases s with
    | prune cutoff => exact (List.append_nil _).symm ▸ ih.prune now cutoff
    | _ => exact (run_concat ..).symm ▸ ih.next (hsound _) (hsound _) now rfl

/-- A run with any prunings and the run without them lead to the same balances, the same
escrow, states and timers, and the same calls of the listeners; any other call then gives
the same answer after both, or fails after both with an error of one kind. Only who decides
about a transfer that was pruned and is not for them is told that it is not there, instead
of that it is not theirs. -/
theorem pruning_is_invisible {info : LedgerInfo} {l : Ledger} (hl : make info = .ok l)
    (steps : List (Int × Step)) :
    let c := run l (steps.filter fun s => !s.2.isPrune)
    let c' := run l steps
    (∀ a, c'.ledger.balance? a = c.ledger.balance? a) ∧ c'.ledger.escrow = c.ledger.escrow ∧
    (∀ id, c'.ledger.book.stateOf? id = c.ledger.book.stateOf? id) ∧
    (∀ id, c'.ledger.book.contains id = c.ledger.book.contains id) ∧
    c'.ledger.book.prepared = c.ledger.book.prepared ∧ c'.ledger.adopted = c.ledger.adopted ∧
    c'.told = c.told ∧ c'.callbacks = c.callbacks ∧
    c'.ledger = { c.ledger with book := c'.ledger.book } ∧
    ∀ now (s : Step), s.isPrune = false → Agrees (s.Strays c.ledger c'.ledger)
      (s.perform now c.ledger).1 (s.perform now c'.ledger).1 := by
  intro c c'
  have h : c.Fades c' := fades_run hl steps
  have hbook := h.ledger.book_fades
  have hledger := h.ledger.eq_book
  refine ⟨h.ledger.balance?_eq, ?_, hbook.stateOf?_eq, hbook.contains_eq, hbook.prepared_eq, ?_,
    h.told, h.callbacks, hledger, fun now s hs => ?_⟩
  · rw [hledger]
  · rw [hledger]
  · have hsound := sound_run (sound_of_make hl)
    exact (perform_parallel h.ledger (hsound _) (hsound _) now hs).answer

/-- A payment that is executed and pruned. -/
def samplePruned : List (Int × Step) := Sample.setUp ++
  [(1, .prepare (Sample.locked 'p')), (2, .fulfill "p" Sample.bob Sample.preimage), (3, .prune 10)]

/-- The sender of a pruned transfer cannot fulfill it, for another reason than before. -/
theorem pruning_is_invisible_but_to_strays :
    make Sample.ledger.info = .ok Sample.ledger ∧
    let c := run Sample.ledger (samplePruned.filter fun s => !s.2.isPrune)
    let c' := run Sample.ledger samplePruned
    let s := Step.fulfill "p" Sample.alice Sample.preimage
    c'.ledger.book ≠ c.ledger.book ∧ c'.ledger.balance? Sample.bob = c.ledger.balance? Sample.bob ∧
      ∃ e e', (s.perform 4 c.ledger).1 = .error e ∧ (s.perform 4 c'.ledger).1 = .error e' ∧
        e.kind = .unauthorized ∧ e'.kind = .invalidState := by
  have hl : make Sample.ledger.info = .ok Sample.ledger := rfl
  refine ⟨hl, ?_⟩
  intro c c' s
  obtain ⟨hbalance, -, -, -, -, -, -, -, -, hagrees⟩ := pruning_is_invisible hl samplePruned
  have hstrays : s.Strays c.ledger c'.ledger :=
    ⟨by decide +kernel, Sample.locked 'p', by decide +kernel, by decide⟩
  have hs := hagrees 4 s rfl
  have hfail : (s.perform 4 c.ledger).1.isOk = false := by decide +kernel
  refine ⟨by decide +kernel, hbalance _, ?_⟩
  change Agrees _ (s.perform 4 c.ledger).1 (s.perform 4 c'.ledger).1 at hs
  generalize (s.perform 4 c.ledger).1 = x at hs hfail
  generalize (s.perform 4 c'.ledger).1 = x' at hs
  cases hs with
  | ok a => cases hfail
  | error hn => exact absurd hstrays hn
  | stray _ hk hk' => exact ⟨_, _, rfl, rfl, hk, hk'⟩

end Chronicle

end Ledger

end Interledger
