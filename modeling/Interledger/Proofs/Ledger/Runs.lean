import Interledger.Proofs.Ledger.Effects
import Interledger.Proofs.Sample
import Mathlib.Data.List.Induction
import Mathlib.Data.List.Nodup

/-! Runs of a ledger, and the chronicle of a run.

After every step the listeners are called with what the step had to tell. The chronicle
keeps what the ledger itself forgets: the opening balances, the transfers that were
accepted, every line that was ever written into the journal, and all callbacks. -/

namespace Interledger

/-- What one listener receives of some callbacks, in order. -/
def Listener.received (w : Listener) (calls : List (Listener × Notice)) : List Notice :=
  (calls.filter (·.1 = w)).map (·.2)

namespace Ledger

/-- A ledger that has nothing left to tell or to log. -/
def quiet (l : Ledger) : Ledger := { l with notices := [], log := [] }

/-- The calls that bring what a ledger has to tell to its listeners: one notice after the
other, each to every session in order. -/
def callbacks (l : Ledger) : List (Listener × Notice) :=
  l.notices.flatMap fun n => l.sessions.map fun s => (s.listener, n)

theorem make_eq_ok {info : LedgerInfo} {l : Ledger} (h : make info = .ok l) :
    l = ⟨info, .empty, [], [], 0, .empty, .make info.address.text, [], []⟩ := by
  unfold make at h
  split at h
  · exact (Except.ok.inj h).symm
  · cases h

theorem sound_of_make {info : LedgerInfo} {l : Ledger} (h : make info = .ok l) : l.Sound := by
  rw [make_eq_ok h]
  exact ⟨List.nodup_nil, fun _ _ he => (nomatch he), List.nodup_nil⟩

theorem Sound.quiet {l : Ledger} (hl : l.Sound) : l.quiet.Sound :=
  ⟨hl.nodup_keys, hl.holds, hl.nodup_listeners⟩

structure Chronicle where
  ledger : Ledger
  /-- The balances that accounts were opened with. -/
  opened : Table Address Int
  /-- The transfers that were accepted, in order. -/
  accepted : List Transfer
  /-- All that was written into the journal, also what pruning has dropped since. -/
  written : List JournalEntry
  told : List Notice
  callbacks : List (Listener × Notice)

namespace Chronicle

def start (l : Ledger) : Chronicle := ⟨l, .empty, [], [], [], []⟩

/-- Opening balances after a step: an account is opened when the call succeeds. -/
def opening : Step → Except Error Answer → Table Address Int → Table Address Int
  | .addAccount a _ balance, .ok _, opened => opened.insert a balance
  | _, _, opened => opened

/-- A transfer is accepted when preparing it succeeds. -/
def acceptance : Step → Except Error Answer → List Transfer
  | .prepare t, .ok _ => [t]
  | _, _ => []

/-- The chronicle after a step that gave an answer and left a ledger. -/
def record (c : Chronicle) (s : Step) (answer : Except Error Answer) (l : Ledger) : Chronicle where
  ledger := l.quiet
  opened := opening s answer c.opened
  accepted := c.accepted ++ acceptance s answer
  written := c.written ++ l.book.journal.entries.drop c.ledger.book.journal.entries.length
  told := c.told ++ l.notices
  callbacks := c.callbacks ++ l.callbacks

def next (c : Chronicle) (now : Int) (s : Step) : Chronicle :=
  c.record s (s.perform now c.ledger).1 (s.perform now c.ledger).2

/-- A run from a new ledger: steps with the readings of the clock. -/
def run (l : Ledger) (steps : List (Int × Step)) : Chronicle :=
  steps.foldl (fun c s => c.next s.1 s.2) (start l)

@[simp] theorem run_concat (l : Ledger) (steps : List (Int × Step)) (s : Int × Step) :
    run l (steps ++ [s]) = (run l steps).next s.1 s.2 := by
  simp [run]

/-- What every step of a sound ledger keeps holds after a run. -/
theorem run_induction {P : Chronicle → Prop} {l : Ledger} (hl : l.Sound) (hstart : P (start l))
    (hstep : ∀ c now s answer l', c.ledger.Sound → P c → c.ledger.Effect now s answer l' →
      P (c.record s answer l')) (steps : List (Int × Step)) :
    (run l steps).ledger.Sound ∧ P (run l steps) := by
  induction steps using List.reverseRecOn with
  | nil => exact ⟨hl, hstart⟩
  | append_singleton steps s ih =>
    obtain ⟨hs, hp⟩ := ih
    have he := perform_effect hs s.1 s.2
    rw [run_concat]
    exact ⟨(he.sound hs).quiet, hstep _ _ _ _ _ hs hp he⟩

theorem sound_run {l : Ledger} (hl : l.Sound) (steps : List (Int × Step)) :
    (run l steps).ledger.Sound :=
  (run_induction (P := fun _ => True) hl trivial (fun _ _ _ _ _ _ _ _ => trivial) steps).1

/-! ### The accepted transfers and the book -/

/-- The book knows every accepted transfer, and its records hold no others. -/
structure Filed (c : Chronicle) : Prop where
  nodup_ids : (c.accepted.map (·.id)).Nodup
  known : ∀ t ∈ c.accepted, c.ledger.book.contains t.id
  parties : ∀ t ∈ c.accepted,
    c.ledger.accounts.contains t.sender ∧ c.ledger.accounts.contains t.receiver
  live : ∀ id t s u, c.ledger.book.entries.get? id = some (.live t s u) → t ∈ c.accepted

namespace Filed

variable {c c' : Chronicle} {t : Transfer}

/-- The record of an id holds the transfer that was accepted under it. -/
theorem eq_of_live (hc : c.Filed) (ht : t ∈ c.accepted) {t' : Transfer} {s : TransferState} {u : Int}
    (hid : t'.id = t.id) (hg : c.ledger.book.entries.get? t.id = some (.live t' s u)) : t' = t :=
  List.inj_on_of_nodup_map hc.nodup_ids (hc.live _ _ _ _ hg) ht hid

theorem ne_of_fresh (hc : c.Filed) (h : c.ledger.book.contains t.id = false) :
    ∀ u ∈ c.accepted, u.id ≠ t.id := by
  intro u hu hid
  rw [← hid, hc.known u hu] at h
  cases h

/-- A step that accepts nothing, forgets nothing and writes only accepted transfers. -/
theorem keep (hc : c.Filed) (ha : c'.accepted = c.accepted)
    (hk : ∀ id, c.ledger.book.contains id → c'.ledger.book.contains id)
    (hp : ∀ a, c.ledger.accounts.contains a → c'.ledger.accounts.contains a)
    (hl : ∀ id t s u, c'.ledger.book.entries.get? id = some (.live t s u) → t ∈ c.accepted) :
    c'.Filed where
  nodup_ids := ha ▸ hc.nodup_ids
  known t ht := hk _ (hc.known t (ha ▸ ht))
  parties t ht := ⟨hp _ (hc.parties t (ha ▸ ht)).1, hp _ (hc.parties t (ha ▸ ht)).2⟩
  live id t s u h := ha ▸ hl id t s u h

/-- A step that accepts one transfer under a new id. -/
theorem accept (hc : c.Filed) (ht : c.ledger.Admits t) (ha : c'.accepted = c.accepted ++ [t])
    {s : TransferState} {u : Int} (hg : ∀ id, c'.ledger.book.entries.get? id =
      if id = t.id then some (.live t s u) else c.ledger.book.entries.get? id)
    (hp : ∀ a, c'.ledger.accounts.contains a = c.ledger.accounts.contains a) : c'.Filed where
  nodup_ids := by
    rw [ha, List.map_append]
    refine List.nodup_append.2 ⟨hc.nodup_ids, by simp, ?_⟩
    rintro x hx y hy rfl
    obtain ⟨u, hu, hid⟩ := List.mem_map.1 hx
    exact hc.ne_of_fresh ht.fresh u hu (hid.trans (List.mem_singleton.1 hy))
  known v hv := by
    rw [Book.contains_iff_get?, hg]
    split
    · exact ⟨_, rfl⟩
    next hne =>
      rw [ha] at hv
      rcases List.mem_append.1 hv with hv | hv
      · exact Book.contains_iff_get?.1 (hc.known v hv)
      · exact absurd (congrArg Transfer.id (List.mem_singleton.1 hv)) hne
  parties v hv := by
    rw [ha] at hv
    rw [hp, hp]
    rcases List.mem_append.1 hv with hv | hv
    · exact hc.parties v hv
    · rw [List.mem_singleton.1 hv]
      exact ⟨ht.sender, ht.receiver⟩
  live id v s' u' h := by
    rw [hg] at h
    rw [ha]
    split at h
    · cases h
      simp
    · exact List.mem_append_left _ (hc.live id v s' u' h)

end Filed

/-- A step that is no successful call to open an account or to prepare a transfer adds
nothing to the accounts and the transfers of the chronicle. -/
theorem calm_entries {l l' : Ledger} {now : Int} {s : Step} {answer : Except Error Answer}
    (h : l.Calm now s answer l') (opened : Table Address Int) :
    opening s answer opened = opened ∧ acceptance s answer = [] := by
  cases h with
  | refused s e => cases s <;> exact ⟨rfl, rfl⟩
  | idle _ _ hs => cases hs <;> exact ⟨rfl, rfl⟩
  | _ => exact ⟨rfl, rfl⟩

theorem ends_entries {now : Int} {s : Step} {answer : Answer} {t : Transfer} {e : Ending}
    (h : Ends now s answer t e) (opened : Table Address Int) :
    opening s (.ok answer) opened = opened ∧ acceptance s (.ok answer) = [] := by
  cases h <;> exact ⟨rfl, rfl⟩

theorem filed_start {info : LedgerInfo} {l : Ledger} (h : make info = .ok l) : (start l).Filed := by
  rw [make_eq_ok h]
  exact ⟨List.nodup_nil, by simp [start], by simp [start], fun _ _ _ _ h => nomatch h⟩

theorem Filed.record {c : Chronicle} (hc : c.Filed) {now : Int} {s : Step}
    {answer : Except Error Answer} {l' : Ledger} (h : c.ledger.Effect now s answer l') :
    (c.record s answer l').Filed := by
  cases h with
  | calm h =>
    refine hc.keep ?_ ?_ ?_ fun id t st u hg => hc.live id t st u (h.live hg)
    · simp [Chronicle.record, (calm_entries h c.opened).2]
    · intro id hid
      rw [Book.contains_eq_isSome_stateOf?] at hid ⊢
      exact (congrArg Option.isSome (h.stateOf?_eq id)).trans hid
    · intro a ha
      exact (congrArg (·.contains a) h.accounts_eq).trans ha
  | opened hb ha =>
    refine hc.keep (List.append_nil _) (fun _ h => h) (fun a h => ?_) hc.live
    show (Table.insert _ _ _).contains a = true
    simp [h]
  | @declined t balance ht hb hlt =>
    exact hc.accept ht rfl (get?_declined c.ledger now t balance) fun _ => rfl
  | @funded t balance ht hb hle hcond =>
    exact hc.accept ht rfl (get?_funded c.ledger now t) (contains_funded c.ledger now t)
  | @executed t balance ht hb hle hcond =>
    exact hc.accept ht rfl (get?_funded_ended c.ledger now t (.executed none)) fun a =>
      (contains_ended ..).trans (contains_funded ..)
  | @ended s answer t u e adopted log hg hs =>
    refine hc.keep ?_ ?_ (fun a ha => (contains_ended ..).trans ha) ?_
    · simp [Chronicle.record, (ends_entries hs c.opened).2]
    · intro id hid
      show (c.ledger.book.put ..).contains id = true
      simp [hid]
    · intro id t' s' u' h
      change (c.ledger.book.put ..).entries.get? id = _ at h
      rw [Book.get?_put] at h
      split at h
      · cases h
        exact hc.live _ _ _ _ hg
      · exact hc.live _ _ _ _ h

theorem filed_run {info : LedgerInfo} {l : Ledger} (h : make info = .ok l)
    (steps : List (Int × Step)) : (run l steps).Filed :=
  (run_induction (sound_of_make h) (filed_start h) (fun _ _ _ _ _ _ hc he => hc.record he) steps).2

end Chronicle

/-! ### A small ledger -/

namespace Sample

def ledger : Ledger :=
  let address : Address := ⟨["g"], true, by decide⟩
  ⟨⟨address, "EUR", 2, 9⟩, .empty, [], [], 0, .empty, .make address.text, [], []⟩

def setUp : List (Int × Step) :=
  [(0, .addAccount alice "Alice" 100), (0, .addAccount bob "Bob" 0)]

end Sample

end Ledger

end Interledger
