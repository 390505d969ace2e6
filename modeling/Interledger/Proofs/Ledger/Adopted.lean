import Interledger.Proofs.Alarm
import Interledger.Proofs.Ledger.Runs

/-! What a step of a ledger does to timers. It cancels those of transfers that have come to
their end, in the alarm of the ledger itself and by its notices wherever it has listeners; its
own alarm is changed besides only by the steps that work on it. -/

namespace Interledger

/-- The transfer that a notice says has come to its end. -/
def Notice.over? : Notice → Option Bytes
  | .executed t _ | .rejected t _ => some t.id
  | .prepared _ | .message _ => none

/-- The transfer of an id has come to its end. -/
def Book.IsOver (b : Book) (id : Bytes) : Prop := ∃ s, b.stateOf? id = some s ∧ s.isTerminal

theorem Book.isOver_of_get? {b b' : Book} {t : Transfer} {s : TransferState} {u : Int}
    (h : ∀ id, b'.entries.get? id = if id = t.id then some (.live t s u) else b.entries.get? id)
    (hs : s.isTerminal) : b'.IsOver t.id :=
  ⟨s, (Book.stateOf?_of_get? h t.id).trans (if_pos rfl), hs⟩

theorem Book.IsOver.ne_prepared {b : Book} {id : Bytes} (h : b.IsOver id) :
    b.stateOf? id ≠ some .prepared := by
  obtain ⟨s, hs, ht⟩ := h
  rw [hs]
  rintro ⟨⟩
  cases ht

namespace Ledger

variable {l l' : Ledger} {now : Int} {s : Step} {answer : Except Error Answer}

theorem adopted_ended (l : Ledger) (now : Int) (t : Transfer) (e : Ending) :
    (l.ended now t e).adopted = l.adopted.without [t.id] := l.adopted.cancel_eq t.id

theorem isOver_ended (l : Ledger) (now : Int) (t : Transfer) (e : Ending) :
    (l.ended now t e).book.IsOver t.id :=
  Book.isOver_of_get? (fun _ => Book.get?_put) e.isTerminal_state

/-- Every end that a step tells of has come. -/
theorem Effect.isOver_of_over? (h : l.Effect now s answer l') (hq : l.notices = []) {n : Notice}
    (hn : n ∈ l'.notices) {id : Bytes} (hid : n.over? = some id) : l'.book.IsOver id := by
  have hold : ∀ {n' : Notice}, n ∈ l.notices ++ [n'] → n = n' := by
    intro n' hn
    rw [hq] at hn
    exact List.mem_singleton.1 hn
  cases h with
  | calm h =>
    have hmem : n ∈ l.notices ∨ ∃ m, n = .message m := by
      cases h with
      | told => exact (List.mem_append.1 hn).imp_right fun hn => ⟨_, List.mem_singleton.1 hn⟩
      | _ => exact .inl hn
    rcases hmem with hmem | ⟨m, rfl⟩
    · rw [hq] at hmem
      cases hmem
    · cases hid
  | opened hb ha =>
    change n ∈ l.notices at hn
    rw [hq] at hn
    cases hn
  | @declined t balance ht hb hlt =>
    obtain rfl := hold hn
    cases hid
    exact Book.isOver_of_get? (get?_declined l now t balance) rfl
  | @funded t balance ht hb hle hc =>
    obtain rfl := hold hn
    cases hid
  | @executed t balance ht hb hle hc =>
    have hover : ((l.funded now t).ended now t (.executed none)).book.IsOver t.id :=
      Book.isOver_of_get? (get?_funded_ended l now t _) rfl
    rw [notices_ended, notices_funded] at hn
    rcases List.mem_append.1 hn with hn | hn
    · obtain rfl := hold hn
      cases hid
    · obtain rfl := List.mem_singleton.1 hn
      cases hid
      exact hover
  | @ended s answer t u e adopted log hg hs =>
    obtain rfl := hold hn
    have hover : (l.ended now t e).book.IsOver t.id := isOver_ended l now t e
    cases e with
    | _ =>
      cases hid
      exact hover

/-- What the steps that work on the adopted timers do to them. -/
def Step.tend (now : Int) (a : Alarm) : Step → Alarm
  | adopt t => (a.start.schedule t).2
  | passAdopted => a.pass now
  | fireAdopted => a.rest
  | _ => a

/-- An alarm that has been worked on, without some timers of transfers that are over. -/
def Trims (b : Book) (a a' : Alarm) : Prop :=
  ∃ ids, (∀ id ∈ ids, b.IsOver id) ∧ a' = a.without ids

namespace Trims

variable {b : Book} {a : Alarm}

theorem refl (b : Book) (a : Alarm) : Trims b a a := ⟨[], by simp, a.without_nil.symm⟩

theorem of_ended {a : Alarm} (ha : l.adopted = a) (now : Int) (t : Transfer) (e : Ending) :
    Trims (l.ended now t e).book a (l.ended now t e).adopted := by
  refine ⟨[t.id], fun id hid => ?_, ?_⟩
  · obtain rfl := List.mem_singleton.1 hid
    exact isOver_ended l now t e
  · rw [adopted_ended, ha]

end Trims

theorem adopted_expire (hl : l.Sound) (now : Int) (id : Bytes) :
    Trims (l.expire now id).2.book l.adopted (l.expire now id).2.adopted := by
  rcases expire_cases hl now id with ⟨-, h⟩ | ⟨t, u, -, h⟩
  · rw [h]
    exact .refl ..
  · rw [h]
    exact .of_ended rfl ..

/-- A step works on the adopted timers as it says, and cancels no others than of transfers
that are over. -/
theorem adopted_perform (hl : l.Sound) (now : Int) (s : Step) :
    Trims (s.perform now l).2.book (s.tend now l.adopted) (s.perform now l).2.adopted := by
  cases s with
  | addAccount a name balance =>
    simp only [Step.perform, addAccount]
    split
    · exact .refl ..
    split
    · exact .refl ..
    split
    · exact .refl ..
    · exact .refl ..
  | addConnector a =>
    simp only [Step.perform, addConnector]
    split
    · exact .refl ..
    · exact .refl ..
  | attach a who =>
    simp only [Step.perform, attach_eq]
    split
    · exact .refl ..
    · exact .refl ..
  | detach who => exact .refl ..
  | prepare t =>
    simp only [Step.perform]
    rcases prepare_cases l now t with ⟨e, h⟩ | ⟨balance, -, -, h⟩
    · rw [h]
      exact .refl ..
    · rw [h]
      split
      · exact .refl ..
      split
      · exact .refl ..
      · exact .of_ended (l := l.funded now t) rfl ..
  | fulfill id caller f =>
    simp only [Step.perform]
    rcases fulfill_cases hl now id caller f with ⟨e, h⟩ | ⟨t, u, -, -, h⟩
    · rw [h]
      exact .refl ..
    · rw [h]
      exact .of_ended rfl ..
  | reject id caller reason =>
    simp only [Step.perform]
    rcases reject_cases hl now id caller reason with ⟨e, h⟩ | ⟨t, u, -, -, -, h⟩
    · rw [h]
      exact .refl ..
    · rw [h]
      exact .of_ended rfl ..
  | expire id => exact adopted_expire hl now id
  | adopt t =>
    simp only [Step.perform, Step.tend, adopt]
    split
    next heq => rw [heq]; exact .refl ..
    next heq => rw [heq]; exact .refl ..
  | passAdopted => exact .refl ..
  | fireAdopted =>
    simp only [Step.perform, Step.tend, fireAdopted]
    split
    next hnone =>
      rw [Alarm.rest_of_next?_eq_none hnone]
      exact .refl ..
    next t adopted hnext =>
      have hl' : { l with adopted }.Sound := ⟨hl.nodup_keys, hl.holds, hl.nodup_listeners⟩
      obtain rfl := (Alarm.batch_of_next? hnext).2
      have hx := adopted_expire hl' now t.id
      generalize { l with adopted := l.adopted.rest }.expire now t.id = o at hx
      obtain ⟨answer, l'⟩ := o
      split
      next heq => cases heq; exact hx
      next heq => cases heq; exact hx
      next heq => cases heq; exact hx
  | deliver m takes =>
    simp only [Step.perform, deliver]
    split
    · exact .refl ..
    · exact .refl ..
  | prune cutoff => exact .refl ..

/-! ### Callbacks of timers -/

theorem Sound.prepared_iff (hl : l.Sound) {id : Bytes} : l.book.stateOf? id = some .prepared ↔
    ∃ t u, l.book.entries.get? id = some (.live t .prepared u) := by
  rw [Book.stateOf?, Option.map_eq_some_iff]
  constructor
  · rintro ⟨e, he, hst⟩
    cases e with
    | live t s u =>
      cases hst
      exact ⟨t, u, he⟩
    | settled s =>
      cases hst
      cases hl.holds id _ he
  · rintro ⟨t, u, hg⟩
    exact ⟨_, hg, rfl⟩

/-- Expiry changes the state of one transfer, if it is prepared. -/
theorem stateOf?_expire (hl : l.Sound) (now : Int) (id j : Bytes) :
    (l.expire now id).2.book.stateOf? j =
      if j = id ∧ l.book.stateOf? id = some .prepared then some .expired
      else l.book.stateOf? j := by
  rcases expire_cases hl now id with ⟨hn, h⟩ | ⟨t, u, hg, h⟩
  · have hstate : ¬(j = id ∧ l.book.stateOf? id = some .prepared) := by
      rintro ⟨-, hp⟩
      obtain ⟨t, u, hg⟩ := hl.prepared_iff.1 hp
      exact hn t u hg
    rw [h, if_neg hstate]
  · have hid := (hl.live hg).1
    have hp : l.book.stateOf? id = some .prepared := hl.prepared_iff.2 ⟨t, u, hg⟩
    rw [h, book_ended, Book.stateOf?_put, hid]
    simp only [hp, and_true]
    rfl

/-- Calling back an adopted timer is an expiry of its transfer. -/
theorem stateOf?_fireAdopted (hl : l.Sound) (now : Int) (j : Bytes) :
    (l.fireAdopted now).book.stateOf? j =
      (l.adopted.batch.bind List.head?).elim (l.book.stateOf? j) fun t =>
        if j = t.id ∧ l.book.stateOf? t.id = some .prepared then some .expired
        else l.book.stateOf? j := by
  rw [fireAdopted, Alarm.next?_eq]
  cases l.adopted.batch.bind List.head? with
  | none => rfl
  | some t =>
    have hl' : { l with adopted := l.adopted.rest }.Sound :=
      ⟨hl.nodup_keys, hl.holds, hl.nodup_listeners⟩
    have hx := stateOf?_expire hl' now t.id j
    simp only [Option.map_some, Option.elim_some]
    generalize { l with adopted := l.adopted.rest }.expire now t.id = o at hx
    obtain ⟨answer, l'⟩ := o
    split
    next heq => cases heq; exact hx
    next heq => cases heq; exact hx
    next heq => cases heq; exact hx

end Ledger

end Interledger
