import Interledger.Ledger.Adoption
import Interledger.Proofs.Book

/-! The steps of a ledger, and what a ledger becomes.

A step is a call or a move of the worker behind the adopted timers. A new transfer is
declined or funded, and a prepared one ends; each of these leaves a ledger of its own, with
its balances, its escrow, its record in the book and its notice. -/

namespace Interledger.Ledger

/-- The calls on a ledger, and the moves of the worker behind its adopted timers. -/
inductive Step where
  | addAccount (a : Address) (name : Bytes) (balance : Int)
  | addConnector (a : Address)
  | attach (a : Address) (who : Listener)
  | detach (who : Listener)
  | prepare (t : Transfer)
  | fulfill (id : Bytes) (caller : Address) (f : Fulfillment)
  | reject (id : Bytes) (caller : Address) (reason : Reason)
  | expire (id : Bytes)
  | adopt (t : Timer)
  | passAdopted
  | fireAdopted
  | deliver (m : Message) (takes : Listener → Bool)
  | prune (cutoff : Int)

/-- What a step gives back. -/
inductive Answer where
  | done
  | state (s : TransferState)
  | truth (b : Bool)
  | count (n : Nat)

/-- One step at a reading of the clock. -/
def Step.perform (now : Int) (l : Ledger) : Step → Outcome Ledger Answer
  | addAccount a name balance => ((l.addAccount a name balance).1.map fun _ => .done,
      (l.addAccount a name balance).2)
  | addConnector a => ((l.addConnector a).1.map fun _ => .done, (l.addConnector a).2)
  | attach a who => ((l.attach a who).1.map fun _ => .done, (l.attach a who).2)
  | detach who => (.ok .done, l.detach who)
  | prepare t => ((l.prepare now t).1.map .state, (l.prepare now t).2)
  | fulfill id caller f => ((l.fulfill now id caller f).1.map fun _ => .done,
      (l.fulfill now id caller f).2)
  | reject id caller reason => ((l.reject now id caller reason).1.map fun _ => .done,
      (l.reject now id caller reason).2)
  | expire id => ((l.expire now id).1.map .truth, (l.expire now id).2)
  | adopt t => (.ok .done, l.adopt t)
  | passAdopted => (.ok .done, l.passAdopted now)
  | fireAdopted => (.ok .done, l.fireAdopted now)
  | deliver m takes => (.ok (.truth (l.deliver m takes).1), (l.deliver m takes).2)
  | prune cutoff => (.ok (.count (l.prune cutoff).1), (l.prune cutoff).2)

/-- How a prepared transfer ends. -/
inductive Ending where
  | executed (f : Option Fulfillment)
  | rejected (reason : Reason)
  | expired

namespace Ending

def state : Ending → TransferState
  | executed _ => .executed
  | rejected _ => .rejected
  | expired => .expired

def reason? : Ending → Option Reason
  | executed _ => none
  | rejected reason => some reason
  | expired => some .atDeadline

/-- Whom the money in escrow goes to. -/
def payee (t : Transfer) : Ending → Address
  | executed _ => t.receiver
  | rejected _ | expired => t.sender

def notice (t : Transfer) : Ending → Notice
  | executed f => .executed t f
  | rejected reason => .rejected t reason
  | expired => .rejected t .atDeadline

@[simp] theorem isTerminal_state (e : Ending) : e.state.isTerminal := by cases e <;> rfl

@[simp] theorem allows_state (e : Ending) : TransferState.prepared.allows e.state := by
  cases e <;> rfl

end Ending

/-! ### What a ledger becomes -/

/-- Sessions once a listener has one for an account. -/
def seats (l : Ledger) (a : Address) (who : Listener) : List Session :=
  if l.sessions.any (·.listener = who) then
    l.sessions.map fun s => if s.listener = who then { s with account := a } else s
  else l.sessions ++ [⟨a, who⟩]

/-- A new transfer that its sender cannot fund. -/
def declined (l : Ledger) (now : Int) (t : Transfer) (balance : Int) : Ledger :=
  { l with
    book := (l.book.put now t .proposed none).put now t .rejected (some (shortfall balance t.amount))
  }.notify (.rejected t (shortfall balance t.amount))

/-- A new transfer whose amount has gone into escrow. -/
def funded (l : Ledger) (now : Int) (t : Transfer) : Ledger :=
  ({ l with
    book := (l.book.put now t .proposed none).put now t .prepared none
    escrow := l.escrow + t.amount }.credit t.sender (-t.amount)).notify (.prepared t)

/-- A prepared transfer whose amount has left escrow. -/
def ended (l : Ledger) (now : Int) (t : Transfer) (e : Ending) : Ledger :=
  ({ l with
    book := l.book.put now t e.state e.reason?
    adopted := (l.adopted.cancel t.id).2
    escrow := l.escrow - t.amount }.credit (e.payee t) t.amount).notify (e.notice t)

@[simp] theorem book_ended (l : Ledger) (now : Int) (t : Transfer) (e : Ending) :
    (l.ended now t e).book = l.book.put now t e.state e.reason? := rfl

theorem accounts_ended (l : Ledger) (now : Int) (t : Transfer) (e : Ending) :
    (l.ended now t e).accounts = l.accounts.modify (e.payee t) fun r =>
      { r with balance := r.balance + t.amount } := rfl

@[simp] theorem escrow_ended (l : Ledger) (now : Int) (t : Transfer) (e : Ending) :
    (l.ended now t e).escrow = l.escrow - t.amount := rfl

@[simp] theorem sessions_ended (l : Ledger) (now : Int) (t : Transfer) (e : Ending) :
    (l.ended now t e).sessions = l.sessions := rfl

@[simp] theorem notices_ended (l : Ledger) (now : Int) (t : Transfer) (e : Ending) :
    (l.ended now t e).notices = l.notices ++ [e.notice t] := rfl

@[simp] theorem book_funded (l : Ledger) (now : Int) (t : Transfer) : (l.funded now t).book =
    (l.book.put now t .proposed none).put now t .prepared none := rfl

theorem accounts_funded (l : Ledger) (now : Int) (t : Transfer) : (l.funded now t).accounts =
    l.accounts.modify t.sender fun r => { r with balance := r.balance + -t.amount } := rfl

@[simp] theorem escrow_funded (l : Ledger) (now : Int) (t : Transfer) :
    (l.funded now t).escrow = l.escrow + t.amount := rfl

@[simp] theorem notices_funded (l : Ledger) (now : Int) (t : Transfer) :
    (l.funded now t).notices = l.notices ++ [.prepared t] := rfl

theorem balance?_credit (l : Ledger) (a b : Address) (n : Int) : (l.credit a n).balance? b =
    if b = a then (l.balance? b).map (· + n) else l.balance? b := by
  simp only [balance?, credit, Table.get?_modify]
  split
  · rw [Option.map_map, Option.map_map]
    rfl
  · rfl

@[simp] theorem contains_credit (l : Ledger) (a b : Address) (n : Int) :
    (l.credit a n).accounts.contains b = l.accounts.contains b :=
  Table.contains_modify ..

theorem balance?_ended (l : Ledger) (now : Int) (t : Transfer) (e : Ending) (a : Address) :
    (l.ended now t e).balance? a =
      if a = e.payee t then (l.balance? a).map (· + t.amount) else l.balance? a :=
  balance?_credit ..

theorem balance?_funded (l : Ledger) (now : Int) (t : Transfer) (a : Address) :
    (l.funded now t).balance? a =
      if a = t.sender then (l.balance? a).map (· + -t.amount) else l.balance? a :=
  balance?_credit ..

@[simp] theorem contains_ended (l : Ledger) (now : Int) (t : Transfer) (e : Ending) (a : Address) :
    (l.ended now t e).accounts.contains a = l.accounts.contains a :=
  contains_credit ..

@[simp] theorem contains_funded (l : Ledger) (now : Int) (t : Transfer) (a : Address) :
    (l.funded now t).accounts.contains a = l.accounts.contains a :=
  contains_credit ..

theorem get?_funded (l : Ledger) (now : Int) (t : Transfer) (id : Bytes) :
    (l.funded now t).book.entries.get? id =
      if id = t.id then some (.live t .prepared now) else l.book.entries.get? id := by
  simp only [book_funded, Book.get?_put]
  split <;> rfl

theorem get?_declined (l : Ledger) (now : Int) (t : Transfer) (balance : Int) (id : Bytes) :
    (l.declined now t balance).book.entries.get? id =
      if id = t.id then some (.live t .rejected now) else l.book.entries.get? id := by
  show ((l.book.put now t .proposed none).put now t .rejected _).entries.get? id = _
  rw [Book.get?_put, Book.get?_put]
  split <;> rfl

theorem get?_funded_ended (l : Ledger) (now : Int) (t : Transfer) (e : Ending) (id : Bytes) :
    ((l.funded now t).ended now t e).book.entries.get? id =
      if id = t.id then some (.live t e.state now) else l.book.entries.get? id := by
  rw [book_ended, Book.get?_put, get?_funded]
  split <;> rfl

theorem attach_eq (l : Ledger) (a : Address) (who : Listener) : l.attach a who =
    if l.accounts.contains a then (.ok (), { l with sessions := l.seats a who })
    else (.error (.accountNotFound a.text), l) := by
  simp only [attach, seats]
  split
  · split <;> rfl
  · rfl

end Interledger.Ledger
