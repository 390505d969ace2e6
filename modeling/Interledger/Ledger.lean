import Interledger.Address.Sorted
import Interledger.Escrow.Book
import Interledger.Ledger.Info
import Interledger.Log
import Interledger.Timers.Alarm

/-! The ledger: accounts with balances, the money in escrow, and the listeners that are
told of every transfer and message.

Money moves only together with a change of state in the book. Every call gives its
answer and the ledger it leaves, also when it fails; what the call tells the listeners
waits in `notices`, and what it logs in `log`. -/

namespace Interledger

open Log

/-- Who can listen to a ledger: an adaptor by its number, or somebody else by name. -/
inductive Listener where
  | adaptor (key : Nat)
  | outside (name : Bytes)
  deriving DecidableEq

structure Session where
  account : Address
  listener : Listener
  deriving DecidableEq

/-- What a ledger tells every session. -/
inductive Notice where
  | prepared (transfer : Transfer)
  | executed (transfer : Transfer) (fulfillment : Option Fulfillment)
  | rejected (transfer : Transfer) (reason : Reason)
  | message (message : Message)
  deriving DecidableEq

structure Account where
  name : Bytes
  balance : Int
  deriving DecidableEq

structure Ledger where
  info : LedgerInfo
  accounts : Table Address Account
  connectors : List Address
  sessions : List Session
  escrow : Int
  book : Book
  /-- The timers of transfers whose sending adaptor is gone. -/
  adopted : Alarm
  notices : List Notice
  log : List Line
  deriving DecidableEq

/-- An answer or an error, and the state left behind. -/
abbrev Outcome (σ α : Type) := Except Error α × σ

namespace Ledger

def make (info : LedgerInfo) : Except Error Ledger :=
  if info.address.isPrefix then
    .ok ⟨info, .empty, [], [], 0, .empty, .make info.address.text, [], []⟩
  else .error (.ledgerAtLeaf info.address.text)

/-! ### Accounts -/

def addAccount (l : Ledger) (a : Address) (name : Bytes) (balance : Int) : Outcome Ledger Unit :=
  if a.isPrefix || !l.info.address.covers a then
    (.error (.accountElsewhere a.text l.info.address.text), l)
  else if balance < 0 then (.error (.openingNegative a.text), l)
  else if l.accounts.contains a then (.error (.accountExists a.text), l)
  else (.ok (), { l with accounts := l.accounts.insert a ⟨name, balance⟩ })

def addConnector (l : Ledger) (a : Address) : Outcome Ledger Unit :=
  if l.accounts.contains a then (.ok (), { l with connectors := a.insert l.connectors })
  else (.error (.connectorNotFound a.text), l)

def hasAccount (l : Ledger) (a : Address) : Bool := l.accounts.contains a

def balance? (l : Ledger) (a : Address) : Option Int := (l.accounts.get? a).map (·.balance)

def accountInfo (l : Ledger) (a : Address) : Except Error AccountInfo :=
  match l.accounts.get? a with
  | some r => .ok ⟨a, r.name, r.balance, l.info.currencyScale, l.info.precision⟩
  | none => .error (.accountNotFound a.text)

/-- All accounts, by address. -/
def accountInfos (l : Ledger) : List AccountInfo :=
  (Address.sorted l.accounts.keys).filterMap fun a => (l.accountInfo a).toOption

/-- Adds to a balance, or takes from it. -/
def credit (l : Ledger) (a : Address) (n : Int) : Ledger :=
  { l with accounts := l.accounts.modify a fun r => { r with balance := r.balance + n } }

/-! ### Sessions -/

/-- Opens a session; a listener that has one keeps its place with the new account. -/
def attach (l : Ledger) (a : Address) (who : Listener) : Outcome Ledger Unit :=
  if l.accounts.contains a then
    if l.sessions.any (·.listener = who) then
      (.ok (), { l with
        sessions := l.sessions.map fun s => if s.listener = who then { s with account := a } else s })
    else (.ok (), { l with sessions := l.sessions ++ [⟨a, who⟩] })
  else (.error (.accountNotFound a.text), l)

def detach (l : Ledger) (who : Listener) : Ledger :=
  { l with sessions := l.sessions.filter (·.listener ≠ who) }

def notify (l : Ledger) (n : Notice) : Ledger := { l with notices := l.notices ++ [n] }

def write (l : Ledger) (line : Line) : Ledger := { l with log := l.log ++ [line] }

/-! ### Messages -/

/-- Offers a message to every session and tells whether any took it. -/
def deliver (l : Ledger) (m : Message) (takes : Listener → Bool) : Bool × Ledger :=
  let taken := l.sessions.any fun s => takes s.listener
  let l := l.notify (.message m)
  (taken,
    if taken then l
    else l.write ⟨.debug, "ledger message dropped, no listener for recipient",
      [⟨"ledger", l.info.address.text⟩, ⟨"to", m.recipient.text⟩]⟩)

end Ledger

end Interledger
