import Interledger.Adaptor

/-! A hub: one ledger and the adaptors that act on it.

A call on the ledger is followed at once by its notices, each brought to every session
in order, before the call returns. The workers of the adaptors, their couriers and
alarms, move in steps of their own between the calls. -/

namespace Interledger

open Log

structure Hub (η : Type) where
  ledger : Ledger
  /-- The adaptors in use, by number. -/
  adaptors : Table Nat (Adaptor η)
  /-- The number of the next adaptor; none is used twice. -/
  nextKey : Nat
  /-- What each listener that is no adaptor answers to a message. -/
  answers : Table Bytes Bool
  /-- What listeners that are no adaptors were told. -/
  told : List (Bytes × Notice)
  log : List Line

namespace Hub

variable {η : Type}

def make (l : Ledger) : Hub η := ⟨l, .empty, 0, .empty, [], []⟩

def write (h : Hub η) (lines : List Line) : Hub η := { h with log := h.log ++ lines }

def modifyAdaptor (h : Hub η) (k : Nat) (f : Adaptor η → Adaptor η) : Hub η :=
  { h with adaptors := h.adaptors.modify k f }

/-- Changes an adaptor and logs what the change says. -/
def updateAdaptor (h : Hub η) (k : Nat) (f : Adaptor η → List Line × Adaptor η) : Hub η :=
  match h.adaptors.get? k with
  | some a => (h.modifyAdaptor k fun _ => (f a).2).write (f a).1
  | none => h

/-- Whether a listener takes a message. -/
def takes (h : Hub η) (m : Message) : Listener → Bool
  | .adaptor k => (h.adaptors.get? k).any (·.accepts m)
  | .outside name => (h.answers.get? name).getD false

/-! ### Notices -/

/-- Brings a notice to one session. -/
def tell (h : Hub η) (n : Notice) (s : Session) : Hub η :=
  match s.listener with
  | .adaptor k => h.updateAdaptor k (·.hear n)
  | .outside name => { h with told := h.told ++ [(name, n)] }

/-- Brings a notice to every session. -/
def announce (h : Hub η) (n : Notice) : Hub η := h.ledger.sessions.foldl (·.tell n) h

/-- Brings out what the ledger has to tell and to log. -/
def publish (h : Hub η) : Hub η :=
  let quiet : Hub η := { h with ledger := { h.ledger with notices := [], log := [] } }
  (h.ledger.notices.foldl announce quiet).write h.ledger.log

/-- A call on the ledger. -/
def onLedger {α : Type} (h : Hub η) (call : Ledger → Outcome Ledger α) : Outcome (Hub η) α :=
  ((call h.ledger).1, { h with ledger := (call h.ledger).2 }.publish)

def deliver (h : Hub η) (m : Message) : Bool × Hub η :=
  let (taken, ledger) := h.ledger.deliver m (h.takes m)
  (taken, { h with ledger }.publish)

/-- Opens a session for a listener that is no adaptor. -/
def attach (h : Hub η) (a : Address) (name : Bytes) : Outcome (Hub η) Unit :=
  h.onLedger (·.attach a (.outside name))

def detach (h : Hub η) (name : Bytes) : Hub η :=
  { h with ledger := h.ledger.detach (.outside name) }

end Hub

end Interledger
