import Interledger.Escrow.Journal
import Interledger.Simulation.Form

/-! Scripts: what can be asked of ledgers and adaptors, what they answer, and handlers
that react to events by asking for more. -/

namespace Interledger.Simulation

inductive LedgerRequest where
  | addAccount (account name balance : Bytes)
  | addConnector (account : Bytes)
  | hasAccount (account : Bytes)
  | accountInfo (account : Bytes)
  | connectors
  | info
  | prepare (transfer : TransferForm)
  | fulfill (id account preimage : Bytes)
  | reject (id account : Bytes) (reason : Reason)
  | expire (id : Bytes)
  | adopt (id : Bytes) (deadlineMs : Nat)
  | prune (cutoffMs : Nat)
  | stateOf (id : Bytes)
  | deliver (message : MessageForm)
  | find (id : Bytes)
  | contains (id : Bytes)
  | prepared
  | history (id : Bytes)
  | replay (id : Bytes)
  | attach (listener account : Bytes) (answer : Bool)
  | detach (listener : Bytes)

/-- Requests to an adaptor whose handlers are of type `η`. -/
inductive AdaptorRequest (η : Type) where
  | connect
  | disconnect
  | isConnected
  | destroy
  | setHandler (handler : Option η)
  | sendMessage (message : MessageForm)
  | ledgerInfo
  | sendTransfer (transfer : Part TransferForm)
  | rejectTransfer (transfer : Part TransferForm) (reason : Reason)
  | accountInfo (account : Bytes)
  | subscribe (account : Bytes)
  | connectors
  | fulfill (id preimage : Part Bytes)

/-- What a reaction does: ask an adaptor, its own unless another is named, or fail. -/
inductive ReactionStep (η : Type) where
  | ask (adaptor : Option Bytes) (request : AdaptorRequest η)
  | fail (text : Bytes)

/-- A reaction to the events of a name and a direction, as long as it has turns left. -/
structure Rule (η : Type) where
  event : Bytes
  direction : Option Bytes
  turns : Option Nat
  steps : List (ReactionStep η)

/-- A handler that keeps what it is given, logs it if it is told to, and reacts by the
first of its rules that matches. -/
inductive Reactor where
  | make (name : Bytes) (logs : Bool) (rules : List (Rule Reactor))

namespace Rule

variable {η : Type}

def matchesEvent (r : Rule η) (e : Event) : Bool :=
  r.event = e.name && r.turns ≠ some 0
    && match r.direction with
      | none => true
      | some d => e.direction?.map (·.name) = some d

/-- The first rule that matches, and the rules after it has taken its turn. -/
def choose (e : Event) : List (Rule η) → Option (List (ReactionStep η) × List (Rule η))
  | [] => none
  | r :: rs =>
    if r.matchesEvent e then some (r.steps, { r with turns := r.turns.map (· - 1) } :: rs)
    else (choose e rs).map fun (steps, rs) => (steps, r :: rs)

end Rule

namespace Reactor

def name : Reactor → Bytes
  | make name _ _ => name

def logs : Reactor → Bool
  | make _ logs _ => logs

def rules : Reactor → List (Rule Reactor)
  | make _ _ rules => rules

def withRules (r : Reactor) (rules : List (Rule Reactor)) : Reactor := make r.name r.logs rules

end Reactor

/-- What a request gives back. -/
inductive Answer where
  | nothing
  | truth (b : Bool)
  | count (n : Nat)
  | state (s : Option TransferState)
  | address (a : Address)
  | addresses (as : List Address)
  | info (l : LedgerInfo)
  | account (a : AccountInfo)
  | transfer (t : Option Transfer)
  | ids (ids : List Bytes)
  | history (es : List JournalEntry)

abbrev Reply := Except Error Answer

end Interledger.Simulation
