import Interledger.Ledger.Transfers

/-! Timers that the ledger has adopted: a transfer still expires when the adaptor that
sent it is gone. -/

namespace Interledger.Ledger

/-- Takes over the timer of a transfer whose sending adaptor is gone. -/
def adopt (l : Ledger) (t : Timer) : Ledger :=
  match l.adopted.start.schedule t with
  | (true, adopted) =>
    { l with adopted }.write ⟨.debug, "expiry timer adopted by ledger",
      [⟨"ledger", l.info.address.text⟩, ⟨"transfer_id", t.id⟩]⟩
  | (false, adopted) => { l with adopted }

def passAdopted (l : Ledger) (now : Int) : Ledger := { l with adopted := l.adopted.pass now }

/-- Calls back the next adopted timer that was taken out. -/
def fireAdopted (l : Ledger) (now : Int) : Ledger :=
  match l.adopted.next? with
  | none => l
  | some (t, adopted) =>
    match { l with adopted }.expire now t.id with
    | (.ok true, l) =>
      l.write ⟨.info, "transfer expired",
        [⟨"ledger", l.info.address.text⟩, ⟨"transfer_id", t.id⟩]⟩
    | (.ok false, l) => l
    | (.error e, l) => l.write (l.adopted.failLine t e.message)

end Interledger.Ledger
