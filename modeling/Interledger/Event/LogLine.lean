import Interledger.Event
import Interledger.Log

/-! The log line that reports an event. -/

namespace Interledger.Event

open Log

def logLine : Event → Line
  | connect l =>
    ⟨.info, "ledger event: connect", [⟨"ledger", l.address.text⟩, ⟨"currency", l.currencyCode⟩]⟩
  | disconnect reason => ⟨.warning, "ledger event: disconnect", [⟨"reason", reason⟩]⟩
  | prepared t d =>
    ⟨.info, "ledger event: transfer prepared",
      [⟨"transfer_id", t.id⟩, ⟨"direction", d.name⟩, .int "amount" t.amount,
        ⟨"destination", t.packet.account.text⟩]⟩
  | executed t d _ =>
    ⟨.info, "ledger event: transfer executed", [⟨"transfer_id", t.id⟩, ⟨"direction", d.name⟩]⟩
  | rejected t d reason =>
    ⟨.info, "ledger event: transfer rejected",
      [⟨"transfer_id", t.id⟩, ⟨"direction", d.name⟩, ⟨"reason", reason.text⟩]⟩
  | message m =>
    ⟨.info, "ledger event: message received",
      [⟨"from", m.sender.text⟩, .int "bytes" m.data.length]⟩

end Interledger.Event
