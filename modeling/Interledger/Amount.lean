import Interledger.Error

/-! Amounts in a ledger's smallest unit, exact and without bound. Their text is
canonical: digits only, with no sign and no leading zeros. -/

namespace Interledger.Amount

/-- Reads canonical text. -/
def parse (t : Bytes) : Except Error Int :=
  if t = [] then .error .amountEmpty
  else if t.all Decimal.isDigit = false then .error (.amountNotDecimal t)
  else if 1 < t.length ∧ t.head? = some 48 then .error (.amountLeadingZeros t)
  else .ok (Decimal.value t)

theorem nonneg_of_parse {t : Bytes} {a : Int} (h : parse t = .ok a) : 0 ≤ a := by
  unfold parse at h
  repeat' split at h
  all_goals cases h
  exact Int.natCast_nonneg _

end Interledger.Amount
