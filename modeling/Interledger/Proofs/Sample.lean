import Interledger.Transfer

/-! Two accounts, a payment between them and a preimage of its condition, for the runs on
which the hypotheses of the theory are met. -/

namespace Interledger.Ledger.Sample

def alice : Address := ⟨["g", "alice"], false, by decide⟩

def bob : Address := ⟨["g", "bob"], false, by decide⟩

def preimage : Fulfillment := ⟨"secret", by decide, by decide⟩

/-- A transfer of 30 from one account to the other that is due at time 100. -/
def payment (c : Char) (condition : Option Condition) : Transfer where
  id := ascii c.toString
  sender := alice
  receiver := bob
  amount := 30
  packet := ⟨bob, 30, [], rfl, by decide⟩
  condition := condition
  expiresAt := some 100
  id_ne_nil := by simp [ascii]
  sender_leaf := rfl
  receiver_leaf := rfl
  sender_ne_receiver := by decide
  amount_nonneg := by decide

def locked (c : Char) : Transfer := payment c (some (.ofFulfillment preimage))

end Interledger.Ledger.Sample
