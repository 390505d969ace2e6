import Interledger.Packet.Wire
import Interledger.Log.Settings
import Interledger.Simulation.AlarmRun
import Interledger.Simulation.CourierRun
import Interledger.Simulation.Run
import Interledger.Proofs.Address.Children
import Interledger.Proofs.Amount.Texts
import Interledger.Proofs.Condition
import Interledger.Proofs.TransferId
import Interledger.Proofs.Alarm.Callbacks
import Interledger.Proofs.Book.Pruning
import Interledger.Proofs.Courier.Handlers
import Interledger.Proofs.Journal.Runs
import Interledger.Proofs.Log.Fields
import Interledger.Proofs.Ledger.Refusals
import Interledger.Proofs.Ledger.Money
import Interledger.Proofs.Ledger.Callbacks
import Interledger.Proofs.Ledger.Pruning
import Interledger.Proofs.Ledger.Settlement
import Interledger.Proofs.Ledger.Commutation
import Interledger.Proofs.Ledger.Acceptance
import Interledger.Proofs.Hub.Authority
import Interledger.Proofs.Hub.Callbacks
import Interledger.Proofs.Hub.Deadlines
import Interledger.Proofs.Hub.Custody
import Interledger.Proofs.Hub.Leaks
import Interledger.Proofs.Hub.Sessions
import Interledger.Proofs.Hub.Messages
import Interledger.Proofs.Hub.Subscriptions
import Interledger.Proofs.Packet.Wire
import Interledger.Proofs.Packet.Builder
import Interledger.Proofs.Config
