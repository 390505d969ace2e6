import Interledger.Hub.Calls

/-! Ledgers and adaptors from a configuration. The first check that fails decides the
error: the ledger's own fields, then its accounts and its connectors in order, and then
the account that its adaptor acts for. -/

namespace Interledger

structure AccountConfig where
  address : Bytes
  name : Bytes
  /-- Canonical text; an empty text means zero. -/
  balance : Bytes
  deriving DecidableEq

structure LedgerConfig where
  address : Bytes
  currencyCode : Bytes
  currencyScale : Int
  precision : Int
  connectorAccount : Bytes
  connectors : List Bytes
  accounts : List AccountConfig
  deriving DecidableEq

def AccountConfig.openIn (c : AccountConfig) (l : Ledger) : Except Error Ledger := do
  let balance ← if c.balance = [] then pure 0 else Amount.parse c.balance
  let a ← Address.parse c.address
  let (answer, l) := l.addAccount a c.name balance
  answer
  return l

namespace LedgerConfig

def addConnector (l : Ledger) (connector : Bytes) : Except Error Ledger := do
  let a ← Address.parse connector
  let (answer, l) := l.addConnector a
  answer
  return l

def build (c : LedgerConfig) : Except Error Ledger := do
  let address ← Address.parse c.address
  if c.currencyScale < 0 ∨ c.precision < 0 then throw (.scaleNegative c.address)
  let l ← Ledger.make ⟨address, c.currencyCode, c.currencyScale, c.precision⟩
  let l ← c.accounts.foldlM (fun l a => a.openIn l) l
  c.connectors.foldlM addConnector l

/-- The ledger and the account that its adaptor acts for. -/
def buildWithConnector (c : LedgerConfig) : Except Error (Ledger × Address) := do
  let l ← c.build
  if c.connectorAccount = [] then throw (.noConnectorAccount c.address)
  let a ← Address.parse c.connectorAccount
  if l.hasAccount a then return (l, a)
  throw (.connectorNotConfigured c.address a.text)

/-- A hub with one adaptor, whose account is told with it. -/
def buildHub {η : Type} (c : LedgerConfig) : Except Error (Hub η × Address) := do
  let (l, a) ← c.buildWithConnector
  let (answer, h) := (Hub.make l).openAdaptor a
  discard answer
  return (h, a)

def logLine (c : LedgerConfig) (connector : Address) : Log.Line :=
  ⟨.info, "ledger configured",
    [⟨"ledger", c.address⟩, ⟨"account", connector.text⟩, .int "accounts" c.accounts.length]⟩

/-- The hubs of some ledgers, in order. Each that is built logs a line, also when a later
one fails. -/
def buildAll {η : Type} : List LedgerConfig → List Log.Line × Except Error (List (Hub η))
  | [] => ([], .ok [])
  | c :: cs =>
    match c.buildHub with
    | .error e => ([], .error e)
    | .ok (h, a) =>
      let (lines, rest) := buildAll cs
      (c.logLine a :: lines, rest.map (h :: ·))

end LedgerConfig

end Interledger
