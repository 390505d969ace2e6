import Interledger.Address

/-! What a ledger tells about itself and its accounts, and the messages it carries. -/

namespace Interledger

structure LedgerInfo where
  address : Address
  currencyCode : Bytes
  currencyScale : Int
  precision : Int
  deriving DecidableEq

/-- An account as it was when asked for. -/
structure AccountInfo where
  account : Address
  name : Bytes
  balance : Int
  currencyScale : Int
  precision : Int
  deriving DecidableEq

/-- A message between two accounts of one ledger. -/
structure Message where
  sender : Address
  recipient : Address
  data : Bytes
  deriving DecidableEq

end Interledger
