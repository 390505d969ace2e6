import Interledger.Decimal
import Interledger.Transfer.State

/-! What a call can refuse, as causes. Each cause has one kind and one wording; what is
told of it ends before the first zero byte. -/

namespace Interledger

/-- What an address text breaks first. -/
inductive AddressFault where
  | empty
  | tooLong
  | emptySegment
  | badSegment (segment : Bytes)
  | tooManySegments
  deriving DecidableEq

/-- The fields of a payment packet. -/
inductive PacketField where
  | account
  | amount
  | data
  deriving DecidableEq

/-- The two parties of a transfer. -/
inductive Party where
  | sender
  | receiver
  deriving DecidableEq

/-- The calls of an adaptor that need a connection. -/
inductive AdaptorCall where
  | sendMessage
  | sendTransfer
  | rejectTransfer
  | fulfillCondition
  deriving DecidableEq

inductive Error where
  | badAddress (text : Bytes) (fault : AddressFault)
  | leafParent (address : Bytes)
  | badChild (segment address : Bytes)
  | amountEmpty
  | amountNotDecimal (text : Bytes)
  | amountLeadingZeros (text : Bytes)
  | fulfillmentSize (size : Nat)
  | conditionLength
  | conditionNotHex (text : Bytes)
  | badTransferId (text : Bytes)
  | packetToScope (address : Bytes)
  | packetAmountNegative
  | packetNoData
  | packetLacks (field : PacketField)
  | packetMalformed
  | transferNoId
  | transferOfScope (party : Party) (address : Bytes)
  | transferToSelf (address : Bytes)
  | transferNegative
  | transferKnown (id : Bytes)
  | ledgerAtLeaf (ledger : Bytes)
  | accountElsewhere (account ledger : Bytes)
  | openingNegative (account : Bytes)
  | accountExists (account : Bytes)
  | connectorNotFound (account : Bytes)
  | accountNotFound (account : Bytes)
  | partyElsewhere (party : Party) (account ledger : Bytes)
  | partyNotFound (party : Party) (account : Bytes)
  | transferUnknown (id : Bytes)
  | notReceiver (caller id : Bytes)
  | notPrepared (id : Bytes) (state : TransferState)
  | pastExpiry (id : Bytes)
  | wrongFulfillment (id : Bytes)
  | leftProposed (id : Bytes)
  | leftPrepared (id : Bytes)
  | noLongerPrepared (id : Bytes)
  | accountGone (account : Bytes)
  | conditionGone (id : Bytes)
  | noLedger
  | adaptorUnknown
  | adaptorOfScope (account : Bytes)
  | notConnected (call : AdaptorCall) (account : Bytes)
  | cannotSendAs (account sender : Bytes)
  | cannotDebit (account sender : Bytes)
  | cannotReject (account id : Bytes)
  | scaleNegative (ledger : Bytes)
  | noConnectorAccount (ledger : Bytes)
  | connectorNotConfigured (ledger account : Bytes)
  | nothingBound
  | raised (text : Bytes)
  deriving DecidableEq

/-- The classes of refusals. -/
inductive ErrorKind where
  | invalidAddress
  | argument
  | incompleteBuilder
  | invalidFulfillment
  | notConnected
  | accountNotFound
  | invalidAccount
  | unauthorized
  | invalidState
  | duplicateTransfer
  | raised
  deriving DecidableEq

def AddressFault.text : AddressFault → Bytes
  | empty => "empty"
  | tooLong => "longer than 1023 characters"
  | emptySegment => "empty segment"
  | badSegment s => "segment '" ++ s ++ "' has characters outside [A-Za-z0-9_~-]"
  | tooManySegments => "more than 64 segments"

def PacketField.text : PacketField → Bytes
  | account => "destinationAccount"
  | amount => "destinationAmount"
  | data => "data"

def Party.text : Party → Bytes
  | sender => "sender"
  | receiver => "receiver"

def AdaptorCall.text : AdaptorCall → Bytes
  | sendMessage => "SendMessage"
  | sendTransfer => "SendTransfer"
  | rejectTransfer => "RejectTransfer"
  | fulfillCondition => "FulfillCondition"

namespace Error

def kind : Error → ErrorKind
  | badAddress .. | leafParent _ | badChild .. => .invalidAddress
  | amountEmpty | amountNotDecimal _ | amountLeadingZeros _ | fulfillmentSize _ | conditionLength
  | conditionNotHex _ | badTransferId _ | packetToScope _ | packetAmountNegative | packetNoData
  | packetMalformed | transferNoId | transferOfScope .. | transferToSelf _ | transferNegative
  | ledgerAtLeaf _ | openingNegative _ | noLedger | adaptorOfScope _ | scaleNegative _
  | noConnectorAccount _ => .argument
  | packetLacks _ => .incompleteBuilder
  | wrongFulfillment _ => .invalidFulfillment
  | notConnected .. => .notConnected
  | connectorNotFound _ | accountNotFound _ | connectorNotConfigured .. => .accountNotFound
  | accountElsewhere .. | accountExists _ | partyElsewhere .. | partyNotFound .. | accountGone _ =>
    .invalidAccount
  | notReceiver .. | cannotSendAs .. | cannotDebit .. | cannotReject .. => .unauthorized
  | transferUnknown _ | notPrepared .. | pastExpiry _ | leftProposed _ | leftPrepared _
  | noLongerPrepared _ | conditionGone _ | adaptorUnknown => .invalidState
  | transferKnown _ => .duplicateTransfer
  | nothingBound | raised _ => .raised

/-- What is wrong, in full. -/
def wording : Error → Bytes
  | badAddress v fault => "invalid address '" ++ v ++ "': " ++ fault.text
  | leafParent a => "cannot append to leaf address '" ++ a ++ "'"
  | badChild s a => "invalid segment '" ++ s ++ "' for prefix '" ++ a ++ "'"
  | amountEmpty => "amount is empty"
  | amountNotDecimal t => "amount '" ++ t ++ "' is not a base-10 non-negative integer"
  | amountLeadingZeros t => "amount '" ++ t ++ "' has leading zeros"
  | fulfillmentSize n => "fulfillment must be 1..256 bytes, got " ++ Decimal.digits n
  | conditionLength => "condition must be 64 hex characters"
  | conditionNotHex t => "condition '" ++ t ++ "' is not hex"
  | badTransferId t => "Invalid UUID string: " ++ t
  | packetToScope a => "destination account '" ++ a ++ "' is a prefix, not an account"
  | packetAmountNegative => "destination amount must be non-negative"
  | packetNoData => "data must not be null"
  | packetLacks field => field.text ++ " must be set"
  | packetMalformed => "malformed PaymentPacket encoding"
  | transferNoId => "transfer id must not be empty"
  | transferOfScope party a => "transfer " ++ party.text ++ " '" ++ a ++ "' is a prefix"
  | transferToSelf a => "transfer sender and receiver are both '" ++ a ++ "'"
  | transferNegative => "transfer amount must be non-negative"
  | transferKnown id => "transfer '" ++ id ++ "' is already known"
  | ledgerAtLeaf l => "ledger prefix '" ++ l ++ "' must end with '.'"
  | accountElsewhere a l => "'" ++ a ++ "' is not an account on ledger '" ++ l ++ "'"
  | openingNegative a => "opening balance of '" ++ a ++ "' must be non-negative"
  | accountExists a => "account '" ++ a ++ "' already exists"
  | connectorNotFound a => "connector account '" ++ a ++ "' does not exist"
  | accountNotFound a => "account '" ++ a ++ "' not found"
  | partyElsewhere party a l => party.text ++ " '" ++ a ++ "' is not on ledger '" ++ l ++ "'"
  | partyNotFound party a => party.text ++ " '" ++ a ++ "' not found"
  | transferUnknown id => "transfer '" ++ id ++ "' is unknown"
  | notReceiver c id => "'" ++ c ++ "' is not the receiver of transfer '" ++ id ++ "'"
  | notPrepared id s => "transfer '" ++ id ++ "' is " ++ s.name ++ ", not prepared"
  | pastExpiry id => "transfer '" ++ id ++ "' has expired"
  | wrongFulfillment id => "fulfillment does not match the condition of transfer '" ++ id ++ "'"
  | leftProposed id => "transfer '" ++ id ++ "' left proposed unexpectedly"
  | leftPrepared id => "transfer '" ++ id ++ "' left prepared unexpectedly"
  | noLongerPrepared id => "transfer '" ++ id ++ "' is no longer prepared"
  | accountGone a => "account '" ++ a ++ "' not found"
  | conditionGone id => "transfer '" ++ id ++ "' has no condition"
  | noLedger => "ledger must not be null"
  | adaptorUnknown => "adaptor is unknown"
  | adaptorOfScope a => "adaptor account '" ++ a ++ "' must not be a prefix"
  | notConnected call a => call.text ++ ": adaptor for '" ++ a ++ "' is not connected"
  | cannotSendAs a s => "SendMessage: '" ++ a ++ "' cannot send as '" ++ s ++ "'"
  | cannotDebit a s => "SendTransfer: '" ++ a ++ "' cannot debit '" ++ s ++ "'"
  | cannotReject a id => "RejectTransfer: '" ++ a ++ "' is not the receiver of transfer '" ++ id ++ "'"
  | scaleNegative l => "ledger '" ++ l ++ "': currency_scale and precision must be non-negative"
  | noConnectorAccount l => "ledger '" ++ l ++ "' has no connector_account"
  | connectorNotConfigured l a =>
    "ledger '" ++ l ++ "': connector_account '" ++ a ++ "' is not a configured account"
  | nothingBound => "event has nothing to take"
  | raised t => t

/-- What is told: the wording up to the first zero byte, if it quotes one. -/
def message (e : Error) : Bytes := e.wording.upToZero

end Error

end Interledger
