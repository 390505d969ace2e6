import Interledger.Decimal

/-! Log lines: a level, a message and fields.

A field is written `key=value`. A value that is empty or holds a blank, a quote or an
equals sign stands in quotes, where quotes and backslashes are escaped and a newline
becomes two bytes; so fields never run into each other and stay on one line. -/

namespace Interledger.Log

inductive Level where
  | trace
  | debug
  | info
  | warning
  | error
  | critical
  | off
  deriving DecidableEq

namespace Level

def name : Level → Bytes
  | trace => "trace"
  | debug => "debug"
  | info => "info"
  | warning => "warning"
  | error => "error"
  | critical => "critical"
  | off => "off"

def rank : Level → Nat
  | trace => 0
  | debug => 1
  | info => 2
  | warning => 3
  | error => 4
  | critical => 5
  | off => 6

/-- The level of a name; a name that is not one turns logging off. -/
def ofName (s : Bytes) : Level :=
  if s = "trace" then trace
  else if s = "debug" then debug
  else if s = "info" then info
  else if s = "warning" ∨ s = "warn" then warning
  else if s = "error" ∨ s = "err" then error
  else if s = "critical" then critical
  else off

end Level

structure Field where
  key : Bytes
  value : Bytes
  deriving DecidableEq

namespace Field

def int (key : Bytes) (n : Int) : Field := ⟨key, Decimal.text n⟩

def bool (key : Bytes) (b : Bool) : Field := ⟨key, if b then "true" else "false"⟩

def space : UInt8 := 32

def newline : UInt8 := 10

def quote : UInt8 := 34

def backslash : UInt8 := 92

def equals : UInt8 := 61

/-- The bytes that force a value into quotes: blank, tab, newline, quote, equals sign. -/
def isSpecial (b : UInt8) : Bool :=
  b = space || b = 9 || b = newline || b = quote || b = equals

def needsQuotes (value : Bytes) : Bool := value = [] || value.any isSpecial

def escape (b : UInt8) : Bytes :=
  if b = quote ∨ b = backslash then [backslash, b]
  else if b = newline then [backslash, 110]
  else [b]

def writeValue (value : Bytes) : Bytes :=
  if needsQuotes value then quote :: value.flatMap escape ++ [quote] else value

def write (f : Field) : Bytes := f.key ++ equals :: writeValue f.value

def writeAll (fields : List Field) : Bytes := Bytes.join space (fields.map write)

end Field

structure Line where
  level : Level
  message : Bytes
  fields : List Field
  deriving DecidableEq

namespace Line

def text (l : Line) : Bytes :=
  l.level.name ++ Field.space :: l.message
    ++ if l.fields = [] then [] else Field.space :: Field.writeAll l.fields

/-- A level lets through the lines that are at least as severe. -/
def passes (l : Line) (level : Level) : Bool := level.rank ≤ l.level.rank

end Line

end Interledger.Log
