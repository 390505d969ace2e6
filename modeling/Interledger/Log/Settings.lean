import Interledger.Log

/-! Log settings. What the environment sets wins over the configuration, even when it
is empty; what is configured wins over the default unless it is empty. A value in the
environment ends before its first zero byte. -/

namespace Interledger.Log

structure Settings where
  level : Level
  pattern : Bytes
  deriving DecidableEq

namespace Settings

def defaultLevel : Bytes := "info"

def defaultPattern : Bytes := "%Y-%m-%dT%H:%M:%S.%e%z [%^%l%$] [%t] %v"

def choose (environment : Option Bytes) (configured fallback : Bytes) : Bytes :=
  match environment with
  | some v => v.upToZero
  | none => if configured = [] then fallback else configured

def resolve (levelVariable patternVariable : Option Bytes) (level pattern : Bytes) : Settings :=
  ⟨.ofName (choose levelVariable level defaultLevel),
    choose patternVariable pattern defaultPattern⟩

end Settings

end Interledger.Log
