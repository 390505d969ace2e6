/-! Points in time, counted in nanoseconds from the epoch. -/

namespace Interledger.Instant

def ofMillis (ms : Nat) : Int := ms * 1000000

/-- Whole milliseconds since the epoch, cut toward zero, as a word of 64 bits. -/
def toMillis (t : Int) : Nat := (Int.tdiv t 1000000 % 0x10000000000000000).toNat

end Interledger.Instant
