import LineExchange.Text

/-!
# LineExchange.Gate

The gate of a core: one byte through which host and device agree on who uses the core's window.
The device owns bit 0, `ready`, and clears it while it takes the core away. The host owns bit 1,
`busy`. A host enters by setting `busy` on a byte that is ready and not busy, and leaves by
clearing it; the other bits are never changed. Counters keep how often this happened.
-/

namespace LineExchange

namespace ControlByte

/-- The bit of the device: the host may use the window. -/
def readyBit : UInt8 := 1

/-- The bit of the host: someone is inside. -/
def busyBit : UInt8 := 2

def isReady (b : UInt8) : Bool := b &&& readyBit = readyBit

def isBusy (b : UInt8) : Bool := b &&& busyBit = busyBit

def setReady (b : UInt8) (v : Bool) : UInt8 := if v then b ||| readyBit else b &&& ~~~readyBit

def setBusy (b : UInt8) (v : Bool) : UInt8 := if v then b ||| busyBit else b &&& ~~~busyBit

/-- The names of the bits that are set, and what else is set in base 16. -/
def shown (b : UInt8) : String :=
  let rest := b &&& ~~~(readyBit ||| busyBit)
  let names := (if isReady b then ["READY"] else []) ++ (if isBusy b then ["BUSY"] else []) ++
    (if rest = 0 then [] else [Text.hex rest.toNat])
  Text.tuple "WorkerCtrl" [if names.isEmpty then "0x0" else " | ".intercalate names]

end ControlByte

/-- How often a gate was passed. The counts have no bound; that they wrap around at 2^64 is not
followed. -/
structure Counters where
  entries : Nat := 0
  exits : Nat := 0
  /-- Failed attempts to enter, over all calls. -/
  spins : Nat := 0
deriving DecidableEq, Inhabited

namespace Counters

/-- Critical sections entered and not yet left. A snapshot may have counted an exit without its
entry; that reads as zero. -/
def inFlight (c : Counters) : Nat := c.entries - c.exits

open Text in
def shown (c : Counters) : String :=
  record "HandshakeCounters" [("entries", toString c.entries), ("exits", toString c.exits),
    ("spins", toString c.spins)]

end Counters

/-- A control byte and the counters kept for it. -/
structure Gate where
  byte : UInt8
  counters : Counters := {}
deriving DecidableEq, Inhabited

namespace Gate

/-- Whether an attempt to enter succeeds. -/
def isOpen (g : Gate) : Bool := ControlByte.isReady g.byte && !ControlByte.isBusy g.byte

/-- One attempt to enter: ready becomes ready and busy. -/
def tryEnter (g : Gate) : Option Gate :=
  if g.isOpen then
    some ⟨ControlByte.setBusy g.byte true, { g.counters with entries := g.counters.entries + 1 }⟩
  else none

/-- Leave the critical section. The exit counts even if `busy` was cleared behind the host. -/
def leave (g : Gate) : Gate :=
  ⟨ControlByte.setBusy g.byte false, { g.counters with exits := g.counters.exits + 1 }⟩

/-- The device gives the window or takes it away. -/
def setReady (g : Gate) (v : Bool) : Gate := { g with byte := ControlByte.setReady g.byte v }

def addSpins (g : Gate) (n : Nat) : Gate :=
  { g with counters := { g.counters with spins := g.counters.spins + n } }

end Gate
end LineExchange
