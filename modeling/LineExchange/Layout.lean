import LineExchange.Line
import LineExchange.Rule
import LineExchange.Text
import LineExchange.Word

/-!
# LineExchange.Layout

Where things lie in the shared region. Each core owns a window of the region. In a window each
direction has two control lines, one per parity, and an overflow array behind them; one line
further up holds the worker-control byte. A layout gives the offsets; `check` accepts it when the
parts follow each other without overlap and every part starts on a line.

Offsets are 64-bit words. Addresses are computed without a bound; where a sum is compared it is
stopped at the largest word.
-/

namespace LineExchange

/-- A direction of transfer, seen from the host. -/
inductive Direction where
  /-- Device to host. -/
  | rx
  /-- Host to device. -/
  | tx
deriving DecidableEq, Inhabited

namespace Direction

def name : Direction → String
  | rx => "rx"
  | tx => "tx"

end Direction

/-- The offsets of one core's window. All but the stride are relative to the window. -/
structure Layout where
  rxBase : UInt64 := 0
  txBase : UInt64 := 0x1000
  /-- From a direction's base to its first overflow line. -/
  overflowOffset : UInt64 := 0x100
  /-- Lines in each overflow array. -/
  overflowLines : UInt64 := 16
  workerControl : UInt64 := 0xFF80
  /-- From one core's window to the next. -/
  stride : UInt64 := 0x10000
deriving DecidableEq, Inhabited

/-- Why a layout, or a region for it, is refused. -/
inductive LayoutError where
  /-- An offset is not a multiple of the line size. -/
  | misaligned (field : String) (offset : Nat)
  /-- A part starts before the one in front of it has ended. -/
  | overlap (field : String) (offset min : Nat)
  /-- The region cannot hold the windows. -/
  | regionTooSmall (required found : Nat)
deriving DecidableEq

namespace LayoutError

open Text

def message : LayoutError → String
  | misaligned field offset => s!"{field} at {hex offset} is not cacheline aligned"
  | overlap field offset min =>
    s!"{field} at {hex offset} overlaps the preceding region (must be >= {hex min})"
  | regionTooSmall required found =>
    s!"coherent region too small: required {hex required} bytes, found {hex found}"

def shown : LayoutError → String
  | misaligned field offset =>
    record "Misaligned" [("field", quoted field), ("offset", toString offset)]
  | overlap field offset min =>
    record "Overlap"
      [("field", quoted field), ("offset", toString offset), ("min", toString min)]
  | regionTooSmall required found =>
    record "RegionTooSmall" [("required", toString required), ("found", toString found)]

end LayoutError

namespace Layout

def overflowSize (l : Layout) : Nat := l.overflowLines.toNat * lineSize

/-- Bytes from a direction's base to the end of its overflow array. -/
def span (l : Layout) : Nat := l.overflowOffset.toNat + l.overflowSize

/-- The largest payload of one transaction. -/
def payloadCapacity (l : Layout) : Nat := saturate (inlineSize + l.overflowSize)

/-- Where a core's window starts in the region. -/
def coreBase (l : Layout) (core : Nat) : Nat := core * l.stride.toNat

/-- Where a direction starts in a window. -/
def directionBase (l : Layout) : Direction → Nat
  | .rx => l.rxBase.toNat
  | .tx => l.txBase.toNat

/-- Where the control line of a parity starts in a window. -/
def controlOffset (l : Layout) (d : Direction) (parity : Bool) : Nat :=
  l.directionBase d + parity.toNat * lineSize

/-- Where the overflow array starts in a window. Both parities share it. -/
def overflowBase (l : Layout) (d : Direction) : Nat := l.directionBase d + l.overflowOffset.toNat

/-- Where a core's control line of a parity starts in the region. -/
def controlAt (l : Layout) (core : Nat) (d : Direction) (parity : Bool) : Nat :=
  l.coreBase core + l.controlOffset d parity

/-- Where a core's overflow array starts in the region. -/
def overflowAt (l : Layout) (core : Nat) (d : Direction) : Nat :=
  l.coreBase core + l.overflowBase d

/-- Where a core's worker-control byte lies in the region. -/
def workerAt (l : Layout) (core : Nat) : Nat := l.coreBase core + l.workerControl.toNat

/-- Bytes of a region with `cores` windows: to the end of the last worker-control line. -/
def regionSize (l : Layout) (cores : Nat) : Option Nat :=
  if cores = 0 then some 0
  else checked? (l.stride.toNat * (cores - 1) + (l.workerControl.toNat + lineSize))

/-- The offset `field` must be a multiple of the line size. -/
def aligned (field : String) (offset : UInt64) : Rule LayoutError :=
  ⟨offset.toNat % lineSize = 0, .misaligned field offset.toNat⟩

/-- The part at `offset` must not start before `min`. -/
def startsAt (field : String) (offset : UInt64) (min : Nat) : Rule LayoutError :=
  ⟨min ≤ offset.toNat, .overlap field offset.toNat min⟩

def rules (l : Layout) : List (Rule LayoutError) := [
  aligned "rx_base" l.rxBase,
  aligned "tx_base" l.txBase,
  aligned "overflow_offset" l.overflowOffset,
  aligned "worker_ctrl_offset" l.workerControl,
  aligned "core_stride" l.stride,
  startsAt "overflow_offset" l.overflowOffset (2 * lineSize),
  startsAt "tx_base" l.txBase (saturate (l.rxBase.toNat + l.span)),
  startsAt "worker_ctrl_offset" l.workerControl (saturate (l.txBase.toNat + l.span)),
  startsAt "core_stride" l.stride (saturate (l.workerControl.toNat + lineSize))]

/-- Whether the layout can be used; else the first rule it breaks. -/
def check (l : Layout) : Except LayoutError Unit := Rule.check l.rules

/-- The size a region needs, or the largest word if no region is large enough. -/
def requiredSize (l : Layout) (cores : Nat) : Nat := (l.regionSize cores).getD wordMax

/-- Whether `found` bytes can hold `cores` windows. -/
def checkRegion (l : Layout) (cores found : Nat) : Except LayoutError Unit :=
  if found < l.requiredSize cores then .error (.regionTooSmall (l.requiredSize cores) found)
  else .ok ()

def directionLines (l : Layout) : Nat := 2 + l.overflowLines.toNat

/-- Lines that exchanges on one core use. -/
def exchangeLines (l : Layout) : Nat := 2 * l.directionLines

/-- The `i`-th line of a direction: the control lines first, the overflow array behind them. -/
def directionLine (l : Layout) (d : Direction) (i : Nat) : Nat :=
  if i < 2 then l.controlOffset d (i = 1) else l.overflowBase d + (i - 2) * lineSize

/-- The `i`-th line that exchanges use, relative to the window: first all of `rx`, then `tx`. -/
def exchangeLine (l : Layout) (i : Nat) : Nat :=
  if i < l.directionLines then l.directionLine .rx i
  else l.directionLine .tx (i - l.directionLines)

/-- The first lines that exchanges use, at most `limit` of them. -/
def exchangeOffsets (l : Layout) (limit : Nat) : List Nat :=
  (List.range (min limit l.exchangeLines)).map l.exchangeLine

end Layout
end LineExchange
