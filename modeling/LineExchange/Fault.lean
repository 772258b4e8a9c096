import LineExchange.Text

/-!
# LineExchange.Fault

The ways a computation breaks off without an answer. What it had done before stays done.
-/

namespace LineExchange

/-- Why a computation broke off. -/
inductive Fault where
  /-- An access of `len` bytes at `offset` left a region of `size` bytes. -/
  | outsideRegion (offset len size : Nat)
  /-- An index past the end of a list. -/
  | outOfRange
  /-- More storage was asked for than there can be. -/
  | outOfStorage
  /-- An assertion failed; it may say what it expected. -/
  | assertion (text : Option String)
deriving DecidableEq

namespace Fault

open Text

/-- What is reported of a fault, if anything. -/
def message? : Fault → Option String
  | outsideRegion offset len size =>
    some s!"access {hex offset}+{len} outside coherent region of {hex size} bytes"
  | outOfRange => none
  | outOfStorage => none
  | assertion text => text.map firstLine

end Fault

/-- No storage is as large as half of all 64-bit addresses. -/
def storageLimit : Nat := 0x8000000000000000

end LineExchange
