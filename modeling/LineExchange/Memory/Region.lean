import LineExchange.Memory
import LineExchange.Text

/-!
# LineExchange.Memory.Region

A plain region: bytes that nobody reacts to. An access is in bounds or it faults and changes
nothing.
-/

namespace LineExchange

/-- A plain region of memory. -/
structure Region where
  bytes : Bytes
deriving DecidableEq, Inhabited

namespace Region

def zeros (n : Nat) : Region := ⟨.zeros n⟩

def size (r : Region) : Nat := r.bytes.size

open Text in
def shown (r : Region) : String := record "HeapMemory" [("len", toString r.size)]

/-- The fault of an access out of bounds. -/
def boundsFault? (r : Region) (offset len : Nat) : Option Fault :=
  if offset + len ≤ r.size then none else some (.outsideRegion offset len r.size)

/-- Go on only if `len` bytes at `offset` are in bounds. -/
def checkBounds (offset len : Nat) : Access Region Unit := do
  match (← get).boundsFault? offset len with
  | none => pure ()
  | some f => throw f

def read (offset len : Nat) : Access Region Bytes := do
  checkBounds offset len
  return (← get).bytes.slice offset len

def write (offset : Nat) (data : Bytes) : Access Region Unit := do
  checkBounds offset data.size
  modify fun r => ⟨r.bytes.patch offset data⟩

def loadControl (offset : Nat) : Access Region UInt8 := do
  checkBounds offset 1
  return (← get).bytes.byteAt offset

def storeControl (offset : Nat) (byte : UInt8) : Access Region Unit := do
  checkBounds offset 1
  modify fun r => ⟨r.bytes.put offset byte⟩

instance : Memory Region where
  size := Region.size
  read := read
  write := write
  touch offset := checkBounds offset 1
  invalidate _ := pure ()
  loadControl := loadControl
  storeControl := storeControl

end Region
end LineExchange
