import LineExchange.Memory

/-!
# LineExchange.Memory.Sparse

A region of any size, also of one that no storage has. A byte takes room only once it was written;
until then it is 0.
-/

namespace LineExchange

/-- A region of which only the bytes that were written are kept, newest first. -/
structure Sparse where
  size : Nat
  written : List (Nat × UInt8) := []
deriving DecidableEq, Inhabited

namespace Sparse

def byteAt (s : Sparse) (offset : Nat) : UInt8 :=
  (s.written.lookup offset).getD 0

def put (s : Sparse) (offset : Nat) (byte : UInt8) : Sparse :=
  { s with written := (offset, byte) :: s.written }

/-- Go on only if `len` bytes at `offset` are in bounds. -/
def checkBounds (offset len : Nat) : Access Sparse Unit := do
  let s ← get
  Access.require (offset + len ≤ s.size) (.outsideRegion offset len s.size)

def read (offset len : Nat) : Access Sparse Bytes := do
  checkBounds offset len
  let s ← get
  return .ofFn len fun i => s.byteAt (offset + i)

def write (offset : Nat) (data : Bytes) : Access Sparse Unit := do
  checkBounds offset data.size
  modify fun s =>
    (List.range data.size).foldl (fun s i => s.put (offset + i) (data.byteAt i)) s

def loadControl (offset : Nat) : Access Sparse UInt8 := do
  checkBounds offset 1
  return (← get).byteAt offset

def storeControl (offset : Nat) (byte : UInt8) : Access Sparse Unit := do
  checkBounds offset 1
  modify fun s => s.put offset byte

instance : Memory Sparse where
  size := Sparse.size
  read := read
  write := write
  touch offset := checkBounds offset 1
  invalidate _ := pure ()
  loadControl := loadControl
  storeControl := storeControl

end Sparse
end LineExchange
