import LineExchange.Memory.Region

/-!
# LineExchange.Memory.Flaky

A region with flaws, to see what a defective memory does to an exchange. Writes to some bytes
are lost, others are garbled when they are written or read. The control bytes always work. After
a number of reads and writes the region gives up.
-/

namespace LineExchange

/-- One flaw; it concerns the bytes from `start` up to but without `stop`. -/
inductive Flaw where
  /-- Bytes written are lost. -/
  | drop (start stop : Nat)
  /-- Bytes read come with the bits of `mask` flipped. -/
  | flipRead (start stop : Nat) (mask : UInt8)
  /-- Bytes written have the bits of `mask` flipped. -/
  | flipWrite (start stop : Nat) (mask : UInt8)
deriving DecidableEq

namespace Flaw

/-- What a byte at an offset is read as. -/
def onRead (offset : Nat) (v : UInt8) : Flaw → UInt8
  | flipRead start stop mask => if start ≤ offset && offset < stop then v ^^^ mask else v
  | _ => v

/-- What a byte for an offset is written as. -/
def onWrite (offset : Nat) (v : UInt8) : Flaw → UInt8
  | flipWrite start stop mask => if start ≤ offset && offset < stop then v ^^^ mask else v
  | _ => v

/-- Whether a byte written to an offset is lost. -/
def drops (offset : Nat) : Flaw → Bool
  | drop start stop => start ≤ offset && offset < stop
  | _ => false

end Flaw

/-- A region with flaws. -/
structure Flaky where
  region : Region
  flaws : List Flaw
  /-- Reads and writes so far. -/
  accesses : Nat := 0

namespace Flaky

/-- Reads and writes after which the region gives up. -/
def budget : Nat := 5000

/-- An access to the region behind the flaws. -/
def onRegion {α : Type} (a : Access Region α) : Access Flaky α :=
  a.onPart region fun m r => { m with region := r }

def spend : Access Flaky Unit := do
  modify fun m => { m with accesses := m.accesses + 1 }
  Access.expect ((← get).accesses ≤ budget) "memory access budget exhausted"

def read (offset len : Nat) : Access Flaky Bytes := do
  spend
  let data ← onRegion (Region.read offset len)
  let flaws := (← get).flaws
  return .ofFn data.size fun i =>
    flaws.foldl (fun v f => f.onRead (offset + i) v) (data.byteAt i)

def write (offset : Nat) (data : Bytes) : Access Flaky Unit := do
  spend
  let m ← get
  let old := m.region.bytes.slice offset data.size
  let kept := Bytes.ofFn data.size fun i =>
    if m.flaws.any (·.drops (offset + i)) then old.byteAt i
    else m.flaws.foldl (fun v f => f.onWrite (offset + i) v) (data.byteAt i)
  onRegion (Region.write offset kept)

instance : Memory Flaky where
  size m := m.region.size
  read := read
  write := write
  touch offset := discard (read offset 1)
  invalidate _ := pure ()
  loadControl offset := onRegion (Region.loadControl offset)
  storeControl offset byte := onRegion (Region.storeControl offset byte)

end Flaky
end LineExchange
